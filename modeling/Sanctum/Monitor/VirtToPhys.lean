import Sanctum.Machine.Sv39
import Sanctum.Monitor.PageWalk

/-!
# `virt_to_phys`

The walk of `machine/vm.c`, beside the one of the specification. It stops at the first entry that
is not a pointer (`leafEntry`), and what it returns and writes is a function of that entry only
(`virtToPhys_eq`).

## What is proved

* `translates_iff` — on canonical addresses it translates as Sv39 does exactly if one of three holds
  (`Agrees`): the entry it stops at is invalid; the address is in the lower half and its walk
  succeeds; or the address is in the lower half, its walk faults and what is returned is zero all the
  same.
* `not_translates` — an address of the kernel, mapped by a page of a gigabyte.
* `virtToPhys_harmless` — the dirty bit that it sets has no influence on later walks, whatever the
  tables are.
-/

namespace Sanctum

namespace PageWalk

/-! ### Where the walk stops -/

/-- The table that `satp` points to. -/
def root (satp : Word) : Word := (satp &&& 0xFFFFFFFFFFF) <<< 12

/-- The entry where the walk stops, and its level; the walk is at level `n`. -/
def leafEntry (m : Memory) (va : Word) : ℕ → Word → ℕ × Word
  | 0, table => (0, entryAt table va 12)
  | n + 1, table =>
    let e := entryAt table va (12 + 9 * (n + 1))
    if m.load64 e &&& 0xF = 1 then leafEntry m va n (m.load64 e >>> 10 <<< 12) else (n + 1, e)

/-- The bits of the page number in an address, for a leaf at level `i`. -/
def pageMask : ℕ → Word
  | 0 => 0xFFFFFFFFFFF <<< 12
  | 1 => 0xFFFFFFFFE00 <<< 12
  | _ => 0xFFFFFFC0000 <<< 12

/-- What is left to do at the entry `x`. -/
def atLeaf (m : Memory) (va : Word) (x : ℕ × Word) : Word × Memory :=
  let pte := m.load64 x.2
  if (pte &&& 0xF) &&& 0x1 = 0 then (0, m)
  else (physAddr (pageMask x.1) (pte >>> 10) va, m.store64 x.2 (pte ||| 0x80))

theorem leafEntry_succ {m : Memory} {va table : Word} (n : ℕ) :
    leafEntry m va (n + 1) table =
      if m.load64 (entryAt table va (12 + 9 * (n + 1))) &&& 0xF = 1 then
        leafEntry m va n (m.load64 (entryAt table va (12 + 9 * (n + 1))) >>> 10 <<< 12)
      else (n + 1, entryAt table va (12 + 9 * (n + 1))) := rfl

/-- An invalid entry is not a pointer. -/
theorem ne_one_of_invalid {w : Word} (h : (w &&& 0xF) &&& 0x1 = 0) : w &&& 0xF ≠ 1 := by
  intro h1
  rw [h1] at h
  exact absurd h (by decide)

/-- **`virt_to_phys`, by the entry where it stops.** -/
theorem virtToPhys_eq (m : Memory) (satp va : Word) :
    virtToPhys m satp va = atLeaf m va (leafEntry m va 2 (root satp)) := by
  have h0 (ppn1 : Word) : virtToPhys0 m va ppn1 = atLeaf m va (leafEntry m va 0 (ppn1 <<< 12)) := rfl
  have h1 (ppn2 : Word) : virtToPhys1 m va ppn2 = atLeaf m va (leafEntry m va 1 (ppn2 <<< 12)) := by
    rw [virtToPhys1, leafEntry_succ]
    show (if (m.load64 (entryAt (ppn2 <<< 12) va 21) &&& 0xF) &&& 0x1 = 0 then _ else _) = _
    by_cases hpointer : m.load64 (entryAt (ppn2 <<< 12) va 21) &&& 0xF = 1
    · rw [if_neg fun h => ne_one_of_invalid h hpointer, if_neg (not_not.mpr hpointer), if_pos hpointer, h0]
    · rw [if_neg hpointer, if_pos hpointer]
      rfl
  rw [virtToPhys, leafEntry_succ]
  show (if (m.load64 (entryAt (root satp) va 30) &&& 0xF) &&& 0x1 = 0 then _ else _) = _
  by_cases hpointer : m.load64 (entryAt (root satp) va 30) &&& 0xF = 1
  · rw [if_neg fun h => ne_one_of_invalid h hpointer]
    show (if m.load64 (entryAt (root satp) va 30) &&& 0xF ≠ 1 then _ else _) = _
    rw [if_neg (not_not.mpr hpointer), if_pos hpointer, ← h1]
    rfl
  · rw [if_neg hpointer]
    show (if _ then _ else if m.load64 (entryAt (root satp) va 30) &&& 0xF ≠ 1 then _ else _) = _
    rw [if_pos hpointer]
    rfl

theorem leafEntry_le (m : Memory) (va : Word) (n : ℕ) (table : Word) : (leafEntry m va n table).1 ≤ n := by
  induction n generalizing table with
  | zero => exact le_rfl
  | succ n ih =>
    rw [leafEntry_succ]
    split
    · exact (ih _).trans n.le_succ
    · exact le_rfl

theorem isPageAligned_page (w : Word) : isPageAligned (w <<< 12) = true := by
  rw [isPageAligned_iff, BitVec.toNat_shiftLeft, Nat.shiftLeft_eq]
  omega

/-- Entries are aligned. -/
theorem leafEntry_mod (m : Memory) (va : Word) (n : ℕ) {table : Word} (ht : isPageAligned table = true) :
    (leafEntry m va n table).2.toNat % 8 = 0 := by
  induction n generalizing table with
  | zero => exact entryAt_mod ht
  | succ n ih =>
    rw [leafEntry_succ]
    split
    · exact ih (isPageAligned_page _)
    · exact entryAt_mod ht

/-! ### Entries of Sv39 -/

/-- The index of an entry is in the same bits. -/
theorem entryAt_eq {table va : Word} {t : ℕ} (i : ℕ) (ht : table.toNat = 4096 * t) :
    entryAt table va (12 + 9 * i) = Sv39.entryAddr t va i := by
  have hmask : (0x1FF : Word).toNat = (2 ^ 9 - 1) * 2 ^ 0 := by decide
  have h8 : (8 : Word).toNat = 8 := rfl
  apply BitVec.eq_of_toNat_eq
  rw [entryAt, Sv39.entryAddr, Sv39.vpn, BitVec.toNat_add, BitVec.toNat_mul, toNat_and_field hmask,
    BitVec.toNat_ushiftRight, Nat.shiftRight_eq_div_pow, BitVec.toNat_ofNat, ht, h8]
  generalize va.toNat / 2 ^ (12 + 9 * i) = x
  omega

theorem isValid_iff (w : Word) : Sv39.isValid w = true ↔ ¬ (w &&& 0xF) &&& 0x1 = 0 := by
  rw [invalid_iff, Sv39.isValid, BitVec.getLsbD, Nat.testBit_zero, decide_eq_true_iff]
  omega

/-- The code and the specification agree on what a pointer is, where nothing reserved is set. -/
theorem isPointer_iff {w : Word} (hvalid : Sv39.isValid w = true) (hreserved : Sv39.isReserved w = false) :
    Sv39.isPointer w = true ↔ w &&& 0xF = 1 := by
  have hrw : (w.getLsbD 2 && !w.getLsbD 1) = false := by
    rw [Sv39.isReserved, Bool.or_eq_false_iff, Bool.or_eq_false_iff] at hreserved
    exact hreserved.1.1
  rw [isValid_iff, invalid_iff] at hvalid
  rw [pointer_iff]
  simp only [Sv39.isPointer, BitVec.getLsbD, Nat.testBit_eq_decide_div_mod_eq, Bool.and_eq_true, Bool.and_eq_false_iff,
    Bool.not_eq_true', Bool.not_eq_false', decide_eq_true_iff, decide_eq_false_iff_not] at hrw ⊢
  omega

/-- Such an entry has no bits above the page number. -/
theorem toNat_page_of_not_reserved {w : Word} (hreserved : Sv39.isReserved w = false) :
    (w >>> 10 <<< 12).toNat = 4096 * Sv39.ppn w := by
  have hhigh : w >>> 54 = 0 := by
    rw [Sv39.isReserved, Bool.or_eq_false_iff, Bool.or_eq_false_iff, bne_eq_false_iff_eq] at hreserved
    exact hreserved.1.2
  have hdiv : w.toNat / 2 ^ 54 = 0 := by
    rw [← Nat.shiftRight_eq_div_pow, ← BitVec.toNat_ushiftRight, hhigh]
    rfl
  rw [toNat_page, Sv39.ppn]
  omega

/-- A walk that succeeds ends at a valid entry, and this is the entry where `virt_to_phys` stops. -/
theorem leafEntry_of_walk {m : Memory} {va table : Word} {n t pa : ℕ} (ht : table.toNat = 4096 * t)
    (hwalk : Sv39.walk m va (n + 1) t = some pa) :
    Sv39.isValid (m.load64 (leafEntry m va n table).2) = true ∧
      pa = Sv39.physAddr (leafEntry m va n table).1 (m.load64 (leafEntry m va n table).2) va := by
  induction n generalizing table t with
  | zero =>
    rw [Sv39.walk, ← entryAt_eq 0 ht] at hwalk
    split at hwalk
    · cases hwalk
    next hok =>
    rw [Bool.or_eq_true, not_or, Bool.not_eq_true', Bool.not_eq_false, Bool.not_eq_true] at hok
    split at hwalk
    · cases hwalk
    split at hwalk
    · cases hwalk
    · exact ⟨hok.1, (Option.some.inj hwalk).symm⟩
  | succ n ih =>
    rw [Sv39.walk, ← entryAt_eq (n + 1) ht] at hwalk
    rw [leafEntry_succ]
    split at hwalk
    · cases hwalk
    next hok =>
    rw [Bool.or_eq_true, not_or, Bool.not_eq_true', Bool.not_eq_false, Bool.not_eq_true] at hok
    have hpointer := isPointer_iff hok.1 hok.2
    split at hwalk
    · next h =>
      rw [if_pos (hpointer.mp h)]
      exact ih (toNat_page_of_not_reserved hok.2) hwalk
    next h =>
    rw [if_neg (mt hpointer.mpr h)]
    split at hwalk
    · cases hwalk
    · exact ⟨hok.1, (Option.some.inj hwalk).symm⟩

/-- What a valid entry gives an address of the lower half. -/
theorem toNat_physAddr_of_lower {va w : Word} {i : ℕ} (hi : i ≤ 2) (hva : va.toNat < 2 ^ 38) :
    (physAddr (pageMask i) (w >>> 10) va).toNat = Sv39.physAddr i w va := by
  have h0 : (pageMask 0).toNat = (2 ^ 44 - 1) * 2 ^ 12 := by decide
  have h1 : (pageMask 1).toNat = (2 ^ 35 - 1) * 2 ^ 21 := by decide
  have h2 : (pageMask 2).toNat = (2 ^ 26 - 1) * 2 ^ 30 := by decide
  have hw := w.isLt
  rw [Sv39.physAddr, Sv39.ppn]
  obtain rfl | rfl | rfl : i = 0 ∨ i = 1 ∨ i = 2 := by omega
  · rw [toNat_physAddr h0 hva (by omega)]
    omega
  · rw [toNat_physAddr h1 hva (by omega)]
    omega
  · rw [toNat_physAddr h2 hva (by omega)]
    omega

/-- The mask leaves the upper bits of an address of the upper half where they are. -/
theorem le_physAddr_of_upper {va : Word} (i : ℕ) (w : Word) (hva : 2 ^ 63 ≤ va.toNat) :
    2 ^ 63 ≤ (physAddr (pageMask i) w va).toNat := by
  have hmask : (pageMask i).msb = false := by
    match i with
    | 0 => decide
    | 1 => decide
    | n + 2 => exact (by decide : (pageMask 2).msb = false)
  have hmsb : (physAddr (pageMask i) w va).msb = true := by
    rw [physAddr, BitVec.msb_or, BitVec.msb_and, BitVec.msb_not, hmask, BitVec.msb_eq_decide, decide_eq_true hva]
    rfl
  rw [BitVec.msb_eq_decide, decide_eq_true_iff] at hmsb
  exact hmsb

/-! ### Translation -/

/-- The call returns what Sv39 finds, and 0 for a page fault. -/
def Translates (m : Memory) (satp va : Word) : Prop :=
  (∀ pa, Sv39.translate m satp va = some pa → (virtToPhys m satp va).1.toNat = pa) ∧
    (Sv39.translate m satp va = none → (virtToPhys m satp va).1 = 0)

/-- When it does. -/
inductive Agrees (m : Memory) (satp va : Word) : Prop where
  /-- The walk stops at an invalid entry. -/
  | invalid (hinvalid : Sv39.isValid (m.load64 (leafEntry m va 2 (root satp)).2) = false)
  /-- The address is in the lower half, and Sv39 maps it. -/
  | lower (hva : va.toNat < 2 ^ 38) (hmapped : Sv39.translate m satp va ≠ none)
  /-- The address is in the lower half, Sv39 does not map it, its offset is 0 and the entry where the walk
  stops has page number 0. -/
  | zero (hva : va.toNat < 2 ^ 38) (hfault : Sv39.translate m satp va = none)
      (hoffset : va.toNat % 2 ^ (12 + 9 * (leafEntry m va 2 (root satp)).1) = 0)
      (hppn : Sv39.ppn (m.load64 (leafEntry m va 2 (root satp)).2) / 2 ^ (9 * (leafEntry m va 2 (root satp)).1) = 0)

theorem toNat_root (satp : Word) : (root satp).toNat = 4096 * (satp.toNat % 2 ^ 44) := by
  have hmask : (0xFFFFFFFFFFF : Word).toNat = (2 ^ 44 - 1) * 2 ^ 0 := by decide
  rw [root, BitVec.toNat_shiftLeft, toNat_and_field hmask, Nat.shiftLeft_eq]
  omega

theorem virtToPhys_of_invalid {m : Memory} {satp va : Word}
    (h : Sv39.isValid (m.load64 (leafEntry m va 2 (root satp)).2) = false) : virtToPhys m satp va = (0, m) := by
  rw [virtToPhys_eq, atLeaf]
  exact if_pos (not_not.mp (mt (isValid_iff _).mpr (by rw [h]; exact Bool.false_ne_true)))

theorem virtToPhys_of_valid {m : Memory} {satp va : Word}
    (h : Sv39.isValid (m.load64 (leafEntry m va 2 (root satp)).2) = true) :
    virtToPhys m satp va =
      (physAddr (pageMask (leafEntry m va 2 (root satp)).1) (m.load64 (leafEntry m va 2 (root satp)).2 >>> 10) va,
        m.store64 (leafEntry m va 2 (root satp)).2 (m.load64 (leafEntry m va 2 (root satp)).2 ||| 0x80)) := by
  rw [virtToPhys_eq, atLeaf]
  exact if_neg ((isValid_iff _).mp h)

/-- What Sv39 finds is what the entry gives where the walk stops, and the entry is valid. -/
theorem of_translate {m : Memory} {satp va : Word} {pa : ℕ} (h : Sv39.translate m satp va = some pa) :
    Sv39.isValid (m.load64 (leafEntry m va 2 (root satp)).2) = true ∧
      pa = Sv39.physAddr (leafEntry m va 2 (root satp)).1 (m.load64 (leafEntry m va 2 (root satp)).2) va ∧
      pa < 2 ^ 56 := by
  rw [Sv39.translate] at h
  split at h
  · obtain ⟨hvalid, hpa⟩ := leafEntry_of_walk (toNat_root satp) h
    exact ⟨hvalid, hpa, Sv39.walk_lt (by omega) h⟩
  · cases h

/-- **When `virt_to_phys` is the translation of Sv39.** -/
theorem translates_iff {m : Memory} {satp va : Word} (hva : Sv39.IsCanonical va) :
    Translates m satp va ↔ Agrees m satp va := by
  have hlevel : (leafEntry m va 2 (root satp)).1 ≤ 2 := leafEntry_le m va 2 _
  by_cases hvalid : Sv39.isValid (m.load64 (leafEntry m va 2 (root satp)).2) = true
  swap
  · -- an invalid entry is a page fault for both
    rw [Bool.not_eq_true] at hvalid
    refine ⟨fun _ => .invalid hvalid, fun _ => ⟨fun pa hpa => ?_, fun _ => ?_⟩⟩
    · exact absurd (of_translate hpa).1 (by rw [hvalid]; exact Bool.false_ne_true)
    · rw [virtToPhys_of_invalid hvalid]
  rw [Translates, virtToPhys_of_valid hvalid, ← BitVec.toNat_inj]
  rcases hva with hlower | hupper
  · -- in the lower half the entry gives both the same address
    rw [toNat_physAddr_of_lower hlevel hlower]
    constructor
    · rintro ⟨-, hfault⟩
      by_cases hnone : Sv39.translate m satp va = none
      · obtain ⟨hppn, hoffset⟩ := Sv39.physAddr_eq_zero_iff.mp (hfault hnone)
        exact .zero hlower hnone hoffset hppn
      · exact .lower hlower hnone
    · intro hagrees
      refine ⟨fun pa hpa => (of_translate hpa).2.1.symm, fun hnone => ?_⟩
      cases hagrees with
      | invalid hinvalid => exact absurd hvalid (by rw [hinvalid]; exact Bool.false_ne_true)
      | lower _ hmapped => exact absurd hnone hmapped
      | zero _ _ hoffset hppn => exact Sv39.physAddr_eq_zero_iff.mpr ⟨hppn, hoffset⟩
  · -- in the upper half it is no physical address
    have hle := le_physAddr_of_upper (leafEntry m va 2 (root satp)).1
      (m.load64 (leafEntry m va 2 (root satp)).2 >>> 10) (show 2 ^ 63 ≤ va.toNat by omega)
    constructor
    · rintro ⟨hsome, hfault⟩
      have hzero : (0 : Word).toNat = 0 := rfl
      cases htranslate : Sv39.translate m satp va with
      | none =>
        have hpa : (physAddr _ _ _).toNat = (0 : Word).toNat := hfault htranslate
        omega
      | some pa =>
        have hpa : (physAddr _ _ _).toNat = pa := hsome pa htranslate
        have hlt := (of_translate htranslate).2.2
        omega
    · intro hagrees
      cases hagrees with
      | invalid hinvalid => exact absurd hvalid (by rw [hinvalid]; exact Bool.false_ne_true)
      | lower hva _ => omega
      | zero hva _ _ _ => omega

/-! ### A page of the kernel -/

/-- A table whose entry 0 and entry 256 are leaves for the same page of a gigabyte. -/
def gigapage : Memory :=
  Memory.store64 (Memory.store64 (fun _ => 0) 0x80000000 0x2000000F) 0x80000800 0x2000000F

/-- In the lower half. -/
theorem translates_iff_gigapage : Translates gigapage 0x80000 0x1234 ↔ Agrees gigapage 0x80000 0x1234 :=
  translates_iff (.inl (by decide))

/-- In the upper half the walk succeeds, and the address has the upper bits of the virtual one. -/
theorem not_translates :
    Sv39.IsCanonical 0xFFFFFFC000001234 ∧
      Sv39.translate gigapage 0x80000 0xFFFFFFC000001234 = some 0x80001234 ∧
      (virtToPhys gigapage 0x80000 0xFFFFFFC000001234).1 = 0xFF00000080001234 ∧
      ¬ Translates gigapage 0x80000 0xFFFFFFC000001234 := by
  have htranslate : Sv39.translate gigapage 0x80000 0xFFFFFFC000001234 = some 0x80001234 := by decide +kernel
  have hvirt : (virtToPhys gigapage 0x80000 0xFFFFFFC000001234).1 = 0xFF00000080001234 := by decide +kernel
  refine ⟨by decide, htranslate, hvirt, fun h => ?_⟩
  have hpa := h.1 _ htranslate
  rw [hvirt] at hpa
  exact absurd hpa (by decide)

/-! ### The dirty bit -/

/-- The two memories have the same words, up to bit 7. -/
def SameButDirty (m m' : Memory) : Prop :=
  ∀ a, a.toNat % 8 = 0 → m'.load64 a ||| 0x80 = m.load64 a ||| 0x80

theorem SameButDirty.trans {m₁ m₂ m₃ : Memory} (h : SameButDirty m₁ m₂) (h' : SameButDirty m₂ m₃) :
    SameButDirty m₁ m₃ := fun a ha => (h' a ha).trans (h a ha)

/-- The words may be anywhere in the tables, of whatever level. -/
theorem sameButDirty_store64 (m : Memory) {e : Word} (he : e.toNat % 8 = 0) :
    SameButDirty m (m.store64 e (m.load64 e ||| 0x80)) := by
  intro a ha
  by_cases hae : a = e
  · rw [hae, Memory.load64_store64_self, BitVec.or_assoc, BitVec.or_self]
  · rw [Memory.load64_store64_of_apart (Memory.apart_of_ne ⟨2 ^ 61, rfl⟩ ha he hae)]

/-- The bits that a walk looks at are not bit 7. -/
theorem fields_of_or {w w' : Word} (h : w' ||| 0x80 = w ||| 0x80) : w' &&& 0xF = w &&& 0xF ∧ w' >>> 10 = w >>> 10 := by
  have hbits (x : Word) : (x ||| 0x80) &&& 0xF = x &&& 0xF ∧ (x ||| 0x80) >>> 10 = x >>> 10 := by
    constructor
    · rw [BitVec.and_or_distrib_right]
      exact BitVec.or_zero
    · rw [BitVec.ushiftRight_or_distrib]
      exact BitVec.or_zero
  obtain ⟨hflags, hppn⟩ := hbits w
  obtain ⟨hflags', hppn'⟩ := hbits w'
  exact ⟨by rw [← hflags', h, hflags], by rw [← hppn', h, hppn]⟩

theorem leafEntry_of_sameButDirty {m m' : Memory} (h : SameButDirty m m') (va : Word) (n : ℕ) {table : Word}
    (ht : isPageAligned table = true) : leafEntry m' va n table = leafEntry m va n table := by
  induction n generalizing table with
  | zero => rfl
  | succ n ih =>
    obtain ⟨hflags, hppn⟩ := fields_of_or (h (entryAt table va (12 + 9 * (n + 1))) (entryAt_mod ht))
    rw [leafEntry_succ, leafEntry_succ, hflags, hppn, ih (isPageAligned_page _)]

/-- Dirty bits have no influence on what the call returns. -/
theorem virtToPhys_of_sameButDirty {m m' : Memory} (h : SameButDirty m m') (satp va : Word) :
    (virtToPhys m' satp va).1 = (virtToPhys m satp va).1 := by
  have hroot : isPageAligned (root satp) = true := isPageAligned_page _
  obtain ⟨hflags, hppn⟩ := fields_of_or (h _ (leafEntry_mod m va 2 hroot))
  rw [virtToPhys_eq, virtToPhys_eq, leafEntry_of_sameButDirty h va 2 hroot, atLeaf, atLeaf]
  simp only [hflags, hppn]
  split <;> rfl

/-- One call. -/
theorem sameButDirty_virtToPhys (m : Memory) (satp va : Word) : SameButDirty m (virtToPhys m satp va).2 := by
  by_cases hvalid : Sv39.isValid (m.load64 (leafEntry m va 2 (root satp)).2) = true
  · rw [virtToPhys_of_valid hvalid]
    exact sameButDirty_store64 m (leafEntry_mod m va 2 (isPageAligned_page _))
  · rw [virtToPhys_of_invalid (Bool.not_eq_true _ ▸ hvalid)]
    exact fun _ _ => rfl

/-- Memory after calls for the addresses `vas`. -/
def afterCalls (satp : Word) (m : Memory) (vas : List Word) : Memory :=
  vas.foldl (fun m va => (virtToPhys m satp va).2) m

/-- Any number of calls. -/
theorem sameButDirty_afterCalls (satp : Word) (vas : List Word) (m : Memory) :
    SameButDirty m (afterCalls satp m vas) := by
  induction vas generalizing m with
  | nil => exact fun _ _ => rfl
  | cons va vas ih => exact (sameButDirty_virtToPhys m satp va).trans (ih _)

/-- **The update of the dirty bit is harmless**: it sets bit 7 of the entry where the walk stops, if this
is valid, and has no influence on a later call, nor has any sequence of calls. -/
theorem virtToPhys_harmless (m : Memory) (satp va : Word) :
    let e := (leafEntry m va 2 (root satp)).2
    let m' := (virtToPhys m satp va).2
    (Sv39.isValid (m.load64 e) = false → m' = m) ∧
      (Sv39.isValid (m.load64 e) = true →
        e.toNat % 8 = 0 ∧ m'.load64 e = m.load64 e ||| 0x80 ∧ ∀ b, ¬ Memory.Within e 8 b → m' b = m b) ∧
      (∀ satp₂ va₂, (virtToPhys m' satp₂ va₂).1 = (virtToPhys m satp₂ va₂).1) ∧
      ∀ vas va₂, (virtToPhys (afterCalls satp m vas) satp va₂).1 = (virtToPhys m satp va₂).1 := by
  intro e m'
  refine ⟨fun hinvalid => ?_, fun hvalid => ?_, fun satp₂ va₂ => ?_, fun vas va₂ => ?_⟩
  · exact congrArg Prod.snd (virtToPhys_of_invalid hinvalid)
  · have hm' : m' = m.store64 e (m.load64 e ||| 0x80) := congrArg Prod.snd (virtToPhys_of_valid hvalid)
    refine ⟨leafEntry_mod m va 2 (isPageAligned_page _), ?_, fun b hb => ?_⟩
    · rw [hm', Memory.load64_store64_self]
    · rw [hm', Memory.store64_of_not_within hb]
  · exact virtToPhys_of_sameButDirty (sameButDirty_virtToPhys m satp va) satp₂ va₂
  · exact virtToPhys_of_sameButDirty (sameButDirty_afterCalls satp vas m) satp va₂

end PageWalk

end Sanctum
