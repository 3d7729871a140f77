import Sanctum.Arch.PageTables

/-!
# Two walks of the page tables

The monitor walks the page tables it has written in software (`walk_page_tables` of
`enclave_inl.h`), and in the format of Sv39 (`virt_to_phys` of `machine/vm.c`). Here are both, and
when they agree on a page that is mapped: the entries on its path have been written by
`write_page_table_entry` (`Mapped`).

They do not agree on where an entry has the page number. `write_page_table_entry` leaves the
target where it is, so that its page number begins at bit 12; Sv39 has it begin at bit 10, and so
takes the target to be four times what it is.

## What is proved

* `walkPageTables_of_mapped` — the software walker finds the target, unless the last entry is at
  address 0, which it takes for a failure.
* `agree_iff` — the walks agree exactly if, besides, the word that Sv39 finds at four times the
  address of the table at level 1 happens to lead to the target (`Leads`).
* `not_agree` — they do not on an ordinary page.
-/

namespace Sanctum

/-! ### Walking in software -/

/-- The loop of `walk_page_tables_to_entry`, which has walked down to level `n`. -/
def walkPageTablesLoop (m : Memory) (virtualAddr level : Word) : ℕ → Word → Word → Word
  | 0, _, _ => 0
  | n + 1, addrShift, tableAddr =>
    let walkLevel := BitVec.ofNat 64 n
    let levelAddrShift := pageTableShift walkLevel
    let addrShift := addrShift - levelAddrShift
    let addrMask := oneShl levelAddrShift - 1
    let entryOffset := srl virtualAddr addrShift &&& addrMask
    let entryAddr := tableAddr + sll entryOffset (pageTableEntryShift walkLevel)
    if walkLevel = level then entryAddr
    else if !isValidPageTableEntry m entryAddr walkLevel then 0
    else walkPageTablesLoop m virtualAddr level n addrShift (pageTableEntryTarget m entryAddr walkLevel)

/-- `walk_page_tables_to_entry`, for a level that there is. -/
def walkPageTablesToEntry (m : Memory) (ptb virtualAddr level : Word) : Word :=
  if ptb = 0 then 0
  else walkPageTablesLoop m virtualAddr level pageTableLevels.toNat pageTableTranslatedBits ptb

/-- `walk_page_tables`. -/
def walkPageTables (m : Memory) (ptb virtualAddr : Word) : Word :=
  let entryAddr := walkPageTablesToEntry m ptb virtualAddr 0
  if entryAddr = 0 then 0
  else if !isValidPageTableEntry m entryAddr 0 then 0
  else pageTableEntryTarget m entryAddr 0

/-! ### Walking as Sv39 does -/

/-- The address of `PT[vpn]`, `vpn` being the nine bits of `va` from `shift` on. -/
def entryAt (table va : Word) (shift : ℕ) : Word := table + 8 * (va >>> shift &&& 0x1FF)

/-- A physical address, the bits of `mask` being those of the page number and the others
those of `va`. -/
def physAddr (mask ppn va : Word) : Word := va &&& ~~~mask ||| ppn <<< 12 &&& mask

/-- `virt_to_phys` from level 0 on. -/
def virtToPhys0 (m : Memory) (va ppn1 : Word) : Word × Memory :=
  let pt0 := ppn1 <<< 12
  let pte0 := m.load64 (entryAt pt0 va 12)
  let ppn0 := pte0 >>> 10
  let xwrv0 := pte0 &&& 0xF
  if xwrv0 &&& 0x1 = 0 then (0, m)
  else (physAddr (0xFFFFFFFFFFF <<< 12) ppn0 va, m.store64 (entryAt pt0 va 12) (pte0 ||| 0x80))

/-- `virt_to_phys` from level 1 on. -/
def virtToPhys1 (m : Memory) (va ppn2 : Word) : Word × Memory :=
  let pt1 := ppn2 <<< 12
  let pte1 := m.load64 (entryAt pt1 va 21)
  let ppn1 := pte1 >>> 10
  let xwrv1 := pte1 &&& 0xF
  if xwrv1 &&& 0x1 = 0 then (0, m)
  else if xwrv1 ≠ 1 then
    (physAddr (0xFFFFFFFFE00 <<< 12) ppn1 va, m.store64 (entryAt pt1 va 21) (pte1 ||| 0x80))
  else virtToPhys0 m va ppn1

/-- `virt_to_phys`. -/
def virtToPhys (m : Memory) (satp va : Word) : Word × Memory :=
  let pt2 := (satp &&& 0xFFFFFFFFFFF) <<< 12
  let pte2 := m.load64 (entryAt pt2 va 30)
  let ppn2 := pte2 >>> 10
  let xwrv2 := pte2 &&& 0xF
  if xwrv2 &&& 0x1 = 0 then (0, m)
  else if xwrv2 ≠ 1 then
    (physAddr (0xFFFFFFC0000 <<< 12) ppn2 va, m.store64 (entryAt pt2 va 30) (pte2 ||| 0x80))
  else virtToPhys1 m va ppn2

/-! ### Tables -/

namespace PageWalk

/-- The entries on the path of `va` are as `write_page_table_entry` has written them: pointers
to tables at `t1` and `t0`, and the target. -/
structure Mapped (m : Memory) (ptb va t1 t0 target acl : Word) : Prop where
  /-- The entry at level 2. -/
  level2 : m.load64 (entryAt ptb va 30) = pageTableEntry t1 0
  /-- The entry at level 1. -/
  level1 : m.load64 (entryAt t1 va 21) = pageTableEntry t0 0
  /-- The entry at level 0. -/
  level0 : m.load64 (entryAt t0 va 12) = pageTableEntry target acl

/-- Memory after the three have been written. -/
def mapPage (m : Memory) (ptb va t1 t0 target acl : Word) : Memory :=
  let m := writePageTableEntry m (entryAt ptb va 30) 2 t1 0
  let m := writePageTableEntry m (entryAt t1 va 21) 1 t0 0
  writePageTableEntry m (entryAt t0 va 12) 0 target acl

theorem entryAt_mod {table va : Word} {shift : ℕ} (ht : isPageAligned table = true) :
    (entryAt table va shift).toNat % 8 = 0 := by
  have h8 : (8 : Word).toNat = 8 := rfl
  rw [isPageAligned_iff] at ht
  rw [entryAt, BitVec.toNat_add, BitVec.toNat_mul, h8]
  omega

/-- Entries at distinct addresses do not overlap, so all three are there. -/
theorem mapped_mapPage {m : Memory} {ptb va t1 t0 target acl : Word} (hptb : isPageAligned ptb = true)
    (ht1 : isPageAligned t1 = true) (ht0 : isPageAligned t0 = true) (h21 : entryAt ptb va 30 ≠ entryAt t1 va 21)
    (h20 : entryAt ptb va 30 ≠ entryAt t0 va 12) (h10 : entryAt t1 va 21 ≠ entryAt t0 va 12) :
    Mapped (mapPage m ptb va t1 t0 target acl) ptb va t1 t0 target acl := by
  have hapart : ∀ {a b : Word}, a.toNat % 8 = 0 → b.toNat % 8 = 0 → a ≠ b → Memory.Apart a 8 b 8 :=
    Memory.apart_of_ne ⟨2 ^ 61, rfl⟩
  have e2 : (entryAt ptb va 30).toNat % 8 = 0 := entryAt_mod hptb
  have e1 : (entryAt t1 va 21).toNat % 8 = 0 := entryAt_mod ht1
  have e0 : (entryAt t0 va 12).toNat % 8 = 0 := entryAt_mod ht0
  refine ⟨?_, ?_, Memory.load64_store64_self ..⟩
  · rw [mapPage, writePageTableEntry, Memory.load64_store64_of_apart (hapart e2 e0 h20), writePageTableEntry,
      Memory.load64_store64_of_apart (hapart e2 e1 h21), writePageTableEntry, Memory.load64_store64_self]
  · rw [mapPage, writePageTableEntry, Memory.load64_store64_of_apart (hapart e1 e0 h10), writePageTableEntry,
      Memory.load64_store64_self]

/-! ### The software walker -/

/-- What the loop computes at one level. -/
theorem walk_entryAddr (tableAddr va : Word) {shift : Word} (hshift : shift.toNat < 64) (level : Word) :
    tableAddr + sll (srl va shift &&& (oneShl (pageTableShift level) - 1)) (pageTableEntryShift level) =
      entryAt tableAddr va shift.toNat := by
  have hmask : oneShl (pageTableShift level) - 1 = 0x1FF := by
    rw [pageTableShift]
    decide
  have h3 : (pageTableEntryShift level).toNat = 3 := rfl
  have h8 : (8 : Word).toNat = 8 := rfl
  rw [entryAt, hmask]
  congr 1
  apply BitVec.eq_of_toNat_eq
  rw [toNat_sll (by rw [h3]; omega), h3, srl, Nat.mod_eq_of_lt hshift, BitVec.toNat_mul, h8]
  omega

/-- One level of the loop. -/
theorem walkPageTablesLoop_succ {m : Memory} {va level tableAddr addrShift : Word} (n : ℕ)
    (hshift : (addrShift - 9).toNat < 64) :
    walkPageTablesLoop m va level (n + 1) addrShift tableAddr =
      let e := entryAt tableAddr va (addrShift - 9).toNat
      if BitVec.ofNat 64 n = level then e
      else if !isValidPageTableEntry m e (BitVec.ofNat 64 n) then 0
      else walkPageTablesLoop m va level n (addrShift - 9) (pageTableEntryTarget m e (BitVec.ofNat 64 n)) := by
  have haddr := walk_entryAddr tableAddr va hshift (BitVec.ofNat 64 n)
  rw [walkPageTablesLoop]
  simp only [show ∀ l, pageTableShift l = 9 from fun _ => rfl] at haddr ⊢
  rw [haddr]

/-- The flags do not get in the way of the target. -/
theorem pageTableEntryTarget_of_load {m : Memory} {a target acl : Word} (level : Word)
    (hload : m.load64 a = pageTableEntry target acl) (htarget : isPageAligned target = true) :
    isValidPageTableEntry m a level = true ∧ pageTableEntryTarget m a level = target := by
  obtain ⟨flags, hlt, hodd, -, hentry⟩ := toNat_pageTableEntry acl htarget
  rw [isPageAligned_iff] at htarget
  constructor
  · rw [isValidPageTableEntry_iff, hload, hentry]
    omega
  · apply BitVec.eq_of_toNat_eq
    rw [toNat_pageTableEntryTarget, hload, hentry]
    omega

/-- The software walker finds the target, unless the entry at level 0 is at address 0. -/
theorem walkPageTables_of_mapped {m : Memory} {ptb va t1 t0 target acl : Word} (hptb : ptb ≠ 0)
    (ht1 : isPageAligned t1 = true) (ht0 : isPageAligned t0 = true) (htarget : isPageAligned target = true)
    (hmapped : Mapped m ptb va t1 t0 target acl) :
    walkPageTables m ptb va = if entryAt t0 va 12 = 0 then 0 else target := by
  obtain ⟨hvalid2, htarget2⟩ := pageTableEntryTarget_of_load (BitVec.ofNat 64 2) hmapped.level2 ht1
  obtain ⟨hvalid1, htarget1⟩ := pageTableEntryTarget_of_load (BitVec.ofNat 64 1) hmapped.level1 ht0
  obtain ⟨hvalid0, htarget0⟩ := pageTableEntryTarget_of_load 0 hmapped.level0 htarget
  have hbits : pageTableTranslatedBits = 39 := by decide
  have hentry : walkPageTablesToEntry m ptb va 0 = entryAt t0 va 12 := by
    rw [walkPageTablesToEntry, if_neg hptb, hbits, show pageTableLevels.toNat = 2 + 1 from rfl,
      walkPageTablesLoop_succ 2 (by decide), show (39 - 9 : Word) = 30 from rfl]
    simp only [show (30 : Word).toNat = 30 from rfl, hvalid2, htarget2, Bool.not_true, Bool.false_eq_true, if_false]
    rw [if_neg (by decide), walkPageTablesLoop_succ 1 (by decide), show (30 - 9 : Word) = 21 from rfl]
    simp only [show (21 : Word).toNat = 21 from rfl, hvalid1, htarget1, Bool.not_true, Bool.false_eq_true, if_false]
    rw [if_neg (by decide), walkPageTablesLoop_succ 0 (by decide), show (21 - 9 : Word) = 12 from rfl]
    exact if_pos rfl
  rw [walkPageTables]
  simp only [hentry, hvalid0, htarget0, Bool.not_true, Bool.false_eq_true, if_false]

/-! ### Sv39 -/

theorem toNat_and_15 (w : Word) : (w &&& 0xF).toNat = w.toNat % 16 := by
  have hmask : (0xF : Word).toNat = (2 ^ 4 - 1) * 2 ^ 0 := by decide
  rw [toNat_and_field hmask, pow_zero, Nat.div_one, Nat.mul_one]
  rfl

/-- The valid bit. -/
theorem invalid_iff (w : Word) : (w &&& 0xF) &&& 0x1 = 0 ↔ w.toNat % 2 = 0 := by
  have hmask : (0x1 : Word).toNat = (2 ^ 1 - 1) * 2 ^ 0 := by decide
  rw [← BitVec.toNat_inj, toNat_and_field hmask, toNat_and_15]
  show _ = 0 ↔ _
  omega

/-- An entry that points to a table. -/
theorem pointer_iff (w : Word) : w &&& 0xF = 1 ↔ w.toNat % 16 = 1 := by
  rw [← BitVec.toNat_inj, toNat_and_15]
  rfl

theorem toNat_page (w : Word) : (w >>> 10 <<< 12).toNat = w.toNat / 1024 * 4096 % 2 ^ 64 := by
  rw [BitVec.toNat_shiftLeft, BitVec.toNat_ushiftRight, Nat.shiftRight_eq_div_pow, Nat.shiftLeft_eq]

/-- A physical address, from a page number of `n` bits above bit `k`. -/
theorem toNat_physAddr {mask w va : Word} {k n : ℕ} (hmask : mask.toNat = (2 ^ n - 1) * 2 ^ k)
    (hva : va.toNat < 2 ^ 38) (hbits : 38 ≤ n + k) :
    (physAddr mask (w >>> 10) va).toNat =
      w.toNat / 1024 * 4096 % 2 ^ 64 / 2 ^ k % 2 ^ n * 2 ^ k + va.toNat % 2 ^ k := by
  have hpage : (w >>> 10 <<< 12 &&& mask).toNat = w.toNat / 1024 * 4096 % 2 ^ 64 / 2 ^ k % 2 ^ n * 2 ^ k := by
    rw [toNat_and_field hmask, toNat_page]
  -- `va` has no bits above those of the mask
  have hoffset : (va &&& ~~~mask).toNat = va.toNat % 2 ^ k := by
    have hnot := toNat_and_not va mask
    have hhigh : va.toNat / 2 ^ k < 2 ^ n := by
      apply Nat.div_lt_of_lt_mul
      rw [← pow_add, Nat.add_comm]
      exact lt_of_lt_of_le hva (Nat.pow_le_pow_right (by omega) hbits)
    have hdiv := Nat.div_add_mod va.toNat (2 ^ k)
    rw [toNat_and_field hmask, Nat.mod_eq_of_lt hhigh, Nat.mul_comm] at hnot
    omega
  rw [physAddr, BitVec.or_comm, toNat_or_low (k := k), hpage, hoffset]
  · rw [hpage, Nat.mul_mod_left]
  · rw [hoffset]
    exact Nat.mod_lt _ (Nat.two_pow_pos k)

/-- The entry that an entry at level 1 points to. -/
def leaf (m : Memory) (va w : Word) : Word := m.load64 (entryAt (w >>> 10 <<< 12) va 12)

/-- The word `w`, read as an entry at level 1, takes `va` to the target. -/
inductive Leads (m : Memory) (va target w : Word) : Prop where
  /-- It points to a table whose entry has the target's page number. -/
  | page (hpointer : w.toNat % 16 = 1) (hvalid : (leaf m va w).toNat % 2 = 1)
      (hppn : (leaf m va w).toNat / 2 ^ 10 % 2 ^ 44 = target.toNat / 2 ^ 12)
  /-- It is a leaf with the upper part of the target's page number, and the lower part is that of
  `va`. -/
  | megapage (hvalid : w.toNat % 2 = 1) (hleaf : w.toNat % 16 ≠ 1)
      (hppn : w.toNat / 2 ^ 19 % 2 ^ 35 = target.toNat / 2 ^ 21)
      (hindex : va.toNat / 2 ^ 12 % 2 ^ 9 = target.toNat / 2 ^ 12 % 2 ^ 9)
  /-- It leads nowhere, and the target and the offset are zero. -/
  | absent (htarget : target = 0) (hoffset : va.toNat % 2 ^ 12 = 0)
      (hinvalid : w.toNat % 2 = 0 ∨ w.toNat % 16 = 1 ∧ (leaf m va w).toNat % 2 = 0)

/-- `virt_to_phys` looks for the entry at level 1 at four times the table's address. -/
theorem virtToPhys_of_mapped {m : Memory} {ptb satp va t1 t0 target acl : Word}
    (hsatp : (satp &&& 0xFFFFFFFFFFF) <<< 12 = ptb) (ht1 : isPageAligned t1 = true)
    (hmapped : Mapped m ptb va t1 t0 target acl) :
    ∃ ppn, virtToPhys m satp va = virtToPhys1 m va ppn ∧ ppn <<< 12 = 4 * t1 := by
  obtain ⟨flags, -, -, hflags, hentry⟩ := toNat_pageTableEntry 0 ht1
  rw [hflags rfl] at hentry
  rw [isPageAligned_iff] at ht1
  have hpointer : pageTableEntry t1 0 &&& 0xF = 1 := by
    rw [pointer_iff, hentry]
    omega
  have hvalid : ¬ (pageTableEntry t1 0 &&& 0xF) &&& 0x1 = 0 := by
    rw [invalid_iff, hentry]
    omega
  refine ⟨pageTableEntry t1 0 >>> 10, ?_, ?_⟩
  · rw [virtToPhys]
    simp only [hsatp, hmapped.level2]
    rw [if_neg hvalid, if_neg (not_not.mpr hpointer)]
  · have h4 : (4 : Word).toNat = 4 := rfl
    apply BitVec.eq_of_toNat_eq
    rw [toNat_page, hentry, BitVec.toNat_mul, h4]
    omega

/-- What has the page number of the target in it is the target's address. -/
theorem virtToPhys0_eq_iff {m : Memory} {va target w : Word} (hva : va.toNat < 2 ^ 38)
    (htarget : target.toNat % 4096 = 0) (hlt : target.toNat < 2 ^ 56) :
    (virtToPhys0 m va (w >>> 10)).1.toNat = target.toNat + va.toNat % 4096 ↔
      (leaf m va w).toNat % 2 = 1 ∧ (leaf m va w).toNat / 2 ^ 10 % 2 ^ 44 = target.toNat / 2 ^ 12 ∨
      (leaf m va w).toNat % 2 = 0 ∧ target.toNat = 0 ∧ va.toNat % 4096 = 0 := by
  have hmask : (0xFFFFFFFFFFF <<< 12 : Word).toNat = (2 ^ 44 - 1) * 2 ^ 12 := by decide
  have hphys := toNat_physAddr (w := leaf m va w) hmask hva (by omega)
  have hword := (leaf m va w).isLt
  rw [virtToPhys0]
  split
  · next h =>
    rw [← leaf, invalid_iff] at h
    show (0 : ℕ) = _ ↔ _
    omega
  · next h =>
    rw [← leaf, invalid_iff] at h
    rw [← leaf, hphys]
    omega

theorem virtToPhys1_eq_iff {m : Memory} {va target ppn : Word} (hva : va.toNat < 2 ^ 38)
    (htarget : target.toNat % 4096 = 0) (hlt : target.toNat < 2 ^ 56) :
    (virtToPhys1 m va ppn).1.toNat = target.toNat + va.toNat % 4096 ↔
      Leads m va target (m.load64 (entryAt (ppn <<< 12) va 21)) := by
  have hzero : target = 0 ↔ target.toNat = 0 := BitVec.toNat_inj.symm
  rw [virtToPhys1]
  generalize m.load64 (entryAt (ppn <<< 12) va 21) = w
  have hmask : (0xFFFFFFFFE00 <<< 12 : Word).toNat = (2 ^ 35 - 1) * 2 ^ 21 := by decide
  have hphys := toNat_physAddr (w := w) hmask hva (by omega)
  have hword := w.isLt
  simp only [invalid_iff, ne_eq, pointer_iff]
  by_cases hvalid : w.toNat % 2 = 0
  · rw [if_pos hvalid]
    show (0 : ℕ) = _ ↔ _
    constructor
    · intro h
      exact .absent (hzero.mpr (by omega)) (by omega) (.inl hvalid)
    · rintro (⟨hpointer, -, -⟩ | ⟨hodd, -, -, -⟩ | ⟨htarget0, hoffset, -⟩)
      · omega
      · omega
      · rw [hzero] at htarget0
        omega
  rw [if_neg hvalid]
  by_cases hpointer : w.toNat % 16 = 1
  · rw [if_neg (not_not.mpr hpointer), virtToPhys0_eq_iff hva htarget hlt]
    constructor
    · rintro (⟨hodd, hppn⟩ | ⟨heven, htarget0, hoffset⟩)
      · exact .page hpointer hodd hppn
      · exact .absent (hzero.mpr htarget0) hoffset (.inr ⟨hpointer, heven⟩)
    · rintro (⟨-, hodd, hppn⟩ | ⟨-, hleaf, -, -⟩ | ⟨htarget0, hoffset, hinvalid⟩)
      · exact .inl ⟨hodd, hppn⟩
      · exact absurd hpointer hleaf
      · exact .inr ⟨(hinvalid.resolve_left hvalid).2, hzero.mp htarget0, hoffset⟩
  · rw [if_pos hpointer, hphys]
    constructor
    · intro h
      exact .megapage (by omega) hpointer (by omega) (by omega)
    · rintro (⟨h1, -, -⟩ | ⟨-, -, hppn, hindex⟩ | ⟨-, -, hinvalid⟩)
      · exact absurd h1 hpointer
      · omega
      · exact absurd (hinvalid.resolve_left hvalid).1 hpointer

/-- **When the two walks agree** on a page that the monitor has mapped. -/
theorem agree_iff {m : Memory} {ptb satp va t1 t0 target acl : Word} (hptb : ptb ≠ 0)
    (hsatp : (satp &&& 0xFFFFFFFFFFF) <<< 12 = ptb) (ht1 : isPageAligned t1 = true) (ht0 : isPageAligned t0 = true)
    (htarget : isPageAligned target = true) (hlt : target.toNat < 2 ^ 56) (hva : va.toNat < 2 ^ 38)
    (hmapped : Mapped m ptb va t1 t0 target acl) :
    walkPageTables m ptb va = target ∧ (virtToPhys m satp va).1 = target + (va &&& 0xFFF) ↔
      (target = 0 ∨ entryAt t0 va 12 ≠ 0) ∧ Leads m va target (m.load64 (entryAt (4 * t1) va 21)) := by
  obtain ⟨ppn, hvirt, hppn⟩ := virtToPhys_of_mapped hsatp ht1 hmapped
  have hsoft : walkPageTables m ptb va = target ↔ target = 0 ∨ entryAt t0 va 12 ≠ 0 := by
    rw [walkPageTables_of_mapped hptb ht1 ht0 htarget hmapped]
    by_cases h0 : entryAt t0 va 12 = 0
    · rw [if_pos h0]
      simp only [h0, ne_eq, not_true_eq_false, or_false]
      exact eq_comm
    · rw [if_neg h0]
      simp only [h0, ne_eq, not_false_eq_true, or_true]
  have hsum : (target + (va &&& 0xFFF)).toNat = target.toNat + va.toNat % 4096 := by
    have hmask : (0xFFF : Word).toNat = (2 ^ 12 - 1) * 2 ^ 0 := by decide
    rw [BitVec.toNat_add, toNat_and_field hmask]
    omega
  have hhard : (virtToPhys m satp va).1 = target + (va &&& 0xFFF) ↔
      Leads m va target (m.load64 (entryAt (4 * t1) va 21)) := by
    rw [hvirt, ← BitVec.toNat_inj, hsum, virtToPhys1_eq_iff hva (isPageAligned_iff.mp htarget) hlt, hppn]
  rw [hsoft, hhard]

/-! ### Four pages -/

/-- Tables in three pages that map address 0 to a fourth, in memory that is otherwise zero. -/
def fourPages : Memory := mapPage (fun _ => 0) 0x80000000 0 0x80001000 0x80002000 0x80003000 0xE

theorem mapped_fourPages : Mapped fourPages 0x80000000 0 0x80001000 0x80002000 0x80003000 0xE :=
  mapped_mapPage (by decide) (by decide) (by decide) (by decide) (by decide) (by decide)

/-- These tables. -/
theorem agree_iff_fourPages :
    walkPageTables fourPages 0x80000000 0 = 0x80003000 ∧
        (virtToPhys fourPages 0x80000 0).1 = 0x80003000 + (0 &&& 0xFFF) ↔
      ((0x80003000 : Word) = 0 ∨ entryAt 0x80002000 0 12 ≠ 0) ∧
        Leads fourPages 0 0x80003000 (fourPages.load64 (entryAt (4 * 0x80001000) 0 21)) :=
  agree_iff (by decide) (by decide) (by decide) (by decide) (by decide) (by decide) (by decide) mapped_fourPages

/-- The software walker finds the page, and `virt_to_phys` does not. -/
theorem not_agree :
    Mapped fourPages 0x80000000 0 0x80001000 0x80002000 0x80003000 0xE ∧
      walkPageTables fourPages 0x80000000 0 = 0x80003000 ∧ (virtToPhys fourPages 0x80000 0).1 ≠ 0x80003000 := by
  refine ⟨mapped_fourPages, ?_, ?_⟩
  · rw [walkPageTables_of_mapped (by decide) (by decide) (by decide) (by decide) mapped_fourPages]
    decide
  · have hsatp : ((0x80000 : Word) &&& 0xFFFFFFFFFFF) <<< 12 = 0x80000000 := by decide
    obtain ⟨ppn, hvirt, hppn⟩ := virtToPhys_of_mapped hsatp (by decide) mapped_fourPages
    have hword : fourPages.load64 (entryAt (4 * 0x80001000) 0 21) = 0 := by decide +kernel
    rw [hvirt, virtToPhys1]
    simp only [hppn, hword]
    decide

end PageWalk

end Sanctum
