import Sanctum.Monitor.PageWalk

/-!
# Writing an entry of the page tables

The software walker of `enclave_inl.h` reads its tables from the memory that
`write_page_table_entry` writes to. Here is its loop without a bound on the number of passes
(`Returns`), the entries that a walk reads (`upperEntries`, `entriesRead`), and what a write does to
it.

## What is proved

* `returns_walkPageTablesToEntry` — for a level that there is, the loop ends, with the result of
  `walkPageTablesToEntry`.
* `walkPageTables_of_write` — an address whose entry has been written is translated to the target,
  provided that the walk to the entry does not read the entry itself.
* `walkPageTables_of_not_mem` — the others are translated as before.
* `write_seen_by_walker` — all of it.
-/

namespace Sanctum

namespace PageWalk

/-! ### The loop -/

/-- The entry that a pass of the loop looks at, once it has updated its variables. -/
def passEntry (va walkLevel addrShift tableAddr : Word) : Word :=
  let addrMask := oneShl (pageTableShift walkLevel) - 1
  let entryOffset := srl va addrShift &&& addrMask
  tableAddr + sll entryOffset (pageTableEntryShift walkLevel)

/-- The loop of `walk_page_tables_to_entry`, entered with `walk_level`, `addr_shift` and `table_addr`,
ends, and the function returns the last argument. -/
inductive Returns (m : Memory) (va level : Word) : Word → Word → Word → Word → Prop where
  /-- The level is reached. -/
  | found {walkLevel walkLevel' addrShift addrShift' tableAddr : Word} (hlevel : walkLevel' = walkLevel - 1)
      (hshift : addrShift' = addrShift - pageTableShift walkLevel') (h : walkLevel' = level) :
    Returns m va level walkLevel addrShift tableAddr (passEntry va walkLevel' addrShift' tableAddr)
  /-- The walk is interrupted. -/
  | invalid {walkLevel walkLevel' addrShift addrShift' tableAddr : Word} (hlevel : walkLevel' = walkLevel - 1)
      (hshift : addrShift' = addrShift - pageTableShift walkLevel') (h : walkLevel' ≠ level)
      (hinvalid : isValidPageTableEntry m (passEntry va walkLevel' addrShift' tableAddr) walkLevel' = false) :
    Returns m va level walkLevel addrShift tableAddr 0
  /-- Another pass. -/
  | next {walkLevel walkLevel' addrShift addrShift' tableAddr r : Word} (hlevel : walkLevel' = walkLevel - 1)
      (hshift : addrShift' = addrShift - pageTableShift walkLevel') (h : walkLevel' ≠ level)
      (hvalid : isValidPageTableEntry m (passEntry va walkLevel' addrShift' tableAddr) walkLevel' = true)
      (hrest : Returns m va level walkLevel' addrShift'
        (pageTableEntryTarget m (passEntry va walkLevel' addrShift' tableAddr) walkLevel') r) :
    Returns m va level walkLevel addrShift tableAddr r

/-- The shift with which the loop has walked down to level `n`. -/
def shiftAt (n : ℕ) : Word := BitVec.ofNat 64 (12 + 9 * n)

theorem shiftAt_succ_sub (n : ℕ) : shiftAt (n + 1) - 9 = shiftAt n := by
  apply BitVec.eq_of_toNat_eq
  have h9 : (9 : Word).toNat = 9 := rfl
  rw [BitVec.toNat_sub, shiftAt, shiftAt, BitVec.toNat_ofNat, BitVec.toNat_ofNat, h9]
  omega

theorem toNat_shiftAt {n : ℕ} (hn : n ≤ 2) : (shiftAt n).toNat = 12 + 9 * n := by
  rw [shiftAt, BitVec.toNat_ofNat]
  omega

/-- One pass, at level `n`. -/
theorem loop_succ {m : Memory} {va level tableAddr : Word} {n : ℕ} (hn : n ≤ 2) :
    walkPageTablesLoop m va level (n + 1) (shiftAt (n + 1)) tableAddr =
      if BitVec.ofNat 64 n = level then entryAt tableAddr va (12 + 9 * n)
      else if !isValidPageTableEntry m (entryAt tableAddr va (12 + 9 * n)) (BitVec.ofNat 64 n) then 0
      else walkPageTablesLoop m va level n (shiftAt n)
        (pageTableEntryTarget m (entryAt tableAddr va (12 + 9 * n)) (BitVec.ofNat 64 n)) := by
  have hshift := toNat_shiftAt hn
  rw [walkPageTablesLoop_succ n (by rw [shiftAt_succ_sub, hshift]; omega), shiftAt_succ_sub, hshift]

theorem walkPageTablesToEntry_eq {m : Memory} {ptb va level : Word} (hptb : ptb ≠ 0) :
    walkPageTablesToEntry m ptb va level = walkPageTablesLoop m va level 3 (shiftAt 3) ptb := by
  have hbits : pageTableTranslatedBits = shiftAt 3 := by decide
  rw [walkPageTablesToEntry, if_neg hptb, hbits]
  rfl

theorem passEntry_shiftAt {n : ℕ} (hn : n ≤ 2) (va walkLevel tableAddr : Word) :
    passEntry va walkLevel (shiftAt n) tableAddr = entryAt tableAddr va (12 + 9 * n) := by
  have hshift := toNat_shiftAt hn
  rw [← hshift]
  exact walk_entryAddr tableAddr va (by rw [hshift]; omega) walkLevel

/-- From level `n` on the loop ends, if the level asked for is not above. -/
theorem returns_loop {m : Memory} {va level tableAddr : Word} {n : ℕ} (hn : n ≤ 2) (hlevel : level.toNat ≤ n) :
    Returns m va level (BitVec.ofNat 64 (n + 1)) (shiftAt (n + 1)) tableAddr
      (walkPageTablesLoop m va level (n + 1) (shiftAt (n + 1)) tableAddr) := by
  have hpred (k : ℕ) : BitVec.ofNat 64 k = BitVec.ofNat 64 (k + 1) - 1 := by
    rw [BitVec.ofNat_add]
    exact (BitVec.add_sub_cancel _ _).symm
  induction n generalizing tableAddr with
  | zero =>
    have h0 : BitVec.ofNat 64 0 = level := by
      apply BitVec.eq_of_toNat_eq
      show 0 = level.toNat
      omega
    rw [loop_succ hn, if_pos h0, ← passEntry_shiftAt hn va 0]
    exact .found (hpred 0) (shiftAt_succ_sub 0).symm h0
  | succ n ih =>
    rw [loop_succ hn, ← passEntry_shiftAt hn va (BitVec.ofNat 64 (n + 1))]
    by_cases hfound : BitVec.ofNat 64 (n + 1) = level
    · rw [if_pos hfound]
      exact .found (hpred (n + 1)) (shiftAt_succ_sub (n + 1)).symm hfound
    rw [if_neg hfound]
    have hbelow : level.toNat ≤ n := by
      by_contra hlt
      refine hfound (BitVec.eq_of_toNat_eq ?_)
      rw [BitVec.toNat_ofNat]
      omega
    split
    · next hinvalid =>
      exact .invalid (hpred (n + 1)) (shiftAt_succ_sub (n + 1)).symm hfound (Bool.not_eq_true' _ ▸ hinvalid)
    · next hvalid =>
      refine .next (hpred (n + 1)) (shiftAt_succ_sub (n + 1)).symm hfound ?_ (ih (by omega) hbelow)
      rwa [Bool.not_eq_true', Bool.not_eq_false] at hvalid

/-! ### What a walk reads -/

/-- The entries above level 0 that the walk to level 0 reads, from level `n` on. -/
def upperEntries (m : Memory) (va : Word) : ℕ → Word → List Word
  | 0, _ => []
  | n + 1, tableAddr =>
    let e := entryAt tableAddr va (12 + 9 * (n + 1))
    e :: if isValidPageTableEntry m e (BitVec.ofNat 64 (n + 1)) then
        upperEntries m va n (pageTableEntryTarget m e (BitVec.ofNat 64 (n + 1)))
      else []

/-- The entries that `walk_page_tables` reads. -/
def entriesRead (m : Memory) (ptb va : Word) : List Word :=
  let e := walkPageTablesToEntry m ptb va 0
  if ptb = 0 then [] else if e = 0 then upperEntries m va 2 ptb else upperEntries m va 2 ptb ++ [e]

theorem isValidPageTableEntry_congr {m m' : Memory} {e : Word} (h : m'.load64 e = m.load64 e) (level : Word) :
    isValidPageTableEntry m' e level = isValidPageTableEntry m e level := by
  rw [Bool.eq_iff_iff, isValidPageTableEntry_iff, isValidPageTableEntry_iff, h]

theorem pageTableEntryTarget_congr {m m' : Memory} {e : Word} (h : m'.load64 e = m.load64 e) (level : Word) :
    pageTableEntryTarget m' e level = pageTableEntryTarget m e level := by
  rw [pageTableEntryTarget, pageTableEntryTarget, h]

/-- The loop depends on these entries only. -/
theorem loop_congr {m m' : Memory} {va tableAddr : Word} {n : ℕ} (hn : n ≤ 2)
    (h : ∀ e ∈ upperEntries m va n tableAddr, m'.load64 e = m.load64 e) :
    walkPageTablesLoop m' va 0 (n + 1) (shiftAt (n + 1)) tableAddr =
      walkPageTablesLoop m va 0 (n + 1) (shiftAt (n + 1)) tableAddr := by
  induction n generalizing tableAddr with
  | zero =>
    have h0 : BitVec.ofNat 64 0 = (0 : Word) := rfl
    rw [loop_succ hn, loop_succ hn, if_pos h0, if_pos h0]
  | succ n ih =>
    rw [upperEntries, List.forall_mem_cons] at h
    obtain ⟨hentry, hrest⟩ := h
    rw [loop_succ hn, loop_succ hn, isValidPageTableEntry_congr hentry, pageTableEntryTarget_congr hentry]
    by_cases hvalid : isValidPageTableEntry m (entryAt tableAddr va (12 + 9 * (n + 1))) (BitVec.ofNat 64 (n + 1)) = true
    · rw [if_pos hvalid] at hrest
      rw [ih (by omega) hrest]
    · rw [Bool.not_eq_true] at hvalid
      simp only [hvalid, Bool.not_false, if_true]

/-! ### What it finds -/

theorem toNat_index (va : Word) (shift : ℕ) : (va >>> shift &&& 0x1FF).toNat = va.toNat / 2 ^ shift % 2 ^ 9 := by
  have hmask : (0x1FF : Word).toNat = (2 ^ 9 - 1) * 2 ^ 0 := by decide
  rw [toNat_and_field hmask, BitVec.toNat_ushiftRight, Nat.shiftRight_eq_div_pow]
  omega

theorem isPageAligned_target (m : Memory) (e level : Word) : isPageAligned (pageTableEntryTarget m e level) = true := by
  rw [isPageAligned_iff, toNat_pageTableEntryTarget, Nat.mul_mod_left]

/-- The loop finds nothing, or an entry of a table that is a page. -/
theorem loop_entry {m : Memory} {va level tableAddr : Word} {n : ℕ} (hn : n ≤ 2) (hlevel : level.toNat ≤ n)
    (ht : isPageAligned tableAddr = true) :
    walkPageTablesLoop m va level (n + 1) (shiftAt (n + 1)) tableAddr = 0 ∨
      ∃ table index : Word, isPageAligned table = true ∧ index.toNat < 512 ∧
        walkPageTablesLoop m va level (n + 1) (shiftAt (n + 1)) tableAddr = table + 8 * index := by
  have hentry (i : ℕ) (table : Word) (h : isPageAligned table = true) :
      ∃ table' index : Word, isPageAligned table' = true ∧ index.toNat < 512 ∧
        entryAt table va (12 + 9 * i) = table' + 8 * index := by
    refine ⟨table, va >>> (12 + 9 * i) &&& 0x1FF, h, ?_, rfl⟩
    rw [toNat_index]
    exact Nat.mod_lt _ (by decide)
  induction n generalizing tableAddr with
  | zero =>
    have h0 : BitVec.ofNat 64 0 = level := by
      apply BitVec.eq_of_toNat_eq
      show 0 = level.toNat
      omega
    rw [loop_succ hn, if_pos h0]
    exact .inr (hentry 0 tableAddr ht)
  | succ n ih =>
    rw [loop_succ hn]
    by_cases hfound : BitVec.ofNat 64 (n + 1) = level
    · rw [if_pos hfound]
      exact .inr (hentry (n + 1) tableAddr ht)
    have hbelow : level.toNat ≤ n := by
      by_contra hlt
      refine hfound (BitVec.eq_of_toNat_eq ?_)
      rw [BitVec.toNat_ofNat]
      omega
    rw [if_neg hfound]
    split
    · exact .inl rfl
    · exact ih (by omega) hbelow (isPageAligned_target ..)

/-- The index at a level is in bits 12 to 38. -/
theorem entryAt_congr {va va' : Word} (h : va.toNat / 2 ^ 12 % 2 ^ 27 = va'.toNat / 2 ^ 12 % 2 ^ 27) {n : ℕ} (hn : n ≤ 2)
    (table : Word) : entryAt table va (12 + 9 * n) = entryAt table va' (12 + 9 * n) := by
  have hindex : va >>> (12 + 9 * n) &&& 0x1FF = va' >>> (12 + 9 * n) &&& 0x1FF := by
    apply BitVec.eq_of_toNat_eq
    rw [toNat_index, toNat_index]
    obtain rfl | rfl | rfl : n = 0 ∨ n = 1 ∨ n = 2 := by omega
    all_goals omega
  rw [entryAt, entryAt, hindex]

theorem loop_congr_va {m : Memory} {va va' level tableAddr : Word} {n : ℕ} (hn : n ≤ 2)
    (h : va.toNat / 2 ^ 12 % 2 ^ 27 = va'.toNat / 2 ^ 12 % 2 ^ 27) :
    walkPageTablesLoop m va level (n + 1) (shiftAt (n + 1)) tableAddr =
      walkPageTablesLoop m va' level (n + 1) (shiftAt (n + 1)) tableAddr := by
  induction n generalizing tableAddr with
  | zero =>
    rw [loop_succ hn, loop_succ hn, entryAt_congr h hn]
    rfl
  | succ n ih => rw [loop_succ hn, loop_succ hn, entryAt_congr h hn, ih (by omega)]

/-- **For a level that there is**, the loop ends, its result depends on bits 12 to 38 of the address, and
is 0 or the address of one of the 512 entries of a page. -/
theorem walkPageTablesToEntry_spec {m : Memory} {ptb va level : Word} (hptb : isPageAligned ptb = true)
    (h0 : ptb ≠ 0) (hlevel : level.toNat < pageTableLevels.toNat) :
    Returns m va level pageTableLevels pageTableTranslatedBits ptb (walkPageTablesToEntry m ptb va level) ∧
      (∀ va' : Word, va.toNat / 2 ^ 12 % 2 ^ 27 = va'.toNat / 2 ^ 12 % 2 ^ 27 →
        walkPageTablesToEntry m ptb va level = walkPageTablesToEntry m ptb va' level) ∧
      (walkPageTablesToEntry m ptb va level = 0 ∨
        ∃ table index : Word, isPageAligned table = true ∧ index.toNat < 512 ∧
          walkPageTablesToEntry m ptb va level = table + 8 * index) := by
  have hbits : pageTableTranslatedBits = shiftAt 3 := by decide
  have hle : level.toNat ≤ 2 := Nat.le_of_lt_succ hlevel
  rw [walkPageTablesToEntry_eq h0, hbits]
  refine ⟨returns_loop le_rfl hle, fun va' h => ?_, loop_entry le_rfl hle hptb⟩
  rw [walkPageTablesToEntry_eq h0]
  exact loop_congr_va le_rfl h

/-! ### A write -/

/-- Entries are aligned, those read on the way too. -/
theorem mod_of_mem_upperEntries {m : Memory} {va tableAddr e : Word} {n : ℕ} (ht : isPageAligned tableAddr = true)
    (he : e ∈ upperEntries m va n tableAddr) : e.toNat % 8 = 0 := by
  induction n generalizing tableAddr with
  | zero => cases he
  | succ n ih =>
    rw [upperEntries, List.mem_cons] at he
    rcases he with rfl | he
    · exact entryAt_mod ht
    split at he
    · exact ih (isPageAligned_target ..) he
    · cases he

theorem walkPageTablesToEntry_mod {m : Memory} {ptb va : Word} (hptb : isPageAligned ptb = true) (h0 : ptb ≠ 0) :
    (walkPageTablesToEntry m ptb va 0).toNat % 8 = 0 := by
  obtain ⟨-, -, hentry⟩ : _ ∧ _ ∧ (walkPageTablesToEntry m ptb va 0 = 0 ∨ _) :=
    walkPageTablesToEntry_spec hptb h0 (by decide)
  rcases hentry with hzero | ⟨table, index, htable, hindex, hentry⟩
  · rw [hzero]
    rfl
  · have h8 : (8 : Word).toNat = 8 := rfl
    rw [isPageAligned_iff] at htable
    rw [hentry, BitVec.toNat_add, BitVec.toNat_mul, h8]
    omega

/-- A word that is not read on the way has no influence on where the walk arrives. -/
theorem walkPageTablesToEntry_store64 {m : Memory} {ptb va e v : Word} (hptb : isPageAligned ptb = true) (h0 : ptb ≠ 0)
    (he : e.toNat % 8 = 0) (hmem : e ∉ upperEntries m va 2 ptb) :
    walkPageTablesToEntry (m.store64 e v) ptb va 0 = walkPageTablesToEntry m ptb va 0 := by
  rw [walkPageTablesToEntry_eq h0, walkPageTablesToEntry_eq h0]
  apply loop_congr le_rfl
  intro x hx
  have hne : x ≠ e := fun h => hmem (h ▸ hx)
  exact Memory.load64_store64_of_apart (Memory.apart_of_ne ⟨2 ^ 61, rfl⟩ (mod_of_mem_upperEntries hptb hx) he hne)

/-- The entry that has been written takes the address to the target. -/
theorem walkPageTables_of_write {m : Memory} {ptb va target acl : Word} (hptb : isPageAligned ptb = true) (h0 : ptb ≠ 0)
    (htarget : isPageAligned target = true) (he : walkPageTablesToEntry m ptb va 0 ≠ 0)
    (hmem : walkPageTablesToEntry m ptb va 0 ∉ upperEntries m va 2 ptb) :
    walkPageTables (writePageTableEntry m (walkPageTablesToEntry m ptb va 0) 0 target acl) ptb va = target := by
  have hwalk := walkPageTablesToEntry_store64 (v := pageTableEntry target acl) hptb h0
    (walkPageTablesToEntry_mod hptb h0) hmem
  obtain ⟨hvalid, htarget⟩ := pageTableEntryTarget_of_load 0
    (Memory.load64_store64_self m (walkPageTablesToEntry m ptb va 0) (pageTableEntry target acl)) htarget
  rw [writePageTableEntry, walkPageTables]
  simp only [hwalk, hvalid, htarget, if_neg he, Bool.not_true, Bool.false_eq_true, if_false]

/-- Another address is translated as before, if its walk does not read the entry. -/
theorem walkPageTables_of_not_mem {m : Memory} {ptb va e target acl : Word} (hptb : isPageAligned ptb = true)
    (h0 : ptb ≠ 0) (he : e.toNat % 8 = 0) (hmem : e ∉ entriesRead m ptb va) :
    walkPageTables (writePageTableEntry m e 0 target acl) ptb va = walkPageTables m ptb va := by
  rw [entriesRead] at hmem
  simp only [if_neg h0] at hmem
  rw [writePageTableEntry, walkPageTables, walkPageTables]
  by_cases hzero : walkPageTablesToEntry m ptb va 0 = 0
  · rw [if_pos hzero] at hmem
    simp only [walkPageTablesToEntry_store64 hptb h0 he hmem, hzero, if_true]
  · rw [if_neg hzero, List.mem_append, List.mem_singleton, not_or] at hmem
    have hload := Memory.load64_store64_of_apart (m := m) (v := pageTableEntry target acl)
      (Memory.apart_of_ne ⟨2 ^ 61, rfl⟩ (walkPageTablesToEntry_mod hptb h0) he fun h => hmem.2 h.symm)
    simp only [walkPageTablesToEntry_store64 hptb h0 he hmem.1, isValidPageTableEntry_congr hload,
      pageTableEntryTarget_congr hload]

/-- **Writing an entry is seen by the walker and disturbs no other page.** -/
theorem write_seen_by_walker {m : Memory} {ptb va target acl : Word} (hptb : isPageAligned ptb = true) (h0 : ptb ≠ 0)
    (htarget : isPageAligned target = true) :
    let e := walkPageTablesToEntry m ptb va 0
    let m' := writePageTableEntry m e 0 target acl
    (e ≠ 0 → e ∉ upperEntries m va 2 ptb →
      walkPageTables m' ptb va = target ∧
        ∀ va₂, e ∉ entriesRead m ptb va₂ → walkPageTables m' ptb va₂ = walkPageTables m ptb va₂) ∧
      ∀ level : Word, level.toNat < pageTableLevels.toNat →
        Returns m va level pageTableLevels pageTableTranslatedBits ptb (walkPageTablesToEntry m ptb va level) ∧
          (∀ va' : Word, va.toNat / 2 ^ 12 % 2 ^ 27 = va'.toNat / 2 ^ 12 % 2 ^ 27 →
            walkPageTablesToEntry m ptb va level = walkPageTablesToEntry m ptb va' level) ∧
          (walkPageTablesToEntry m ptb va level = 0 ∨
            ∃ table index : Word, isPageAligned table = true ∧ index.toNat < 512 ∧
              walkPageTablesToEntry m ptb va level = table + 8 * index) := by
  intro e m'
  refine ⟨fun he hmem => ⟨walkPageTables_of_write hptb h0 htarget he hmem, fun va₂ hva₂ => ?_⟩, fun level hlevel => ?_⟩
  · exact walkPageTables_of_not_mem hptb h0 (walkPageTablesToEntry_mod hptb h0) hva₂
  · exact walkPageTablesToEntry_spec hptb h0 hlevel

/-- The page of address 0 is moved. -/
theorem write_seen_by_walker_fourPages :
    let m' := writePageTableEntry fourPages (walkPageTablesToEntry fourPages 0x80000000 0 0) 0 0x80005000 0xE
    walkPageTables m' 0x80000000 0 = 0x80005000 ∧
      (∀ va₂, walkPageTablesToEntry fourPages 0x80000000 0 0 ∉ entriesRead fourPages 0x80000000 va₂ →
        walkPageTables m' 0x80000000 va₂ = walkPageTables fourPages 0x80000000 va₂) ∧
      Returns fourPages 0 0 pageTableLevels pageTableTranslatedBits 0x80000000
        (walkPageTablesToEntry fourPages 0x80000000 0 0) := by
  intro m'
  obtain ⟨hwrite, hlevels⟩ := @write_seen_by_walker fourPages 0x80000000 0 0x80005000 0xE (by decide) (by decide)
    (by decide)
  obtain ⟨hseen, hothers⟩ := hwrite (by decide +kernel) (by decide +kernel)
  exact ⟨hseen, hothers, (hlevels 0 (by decide)).1⟩

end PageWalk

end Sanctum
