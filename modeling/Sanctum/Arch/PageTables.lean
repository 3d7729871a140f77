import Sanctum.Arch.BitMasking

/-!
# Page tables

The code of `arch/page_tables.h`, and what its entries hold: a target in the bits from 12 on,
and access control flags in the bits below.
-/

namespace Sanctum

/-- `page_table_levels`. -/
def pageTableLevels : Word := 3

/-- `page_table_shift`. -/
def pageTableShift (_level : Word) : Word := 9

/-- `page_table_entry_shift`. -/
def pageTableEntryShift (_level : Word) : Word := 3

/-- `__page_table_translated_bits`, with `n` levels to go. -/
def pageTableTranslatedBitsLoop : ℕ → Word → Word
  | 0, sum => sum
  | n + 1, sum => pageTableTranslatedBitsLoop n (sum + pageTableShift (pageTableLevels - BitVec.ofNat 64 (n + 1)))

/-- `page_table_translated_bits`. -/
def pageTableTranslatedBits : Word := pageTableTranslatedBitsLoop pageTableLevels.toNat pageShift

/-- `is_valid_page_table_entry`, which reads a byte. -/
def isValidPageTableEntry (m : Memory) (entryAddr _level : Word) : Bool := m entryAddr &&& 1 != 0

/-- `page_table_entry_target`. -/
def pageTableEntryTarget (m : Memory) (entryAddr _level : Word) : Word :=
  let targetMask := ~~~(oneShl pageShift - 1)
  m.load64 entryAddr &&& targetMask

/-- The entry that `write_page_table_entry` writes. -/
def pageTableEntry (target acl : Word) : Word :=
  let aclMask := oneShl pageShift - 1
  target ||| (acl &&& aclMask ||| 1)

/-- `write_page_table_entry`. -/
def writePageTableEntry (m : Memory) (entryAddr _level target acl : Word) : Memory :=
  m.store64 entryAddr (pageTableEntry target acl)

/-! ### Fields of a word -/

/-- The bits a mask selects, if they are next to each other. -/
theorem toNat_and_field {x mask : Word} {k n : ℕ} (hmask : mask.toNat = (2 ^ n - 1) * 2 ^ k) :
    (x &&& mask).toNat = x.toNat / 2 ^ k % 2 ^ n * 2 ^ k := by
  rw [BitVec.toNat_and, hmask]
  apply Nat.eq_of_testBit_eq
  intro i
  rw [Nat.testBit_and, Nat.testBit_mul_two_pow, Nat.testBit_mul_two_pow, Nat.testBit_two_pow_sub_one,
    Nat.testBit_mod_two_pow, Nat.testBit_div_two_pow]
  by_cases hi : k ≤ i
  · rw [show i - k + k = i by omega]
    simp [hi, Bool.and_comm]
  · simp [hi]

/-- What it does not select. -/
theorem toNat_and_not (x mask : Word) : (x &&& ~~~mask).toNat + (x &&& mask).toNat = x.toNat := by
  have hdisjoint : (x &&& ~~~mask) &&& (x &&& mask) = 0#64 := by
    apply BitVec.eq_of_getLsbD_eq
    intro i hi
    simp only [BitVec.getLsbD_and, BitVec.getLsbD_not, hi, decide_true, Bool.true_and, BitVec.getLsbD_zero]
    cases x.getLsbD i <;> cases mask.getLsbD i <;> rfl
  have hor : (x &&& ~~~mask) ||| (x &&& mask) = x := by
    apply BitVec.eq_of_getLsbD_eq
    intro i hi
    simp only [BitVec.getLsbD_or, BitVec.getLsbD_and, BitVec.getLsbD_not, hi, decide_true, Bool.true_and]
    cases x.getLsbD i <;> cases mask.getLsbD i <;> rfl
  rw [← BitVec.toNat_add_of_and_eq_zero hdisjoint, BitVec.add_eq_or_of_and_eq_zero _ _ hdisjoint, hor]

/-- Bits below others. -/
theorem toNat_or_low {x y : Word} {k : ℕ} (hx : x.toNat % 2 ^ k = 0) (hy : y.toNat < 2 ^ k) :
    (x ||| y).toNat = x.toNat + y.toNat := by
  obtain ⟨a, ha⟩ := Nat.dvd_of_mod_eq_zero hx
  rw [BitVec.toNat_or, ha, Nat.two_pow_add_eq_or_of_lt hy]

/-! ### What an entry holds -/

/-- An entry is the target and flags below it, of which the lowest is set. -/
theorem toNat_pageTableEntry {target : Word} (acl : Word) (htarget : isPageAligned target = true) :
    ∃ flags < 4096, flags % 2 = 1 ∧ (acl = 0 → flags = 1) ∧
      (pageTableEntry target acl).toNat = target.toNat + flags := by
  have hmask : (oneShl pageShift - 1).toNat = (2 ^ 12 - 1) * 2 ^ 0 := by decide
  have hacl := toNat_and_field (x := acl) hmask
  have hone : (1 : Word).toNat = 1 := rfl
  have hlt : (acl &&& (oneShl pageShift - 1) ||| 1).toNat < 2 ^ 12 := by
    rw [BitVec.toNat_or]
    exact Nat.or_lt_two_pow (by rw [hacl]; omega) (by rw [hone]; omega)
  refine ⟨_, hlt, ?_, fun h => ?_, toNat_or_low (isPageAligned_iff.mp htarget) hlt⟩
  · rw [BitVec.toNat_or, Nat.or_mod_two_eq_one]
    exact .inr hone
  · rw [h]
    rfl

/-- The valid bit is the lowest of the word. -/
theorem isValidPageTableEntry_iff {m : Memory} {a level : Word} :
    isValidPageTableEntry m a level = true ↔ (m.load64 a).toNat % 2 = 1 := by
  have hbyte := Memory.load_div_mod m a (n := 8) (i := 0) (by omega)
  rw [pow_zero, Nat.div_one, BitVec.add_zero] at hbyte
  have hand : (m a &&& 1).toNat = (m a).toNat % 2 := by
    rw [BitVec.toNat_and]
    exact Nat.and_two_pow_sub_one_eq_mod _ 1
  rw [isValidPageTableEntry, bne_iff_ne, ne_eq, ← BitVec.toNat_inj, hand, Memory.toNat_load64, ← hbyte]
  show ¬ _ = 0 ↔ _
  omega

/-- The target is the word without the flags. -/
theorem toNat_pageTableEntryTarget (m : Memory) (a level : Word) :
    (pageTableEntryTarget m a level).toNat = (m.load64 a).toNat / 4096 * 4096 := by
  have hmask : (~~~(oneShl pageShift - 1)).toNat = (2 ^ 52 - 1) * 2 ^ 12 := by decide
  have hlt := (m.load64 a).isLt
  calc (pageTableEntryTarget m a level).toNat = (m.load64 a).toNat / 2 ^ 12 % 2 ^ 52 * 2 ^ 12 := toNat_and_field hmask
    _ = (m.load64 a).toNat / 4096 * 4096 := by omega

end Sanctum
