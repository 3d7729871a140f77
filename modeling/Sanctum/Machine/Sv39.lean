import Sanctum.Machine.Memory

/-!
# Sv39

The translation of virtual addresses by hardware: a walk down three levels of tables, of 512
entries each. Numbers of pages are natural numbers here, and so are physical addresses, of which
there are `2 ^ 56`.

The walk is the specification's without what depends on the kind of access: permissions, and the
accessed and dirty bits.
-/

namespace Sanctum

namespace Sv39

/-! ### Entries -/

/-- Bit V. -/
def isValid (pte : Word) : Bool := pte.getLsbD 0

/-- Neither R nor X: the entry points to a table. -/
def isPointer (pte : Word) : Bool := !pte.getLsbD 1 && !pte.getLsbD 3

/-- What is reserved: W without R, the bits above the page number, and in a pointer also D, A
and U. -/
def isReserved (pte : Word) : Bool :=
  pte.getLsbD 2 && !pte.getLsbD 1 || pte >>> 54 != 0 || isPointer pte && pte &&& 0xD0 != 0

/-- The page number, of 44 bits. -/
def ppn (pte : Word) : ℕ := pte.toNat / 2 ^ 10 % 2 ^ 44

/-- The nine bits of `va` that select an entry at level `i`. -/
def vpn (va : Word) (i : ℕ) : ℕ := va.toNat / 2 ^ (12 + 9 * i) % 2 ^ 9

/-- The address of that entry. -/
def entryAddr (table : ℕ) (va : Word) (i : ℕ) : Word := BitVec.ofNat 64 (4096 * table + 8 * vpn va i)

/-- The address in the page of a leaf at level `i`: the upper part is the entry's. -/
def physAddr (i : ℕ) (pte va : Word) : ℕ := ppn pte / 2 ^ (9 * i) * 2 ^ (12 + 9 * i) + va.toNat % 2 ^ (12 + 9 * i)

/-! ### The walk -/

/-- The walk, with `n` levels to go and the table in page `table`; `none` is a page fault. -/
def walk (m : Memory) (va : Word) : ℕ → ℕ → Option ℕ
  | 0, _ => none
  | i + 1, table =>
    let pte := m.load64 (entryAddr table va i)
    if !isValid pte || isReserved pte then none
    else if isPointer pte then walk m va i (ppn pte)
    else if ppn pte % 2 ^ (9 * i) ≠ 0 then none
    else some (physAddr i pte va)

/-- Bits 63..39 are all equal to bit 38. -/
def IsCanonical (va : Word) : Prop := va.toNat < 2 ^ 38 ∨ 2 ^ 64 - 2 ^ 38 ≤ va.toNat

instance (va : Word) : Decidable (IsCanonical va) := inferInstanceAs (Decidable (_ ∨ _))

/-- The translation of `va` by the tables at the root in `satp`. -/
def translate (m : Memory) (satp va : Word) : Option ℕ :=
  if IsCanonical va then walk m va 3 (satp.toNat % 2 ^ 44) else none

/-! ### Addresses -/

theorem ppn_lt (pte : Word) : ppn pte < 2 ^ 44 := Nat.mod_lt _ (Nat.two_pow_pos 44)

/-- Physical addresses have 56 bits. -/
theorem physAddr_lt {i : ℕ} (hi : i < 3) (pte va : Word) : physAddr i pte va < 2 ^ 56 := by
  have hppn := ppn_lt pte
  obtain rfl | rfl | rfl : i = 0 ∨ i = 1 ∨ i = 2 := by omega
  all_goals
    rw [physAddr]
    omega

/-- The address 0 is that of page 0 with offset 0. -/
theorem physAddr_eq_zero_iff {i : ℕ} {pte va : Word} :
    physAddr i pte va = 0 ↔ ppn pte / 2 ^ (9 * i) = 0 ∧ va.toNat % 2 ^ (12 + 9 * i) = 0 := by
  have hpos : 2 ^ (12 + 9 * i) ≠ 0 := (Nat.two_pow_pos _).ne'
  rw [physAddr, Nat.add_eq_zero_iff, Nat.mul_eq_zero, or_iff_left hpos]

/-- What a walk finds is a physical address. -/
theorem walk_lt {m : Memory} {va : Word} {n table pa : ℕ} (hn : n ≤ 3) (h : walk m va n table = some pa) :
    pa < 2 ^ 56 := by
  induction n generalizing table with
  | zero => cases h
  | succ i ih =>
    rw [walk] at h
    split at h
    · cases h
    split at h
    · exact ih (by omega) h
    split at h
    · cases h
    · cases h
      exact physAddr_lt (by omega) _ _

end Sv39

end Sanctum
