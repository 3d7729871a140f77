import Sanctum.Arch.Machine

/-!
# Bit masking and pages

The helpers of `arch/bit_masking.h`, and the page constants of
`arch/page_tables.h` they rest on.

Two facts about the machine's C matter here. A shift count is taken modulo the
width of what is shifted (`sll`, `srl`), as RV64's shift instructions do. And the
constant `1` is an `int`: `1 << n` shifts 32 bits and sign-extends the result to 64
(`oneShl`), so it is `2 ^ n` only for `n < 31`.
-/

namespace Sanctum

/-! ### Shifts -/

/-- `a << n` of a 64-bit word. -/
def sll (a n : Word) : Word := a <<< (n.toNat % 64)

/-- `a >> n` of a 64-bit word. -/
def srl (a n : Word) : Word := a >>> (n.toNat % 64)

/-- `1 << n`, the `1` being an `int`, as a 64-bit word. -/
def oneShl (n : Word) : Word := ((1 : BitVec 32) <<< (n.toNat % 32)).signExtend 64

/-! ### Pages -/

/-- `page_shift`. -/
def pageShift : Word := 12

/-- `page_size`. -/
def pageSize : Word := oneShl pageShift

/-- `is_valid_range_mask`. -/
def isValidRangeMask (mask : Word) : Bool := mask &&& (mask + 1) == 0

/-- `is_aligned_to_mask`. -/
def isAlignedToMask (address mask : Word) : Bool := address &&& mask == 0

/-- `is_valid_range`. -/
def isValidRange (base mask : Word) : Bool := isAlignedToMask base mask && isValidRangeMask mask

/-- `is_page_aligned`. -/
def isPageAligned (address : Word) : Bool := isAlignedToMask address (pageSize - 1)

/-- `pages_needed_for`. -/
def pagesNeededFor (memorySize : Word) : Word := srl (memorySize + pageSize - 1) pageShift

/-- The loop of `address_bits_for`; a 64-bit word is zero after 64 rounds at most. -/
def addressBitsLoop : ℕ → Word → Word → Word
  | 0, _, bits => bits
  | n + 1, memorySize, bits =>
    if memorySize > 0 then addressBitsLoop n (memorySize >>> 1) (bits + 1) else bits

/-- `address_bits_for`. -/
def addressBitsFor (memorySize : Word) : Word := addressBitsLoop 64 (memorySize - 1) 0

/-- `ceil_power_of_two`. -/
def ceilPowerOfTwo (memorySize : Word) : Word := oneShl (addressBitsFor memorySize)

/-! ### Bitmaps -/

/-- The address of the word of `bitmap` that `set_bitmap_bit` and `read_bitmap_bit`
take bit `bit` to be in. -/
def bitmapWord (bitmap bit : Word) : Word := bitmap + 8 * (bit / 64)

/-- The mask they take it to be selected by. -/
def bitmapMask (bit : Word) : Word := oneShl (bit % 64)

/-- A bitmap word with the bits of a mask set or cleared. -/
def maskedWord (w mask : Word) (value : Bool) : Word := if value then w ||| mask else w &&& ~~~mask

/-- `set_bitmap_bit`. -/
def setBitmapBit (bitmap bit : Word) (value : Bool) : Monitor Unit := do
  let w ← load64 (bitmapWord bitmap bit)
  store64 (bitmapWord bitmap bit) (maskedWord w (bitmapMask bit) value)

/-- `read_bitmap_bit`. -/
def readBitmapBit (bitmap bit : Word) : Monitor Bool := do
  let w ← load64 (bitmapWord bitmap bit)
  return w &&& bitmapMask bit != 0

/-- Memory after `set_bitmap_bit`. -/
def Memory.setBit (m : Memory) (bitmap bit : Word) (value : Bool) : Memory :=
  m.store64 (bitmapWord bitmap bit)
    (maskedWord (m.load64 (bitmapWord bitmap bit)) (bitmapMask bit) value)

/-- What `read_bitmap_bit` returns. -/
def Memory.getBit (m : Memory) (bitmap bit : Word) : Bool :=
  m.load64 (bitmapWord bitmap bit) &&& bitmapMask bit != 0

/-- Bit `bit` of the bitmap, each of whose words has 64. -/
def Memory.bit (m : Memory) (bitmap bit : Word) : Bool :=
  (m.load64 (bitmapWord bitmap bit)).getLsbD (bit.toNat % 64)

@[simp] theorem run_setBitmapBit (r : LockReading) (s : Machine) (bitmap bit : Word) (value : Bool) :
    (setBitmapBit bitmap bit value).run (exec r) s =
      some ((), { s with mem := s.mem.setBit bitmap bit value }) := rfl

@[simp] theorem run_readBitmapBit (r : LockReading) (s : Machine) (bitmap bit : Word) :
    (readBitmapBit bitmap bit).run (exec r) s = some (s.mem.getBit bitmap bit, s) := rfl

/-! ### Arithmetic -/

@[simp] theorem pageSize_eq : pageSize = 4096 := by decide

@[simp] theorem pageShift_eq : pageShift = 12 := rfl

theorem isPageAligned_iff {a : Word} : isPageAligned a = true ↔ a.toNat % 4096 = 0 := by
  have h : (a &&& (4096 - 1 : Word)).toNat = a.toNat % 4096 := by
    rw [BitVec.toNat_and]
    exact Nat.and_two_pow_sub_one_eq_mod a.toNat 12
  rw [isPageAligned, isAlignedToMask, pageSize_eq, beq_iff_eq, ← BitVec.toNat_inj, h]
  rfl

/-- A valid range is a power of two of addresses, aligned to its size. -/
theorem exists_of_isValidRange {base mask : Word} (h : isValidRange base mask = true) :
    ∃ n, mask.toNat + 1 = 2 ^ n ∧ base.toNat % 2 ^ n = 0 := by
  rw [isValidRange, Bool.and_eq_true, isAlignedToMask, beq_iff_eq, isValidRangeMask, beq_iff_eq] at h
  obtain ⟨haligned, hmask⟩ := h
  obtain ⟨n, hn⟩ : ∃ n, mask.toNat + 1 = 2 ^ n := by
    by_cases hlast : mask.toNat + 1 = 2 ^ 64
    · exact ⟨64, hlast⟩
    · have hlt := mask.isLt
      have e1 : (1 : Word).toNat = 1 := rfl
      have hsucc : (mask + 1).toNat = mask.toNat + 1 := by rw [BitVec.toNat_add, e1, Nat.mod_eq_of_lt (by omega)]
      refine (Nat.and_sub_one_eq_zero_iff_isPowerOfTwo (Nat.succ_ne_zero mask.toNat)).mp ?_
      have hand := congrArg BitVec.toNat hmask
      rw [BitVec.toNat_and, hsucc, Nat.and_comm] at hand
      exact hand
  refine ⟨n, hn, ?_⟩
  have hand := congrArg BitVec.toNat haligned
  rw [BitVec.toNat_and, show mask.toNat = 2 ^ n - 1 by omega, Nat.and_two_pow_sub_one_eq_mod] at hand
  exact hand

/-- Its last address. -/
theorem toNat_or_of_isValidRange {base mask : Word} (h : isValidRange base mask = true) :
    (base ||| mask).toNat = base.toNat + mask.toNat := by
  obtain ⟨n, hn, haligned⟩ := exists_of_isValidRange h
  obtain ⟨q, hq⟩ := Nat.dvd_of_mod_eq_zero haligned
  rw [BitVec.toNat_or, hq, Nat.two_pow_add_eq_or_of_lt (by omega)]

theorem toNat_sll {a n : Word} (hn : n.toNat < 64) : (sll a n).toNat = a.toNat * 2 ^ n.toNat % 2 ^ 64 := by
  rw [sll, Nat.mod_eq_of_lt hn, BitVec.toNat_shiftLeft, Nat.shiftLeft_eq]

theorem toNat_srl {a n : Word} (hn : n.toNat < 64) : (srl a n).toNat = a.toNat / 2 ^ n.toNat := by
  rw [srl, Nat.mod_eq_of_lt hn, BitVec.toNat_ushiftRight, Nat.shiftRight_eq_div_pow]

/-- `1 << n` is `2 ^ n` as long as the `int` does not overflow. -/
theorem toNat_oneShl {n : Word} (hn : n.toNat < 31) : (oneShl n).toNat = 2 ^ n.toNat := by
  have h : ∀ k, k < 31 → (((1 : BitVec 32) <<< k).signExtend 64).toNat = 2 ^ k := by decide
  rw [oneShl, Nat.mod_eq_of_lt (by omega), h _ hn]

theorem toNat_pagesNeededFor {n : Word} (h : n.toNat + 4095 < 2 ^ 64) :
    (pagesNeededFor n).toNat = (n.toNat + 4095) / 4096 := by
  have e : n + pageSize - 1 = n + 4095 := by rw [pageSize_eq, BitVec.sub_eq_add_neg, BitVec.add_assoc]; rfl
  have e1 : (4095 : Word).toNat = 4095 := rfl
  rw [pagesNeededFor, toNat_srl (by decide), e, BitVec.toNat_add, e1, Nat.mod_eq_of_lt h]
  rfl

/-- The bits of `1 << n`. From bit 31 on, the sign is extended. -/
theorem getLsbD_oneShl (n : Word) {k : ℕ} (hk : k < 64) :
    (oneShl n).getLsbD k = decide (k = n.toNat % 32 ∨ n.toNat % 32 = 31 ∧ 31 ≤ k) := by
  have hn : n.toNat % 32 < 32 := Nat.mod_lt _ (by omega)
  have h : ∀ a < 32, ∀ j, (((1 : BitVec 32) <<< a).getLsbD j) = decide (j < 32 ∧ j = a) := by
    intro a ha j
    simp only [BitVec.ofNat_eq_ofNat, BitVec.getLsbD_shiftLeft, BitVec.getLsbD_one, ← Bool.decide_and,
      ← decide_not, decide_eq_decide]
    omega
  rw [oneShl, BitVec.getLsbD_signExtend, BitVec.msb_eq_getLsbD_last, h _ hn, h _ hn]
  split <;> simp only [hk, decide_true, Bool.true_and, decide_eq_decide] <;> omega

@[simp] theorem getLsbD_maskedWord_true (w mask : Word) (k : ℕ) :
    (maskedWord w mask true).getLsbD k = (w.getLsbD k || mask.getLsbD k) := by
  simp [maskedWord]

theorem getLsbD_maskedWord_false (w mask : Word) {k : ℕ} (hk : k < 64) :
    (maskedWord w mask false).getLsbD k = (w.getLsbD k && !mask.getLsbD k) := by
  simp [maskedWord, hk]

/-- Clearing a bit of any bitmap, wherever it is, makes no byte larger. -/
theorem Memory.shrinks_setBit_false (m : Memory) (bitmap bit : Word) :
    m.Shrinks (m.setBit bitmap bit false) :=
  Memory.shrinks_store64_and _ _ _

end Sanctum
