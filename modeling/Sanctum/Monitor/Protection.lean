import Sanctum.Monitor.BootDramRegions

/-!
# The protected range

`boot_init_protection` rounds the monitor's top up to a power of two, so that one base and one
mask protect all that the monitor has in memory. `address_bits_for` counts the bits right;
`ceil_power_of_two` then shifts an `int` by as many places, and gets a power of two only as long as
the top is at most `2 ^ 30`. For a top of more than `2 ^ 31` the range does not cover the monitor.

## What is proved

* `addressBitsFor_le_iff` — `address_bits_for` is the least exponent.
* `roundsUp_iff` — all is as expected exactly for a top of at most `2 ^ 30`.
* `covers_iff` — the protected range covers the monitor exactly for a top of at most `2 ^ 31`.
-/

namespace Sanctum

namespace Protection

variable {x : Word}

/-! ### What is expected -/

/-- `address_bits_for(x)` is the least exponent of a power of two that is at least `x`. -/
structure LeastBits (x : Word) : Prop where
  /-- The power is at least `x`. -/
  le : x.toNat ≤ 2 ^ (addressBitsFor x).toNat
  /-- No smaller one is. -/
  least : ∀ b, x.toNat ≤ 2 ^ b → (addressBitsFor x).toNat ≤ b

/-- `ceil_power_of_two(x)` is the least power of two that is at least `x`. -/
structure LeastPower (x : Word) : Prop where
  /-- It is a power of two. -/
  power : ∃ b, (ceilPowerOfTwo x).toNat = 2 ^ b
  /-- It is at least `x`. -/
  le : x.toNat ≤ (ceilPowerOfTwo x).toNat
  /-- No smaller one is. -/
  least : ∀ b, x.toNat ≤ 2 ^ b → (ceilPowerOfTwo x).toNat ≤ 2 ^ b

/-- When `boot_init_protection` has returned with the top `x` rounded up to `top`, the registers say that
the protected range is `{ a | a & ~(top - 1) = 0 }`, and all addresses below `x` are in it. -/
def Covers (x : Word) : Prop :=
  ∀ g s top s', (bootInitProtection g x).run (exec .code) s = some (top, s') →
    s'.csr .parBase = 0 ∧ s'.csr .parMask = ~~~(top - 1) ∧ ∀ a < x, a &&& ~~~(top - 1) = 0

/-- Rounding up the monitor's top covers the monitor. -/
structure RoundsUp (x : Word) : Prop where
  /-- The bits are counted right. -/
  bits : LeastBits x
  /-- The power of two is right. -/
  power : LeastPower x
  /-- The protected range is large enough. -/
  covers : Covers x

/-! ### Counting bits -/

/-- **`address_bits_for`** is the least exponent. -/
theorem addressBitsFor_le_iff (hx : 1 ≤ x.toNat) (b : ℕ) : (addressBitsFor x).toNat ≤ b ↔ x.toNat ≤ 2 ^ b := by
  have h1 : (1 : Word).toNat = 1 := rfl
  have hpred : (x - 1).toNat = x.toNat - 1 := by
    rw [BitVec.toNat_sub_of_le (BitVec.le_def.mpr (by rw [h1]; exact hx)), h1]
  rw [toNat_addressBitsFor, hpred, Nat.size_le]
  omega

theorem leastBits (hx : 1 ≤ x.toNat) : LeastBits x :=
  ⟨(addressBitsFor_le_iff hx _).mp le_rfl, fun b hb => (addressBitsFor_le_iff hx b).mpr hb⟩

/-- The least power of two is the one with this exponent. -/
theorem LeastPower.toNat_eq (hx : 1 ≤ x.toNat) (h : LeastPower x) :
    (ceilPowerOfTwo x).toNat = 2 ^ (addressBitsFor x).toNat := by
  obtain ⟨b, hb⟩ := h.power
  apply le_antisymm
  · exact h.least _ (leastBits hx).le
  · rw [hb]
    exact Nat.pow_le_pow_right (by omega) ((leastBits hx).least b (hb ▸ h.le))

/-- Shifting an `int` by 31 places gives the sign bit, extended to 64 bits. -/
theorem oneShl_of_sign {n : Word} (hn : n.toNat % 32 = 31) : oneShl n = 0xFFFFFFFF80000000 := by
  rw [oneShl, hn]
  decide

/-- **`ceil_power_of_two`** is right exactly up to `2 ^ 30`. -/
theorem leastPower_iff (hx : 1 ≤ x.toNat) : LeastPower x ↔ x.toNat ≤ 2 ^ 30 := by
  rw [← addressBitsFor_le_iff hx]
  constructor
  · intro h
    have heq := h.toNat_eq hx
    by_contra hbits
    by_cases hsign : (addressBitsFor x).toNat % 32 = 31
    · rw [ceilPowerOfTwo, oneShl_of_sign hsign] at heq
      -- between `2 ^ 63` and `2 ^ 64` there is no power of two
      have h63 : (2 : ℕ) ^ 63 < 2 ^ (addressBitsFor x).toNat := by rw [← heq]; decide
      have h64 : (2 : ℕ) ^ (addressBitsFor x).toNat < 2 ^ 64 := by rw [← heq]; decide
      have hlow := (Nat.pow_lt_pow_iff_right (by omega)).mp h63
      have hhigh := (Nat.pow_lt_pow_iff_right (by omega)).mp h64
      omega
    · rw [ceilPowerOfTwo, toNat_oneShl_mod hsign] at heq
      have hexp := Nat.pow_right_injective le_rfl heq
      omega
  · intro hbits
    have heq : (ceilPowerOfTwo x).toNat = 2 ^ (addressBitsFor x).toNat := toNat_oneShl (by omega)
    refine ⟨⟨_, heq⟩, heq ▸ (leastBits hx).le, fun b hb => ?_⟩
    rw [heq]
    exact Nat.pow_le_pow_right (by omega) ((leastBits hx).least b hb)

/-! ### The registers -/

/-- An address is in the range of a power of two exactly if it is below it. -/
theorem and_not_sub_one_iff {top a : Word} {k : ℕ} (htop : top.toNat = 2 ^ k) :
    a &&& ~~~(top - 1) = 0 ↔ a.toNat < 2 ^ k := by
  have h1 : (1 : Word).toNat = 1 := rfl
  have hpos : 0 < 2 ^ k := Nat.two_pow_pos k
  have hpred : (top - 1).toNat = 2 ^ k - 1 := by
    rw [BitVec.toNat_sub_of_le (BitVec.le_def.mpr (by rw [h1, htop]; exact hpos)), h1, htop]
  have hsplit : a &&& ~~~(top - 1) ||| a &&& (top - 1) = a := by
    rw [← BitVec.and_or_distrib_left, BitVec.or_comm, BitVec.or_not_self]
    exact BitVec.and_allOnes
  have hlow : (a &&& (top - 1)).toNat = a.toNat % 2 ^ k := by
    rw [BitVec.toNat_and, hpred, Nat.and_two_pow_sub_one_eq_mod]
  constructor
  · intro h
    rw [h, show (0 : Word) ||| a &&& (top - 1) = a &&& (top - 1) from BitVec.zero_or] at hsplit
    rw [← hsplit, hlow]
    exact Nat.mod_lt _ hpos
  · intro h
    have hand : a &&& (top - 1) = a := BitVec.eq_of_toNat_eq (by rw [hlow, Nat.mod_eq_of_lt h])
    rw [← hand, BitVec.and_assoc, BitVec.and_not_self]
    exact BitVec.and_zero

/-- What `boot_init_protection` leaves in the registers, and that it returns if the top is not above
the size of a stripe. -/
theorem run_bootInitProtection (g : Globals) (s : Machine) (x : Word) :
    (bootInitProtection g x).run (exec .code) s =
      if ceilPowerOfTwo x > g.dramStripeSize then none
      else some (ceilPowerOfTwo x, { s with
        csr := Function.update (Function.update (Function.update s.csr .parBase 0) .parMask
          (~~~(ceilPowerOfTwo x - 1)))
          .drbMap (s.mem.load64 g.osRegionBitmap)
        dmaRangeStart := ceilPowerOfTwo x
        dmaRangeEnd := ceilPowerOfTwo x + 1 }) := by
  rw [bootInitProtection]
  dsimp only
  simp only [Prog.run_bind, run_writeCsr, Option.bind_some, run_setDrbMap, Prog.run_ite, run_spin, Prog.run_pure,
    run_writeDmaRange]
  split <;> rfl

theorem covers_iff_range : Covers x ↔ ∀ a < x, a &&& ~~~(ceilPowerOfTwo x - 1) = 0 := by
  constructor
  · intro h
    -- a stripe that is large enough for any monitor
    let g : Globals := { twoRegions.globals with dramStripeSize := BitVec.allOnes 64 }
    have hrun := run_bootInitProtection g blankMachine x
    rw [if_neg (BitVec.not_lt.mpr (BitVec.le_def.mpr (Nat.le_pred_of_lt (ceilPowerOfTwo x).isLt)))] at hrun
    exact (h g _ _ _ hrun).2.2
  · intro h g s top s' hrun
    rw [run_bootInitProtection] at hrun
    split at hrun
    · cases hrun
    · obtain ⟨rfl, rfl⟩ := Prod.mk.inj (Option.some.inj hrun)
      exact ⟨rfl, rfl, h⟩

/-- **When the protected range covers the monitor**: exactly up to a top of `2 ^ 31`. -/
theorem covers_iff (hx : 1 ≤ x.toNat) : Covers x ↔ x.toNat ≤ 2 ^ 31 := by
  have hleast := leastBits hx
  rw [covers_iff_range]
  by_cases hsign : (addressBitsFor x).toNat % 32 = 31
  · -- the range is that of the addresses without bit 31
    have htop : ceilPowerOfTwo x = 0xFFFFFFFF80000000 := oneShl_of_sign hsign
    have hmask : ~~~(ceilPowerOfTwo x - 1) = 0x80000000 := by rw [htop]; decide
    rw [hmask]
    constructor
    · intro h
      by_contra hlt
      exact absurd (h 0x80000000 (BitVec.lt_def.mpr (not_le.mp hlt))) (by decide)
    · intro hle a ha
      have hlt : a.toNat < 2 ^ 31 := lt_of_lt_of_le (BitVec.lt_def.mp ha) hle
      apply BitVec.eq_of_toNat_eq
      rw [BitVec.toNat_and, show (0x80000000 : Word).toNat = 2 ^ 31 by decide, Nat.and_two_pow,
        Nat.testBit_lt_two_pow hlt]
      rfl
  · have hpow : (ceilPowerOfTwo x).toNat = 2 ^ ((addressBitsFor x).toNat % 32) := toNat_oneShl_mod hsign
    simp only [and_not_sub_one_iff hpow]
    constructor
    · intro h
      have h1 : (1 : Word).toNat = 1 := rfl
      have hpred : (x - 1).toNat = x.toNat - 1 := by
        rw [BitVec.toNat_sub_of_le (BitVec.le_def.mpr (by rw [h1]; exact hx)), h1]
      have hlast := h (x - 1) (BitVec.lt_def.mpr (by rw [hpred]; omega))
      rw [hpred] at hlast
      have hbits := hleast.least _ (show x.toNat ≤ 2 ^ ((addressBitsFor x).toNat % 32) by omega)
      exact (addressBitsFor_le_iff hx 31).mp (by omega)
    · intro hle a ha
      have hbits := (addressBitsFor_le_iff hx 31).mpr hle
      rw [show (addressBitsFor x).toNat % 32 = (addressBitsFor x).toNat by omega]
      exact lt_of_lt_of_le (BitVec.lt_def.mp ha) hleast.le

/-- **When rounding up covers the monitor** as it is expected to. -/
theorem roundsUp_iff (x : Word) (hx : 1 ≤ x.toNat) : RoundsUp x ↔ x.toNat ≤ 2 ^ 30 := by
  constructor
  · exact fun h => (leastPower_iff hx).mp h.power
  · intro h
    exact ⟨leastBits hx, (leastPower_iff hx).mpr h, (covers_iff hx).mpr (by omega)⟩

/-- A monitor of one megabyte. -/
theorem roundsUp_iff_megabyte : RoundsUp 0x100000 ↔ (0x100000 : Word).toNat ≤ 2 ^ 30 :=
  roundsUp_iff 0x100000 (by decide)

/-- A monitor of four gigabytes is rounded up to one byte, and its second byte is not protected. -/
theorem not_roundsUp : ceilPowerOfTwo 0x100000000 = 1 ∧ ¬ RoundsUp 0x100000000 := by
  have hceil : ceilPowerOfTwo 0x100000000 = 1 := by decide +kernel
  refine ⟨hceil, fun h => ?_⟩
  have hrange := covers_iff_range.mp h.covers 1 (by decide)
  rw [hceil] at hrange
  exact absurd hrange (by decide)

end Protection

end Sanctum
