import Mathlib.Data.Nat.Size
import Sanctum.Arch.PageTables
import Sanctum.Monitor.DramClassification

/-!
# The geometry that is computed at boot

What `boot_init_dram_regions` computes, for any platform on which it does not panic.

Nothing stops it from computing with a number of bits that is negative, and so taken for a large
one, nor from shifting the `int` 1 by 31 bits or more. The constants are then not what
`dram_regions.h` says of them. Nor are they if the size of DRAM is not a power of two and there is more
than one stripe.

## What is proved

* `partitionsBits_iff` — the masks partition the bits of a DRAM address, and every region has a page,
  exactly if five conditions hold of the platform (`Suits`).
* `not_partitionsBits` — three gigabytes of DRAM.
-/

namespace Sanctum

/-! ### The numbers of bits -/

namespace Platform

variable (p : Platform)

/-- The last level of the cache. -/
def llc : Word := p.cacheLevels - 1

/-- `cache_bits`. -/
def cacheBits : Word := addressBitsFor (p.cacheSetCount p.llc) + addressBitsFor (p.cacheLineSize p.llc)

/-- `region_bits`. -/
def regionBits : Word := p.cacheBits - pageShift

/-- `stripe_page_bits`. -/
def stripePageBits : Word :=
  let stripePageBits := addressBitsFor p.dramSize - p.cacheBits
  if stripePageBits > p.maxCacheIndexShift then p.maxCacheIndexShift else stripePageBits

end Platform

/-! ### Bits -/

theorem size_eq_size_half {x : ℕ} (hx : 0 < x) : x.size = (x / 2).size + 1 := by
  apply le_antisymm
  · rw [Nat.size_le, pow_succ]
    have hlt := Nat.lt_size_self (x / 2)
    omega
  · rw [Nat.succ_le_iff, Nat.lt_size]
    rcases hsize : (x / 2).size with _ | k
    · exact hx
    · have hle : 2 ^ k ≤ x / 2 := Nat.lt_size.mp (by omega)
      rw [pow_succ]
      omega

theorem size_two_pow_sub_one (k : ℕ) : (2 ^ k - 1).size = k := by
  have hpos : 0 < 2 ^ k := Nat.two_pow_pos k
  apply le_antisymm
  · rw [Nat.size_le]
    exact Nat.sub_lt hpos Nat.one_pos
  · cases k with
    | zero => exact Nat.zero_le _
    | succ k =>
      rw [Nat.succ_le_iff, Nat.lt_size, pow_succ]
      have hpos : 0 < 2 ^ k := Nat.two_pow_pos k
      omega

/-- The loop counts the bits of what is left. -/
theorem toNat_addressBitsLoop {n : ℕ} {x bits : Word} (hx : x.toNat < 2 ^ n) (hbits : bits.toNat + n < 2 ^ 64) :
    (addressBitsLoop n x bits).toNat = bits.toNat + x.toNat.size := by
  induction n generalizing x bits with
  | zero =>
    have h0 : x.toNat = 0 := by omega
    rw [addressBitsLoop, h0]
    rfl
  | succ n ih =>
    rw [addressBitsLoop]
    have h1 : (1 : Word).toNat = 1 := rfl
    have hhalf : (x >>> 1).toNat = x.toNat / 2 := by rw [BitVec.toNat_ushiftRight, Nat.shiftRight_eq_div_pow, pow_one]
    have hsucc : (bits + 1).toNat = bits.toNat + 1 := by rw [BitVec.toNat_add, h1, Nat.mod_eq_of_lt (by omega)]
    rw [pow_succ] at hx
    split
    · next hpos =>
      have hpos : 0 < x.toNat := hpos
      rw [ih (by omega) (by omega), hhalf, hsucc, size_eq_size_half hpos]
      omega
    · next hzero =>
      have hzero : ¬ 0 < x.toNat := hzero
      rw [Nat.eq_zero_of_not_pos hzero]
      rfl

/-- `address_bits_for` is the number of bits of the last address. -/
theorem toNat_addressBitsFor (n : Word) : (addressBitsFor n).toNat = (n - 1).toNat.size := by
  rw [addressBitsFor, toNat_addressBitsLoop (n - 1).isLt (by decide)]
  exact Nat.zero_add _

/-- `1 << n`, unless it is the sign bit. -/
theorem toNat_oneShl_mod {n : Word} (hn : n.toNat % 32 ≠ 31) : (oneShl n).toNat = 2 ^ (n.toNat % 32) := by
  have h : ∀ k, k < 31 → (((1 : BitVec 32) <<< k).signExtend 64).toNat = 2 ^ k := by decide
  exact h _ (by omega)

/-- A power of two that fits in an `int` is what it is checked for. -/
theorem addressBitsFor_of_eq_oneShl {n : Word} (h : n = oneShl (addressBitsFor n)) :
    (addressBitsFor n).toNat < 31 ∧ n.toNat = 2 ^ (addressBitsFor n).toNat := by
  have hbits := toNat_addressBitsFor n
  by_cases hsign : (addressBitsFor n).toNat % 32 = 31
  · -- the sign bit gives a number of 64 bits
    have hneg : oneShl (addressBitsFor n) = 0xFFFFFFFF80000000 := by rw [oneShl, hsign]; decide
    rw [← h] at hneg
    rw [hneg] at hsign
    exact absurd hsign (by decide +kernel)
  · have hpow := toNat_oneShl_mod hsign
    have hlt : (addressBitsFor n).toNat % 32 < 31 := by omega
    rw [← h] at hpow
    have h1 : (1 : Word).toNat = 1 := rfl
    have hpos : 0 < 2 ^ ((addressBitsFor n).toNat % 32) := Nat.two_pow_pos _
    have hpred : (n - 1).toNat = 2 ^ ((addressBitsFor n).toNat % 32) - 1 := by
      rw [BitVec.toNat_sub_of_le (BitVec.le_def.mpr (by rw [h1, hpow]; exact hpos)), h1, hpow]
    rw [hpred, size_two_pow_sub_one] at hbits
    exact ⟨by omega, by rw [hpow, ← hbits]⟩

/-- The function, check by check. -/
theorem bootInitDramRegions_eq (p : Platform) :
    bootInitDramRegions p =
      if (List.range p.cacheLevels.toNat).any fun i =>
          p.isSharedCache (BitVec.ofNat 64 i) && BitVec.ofNat 64 i != p.llc then none
      else if p.cacheLineSize p.llc ≠ oneShl (addressBitsFor (p.cacheLineSize p.llc)) then none
      else if p.cacheSetCount p.llc ≠ oneShl (addressBitsFor (p.cacheSetCount p.llc)) then none
      else if p.cacheBits ≤ pageShift then none
      else if p.stripePageBits < p.minCacheIndexShift then none
      else some (p.globals p.regionBits p.stripePageBits) := rfl

/-- What has passed the checks has few bits. -/
theorem regionBits_of_passes {p : Platform} {g : DramGlobals} (h : bootInitDramRegions p = some g) :
    0 < p.regionBits.toNat ∧ p.regionBits.toNat ≤ 48 ∧
      g = p.globals p.regionBits p.stripePageBits := by
  rw [bootInitDramRegions_eq] at h
  split at h
  · cases h
  split at h
  · cases h
  next hline =>
  split at h
  · cases h
  next hsets =>
  split at h
  · cases h
  next hcache =>
  split at h
  · cases h
  have hline := (addressBitsFor_of_eq_oneShl (not_not.mp hline)).1
  have hsets := (addressBitsFor_of_eq_oneShl (not_not.mp hsets)).1
  have h12 : pageShift.toNat = 12 := rfl
  have hsum : p.cacheBits.toNat =
      (addressBitsFor (p.cacheSetCount p.llc)).toNat + (addressBitsFor (p.cacheLineSize p.llc)).toNat := by
    rw [Platform.cacheBits, BitVec.toNat_add, Nat.mod_eq_of_lt (by omega)]
  have hregion : p.regionBits.toNat = p.cacheBits.toNat - 12 := by
    rw [Platform.regionBits, BitVec.toNat_sub_of_le (BitVec.le_of_lt (BitVec.not_le.mp hcache)), h12]
  rw [BitVec.not_le, BitVec.lt_def, h12] at hcache
  exact ⟨by omega, by omega, (Option.some.inj h).symm⟩

/-- One megabyte of DRAM, and a cache of 128 sets of 64 bytes. -/
def twoRegionsPlatform : Platform where
  dramBase := 0
  dramSize := 0x100000
  cacheLevels := 1
  isSharedCache := fun _ => true
  cacheLineSize := fun _ => 64
  cacheSetCount := fun _ => 128
  maxCacheIndexShift := 8
  minCacheIndexShift := 0

theorem bootInitDramRegions_twoRegionsPlatform :
    bootInitDramRegions twoRegionsPlatform = some twoRegions.toGeometry.globals := by
  decide

/-! ### What is expected of the constants -/

/-- `dram_region_for`. -/
def DramGlobals.regionIndex (g : DramGlobals) (a : Word) : Word := srl (a &&& g.dramRegionMask) g.dramRegionShift

/-- The constants break a DRAM address down into its parts, as `dram_regions.h` says. -/
structure PartitionsBits (g : DramGlobals) : Prop where
  /-- The parts have no bit in common. -/
  disjoint : [pageSize - 1, g.dramStripePageMask, g.dramRegionMask, g.dramStripeMask].Pairwise fun x y => x &&& y = 0
  /-- Together they are the bits of a DRAM address. -/
  cover : (pageSize - 1 ||| g.dramStripePageMask ||| g.dramRegionMask ||| g.dramStripeMask).toNat =
    2 ^ (addressBitsFor g.dramSize).toNat - 1
  /-- The mask has an index for each region. -/
  regionCount : g.dramRegionCount = 1 + srl g.dramRegionMask g.dramRegionShift
  /-- A stripe consists of pages. -/
  stripeSize : g.dramStripeSize = g.dramStripePages * pageSize
  /-- Every region has a page of installed DRAM. -/
  pages : ∀ r < g.dramRegionCount, ∃ p : Word, isPageAligned p = true ∧ g.dramBase.toNat ≤ p.toNat ∧
    p.toNat + pageSize.toNat ≤ g.dramBase.toNat + g.dramSize.toNat ∧ g.regionIndex p = r

/-- The first page of DRAM, of those that are all in it. -/
def Platform.firstPage (p : Platform) : ℕ := (p.dramBase.toNat + 4095) / 4096

/-- The page after the last. -/
def Platform.endPage (p : Platform) : ℕ := min (p.dramBase.toNat + p.dramSize.toNat) (2 ^ 64) / 4096

/-- When this is so. Shifts of an `int` are modulo 32, and shifts of a word modulo 64. -/
structure Platform.Suits (p : Platform) : Prop where
  /-- The number of regions is not the sign bit. -/
  regions : p.regionBits.toNat ≠ 31
  /-- The size of a stripe is a power of two of an `int`. -/
  stripe : p.stripePageBits.toNat % 32 ≤ 18
  /-- Regions begin where stripes end, or there is only one. -/
  shift : p.stripePageBits.toNat % 64 < 32 ∨ p.regionBits.toNat % 32 = 0
  /-- DRAM has a page. -/
  hasPage : p.firstPage < p.endPage
  /-- Its pages are in as many stripes as there are regions, or more. -/
  hasStripes : p.firstPage / 2 ^ (p.stripePageBits.toNat % 32) + 2 ^ (p.regionBits.toNat % 32) ≤
    (p.endPage - 1) / 2 ^ (p.stripePageBits.toNat % 32) + 1
  /-- The last address of DRAM, if it began at 0, has all the bits that no other part has. -/
  stripes : (p.dramSize - 1).toNat / 2 ^ ((12 + p.stripePageBits.toNat + p.regionBits.toNat) % 64) *
      2 ^ ((12 + p.stripePageBits.toNat + p.regionBits.toNat) % 64) +
      2 ^ (12 + p.stripePageBits.toNat % 32 + p.regionBits.toNat % 32) =
    2 ^ (addressBitsFor p.dramSize).toNat

/-! ### The masks as numbers -/

section Masks

variable {dramSize spb rb : Word}

theorem toNat_sll_mod (a n : Word) : (sll a n).toNat = a.toNat * 2 ^ (n.toNat % 64) % 2 ^ 64 := by
  rw [sll, BitVec.toNat_shiftLeft, Nat.shiftLeft_eq]

theorem toNat_srl_mod (a n : Word) : (srl a n).toNat = a.toNat / 2 ^ (n.toNat % 64) := by
  rw [srl, BitVec.toNat_ushiftRight, Nat.shiftRight_eq_div_pow]

theorem toNat_regionShift_mod (spb : Word) : (pageShift + spb).toNat % 64 = (12 + spb.toNat) % 64 := by
  have h12 : pageShift.toNat = 12 := rfl
  rw [BitVec.toNat_add, h12]
  omega

theorem toNat_stripeShift_mod (spb rb : Word) :
    (pageShift + spb + rb).toNat % 64 = (12 + spb.toNat + rb.toNat) % 64 := by
  have h12 : pageShift.toNat = 12 := rfl
  rw [BitVec.toNat_add, BitVec.toNat_add, h12]
  omega

/-- The mask of the page in a stripe. -/
theorem toNat_stripePageMask_mod {n : Word} (hn : n.toNat % 32 ≤ 18) :
    (stripePageMask n).toNat = (2 ^ (n.toNat % 32) - 1) * 2 ^ 12 := by
  have h : ∀ k < 19, ((((1 : BitVec 32) <<< k - 1) <<< 12).signExtend 64).toNat = (2 ^ k - 1) * 2 ^ 12 := by decide
  exact h _ (by omega)

/-- Stripes are as long as their pages as long as no shift of an `int` wraps around. -/
theorem stripeSize_iff (n : Word) : oneShl (pageShift + n) = oneShl n * pageSize ↔ n.toNat % 32 ≤ 18 := by
  have h : ∀ k < 32, ((1 : BitVec 32) <<< ((12 + k) % 32)).signExtend 64 =
      ((1 : BitVec 32) <<< k).signExtend 64 * pageSize ↔ k ≤ 18 := by decide
  have h12 : pageShift.toNat = 12 := rfl
  have hmod : (pageShift + n).toNat % 32 = (12 + n.toNat % 32) % 32 := by
    rw [BitVec.toNat_add, h12]
    omega
  rw [oneShl, oneShl, hmod]
  exact h _ (Nat.mod_lt _ (by omega))

/-- The mask of the region. -/
theorem toNat_regionMask (hrb : rb.toNat % 32 ≠ 31) :
    (sll (oneShl rb - 1) (pageShift + spb)).toNat = (2 ^ (rb.toNat % 32) - 1) * 2 ^ ((12 + spb.toNat) % 64) % 2 ^ 64 := by
  have h1 : (1 : Word).toNat = 1 := rfl
  have hcount := toNat_oneShl_mod hrb
  have hle : (1 : Word) ≤ oneShl rb := by
    rw [BitVec.le_def, h1, hcount]
    exact Nat.two_pow_pos _
  rw [toNat_sll_mod, toNat_regionShift_mod, BitVec.toNat_sub_of_le hle, h1, hcount]

/-- A number below a power of two, and a multiple of this power. -/
theorem and_eq_zero_of_low {x y : Word} {k : ℕ} (hx : x.toNat < 2 ^ k) (hy : y.toNat % 2 ^ k = 0) : x &&& y = 0 := by
  apply BitVec.eq_of_toNat_eq
  obtain ⟨c, hc⟩ := Nat.dvd_of_mod_eq_zero hy
  rw [BitVec.toNat_and, hc]
  apply Nat.eq_of_testBit_eq
  intro i
  rw [Nat.testBit_and, Nat.testBit_two_pow_mul]
  by_cases hi : k ≤ i
  · rw [Nat.testBit_lt_two_pow (hx.trans_le (Nat.pow_le_pow_right (by omega) hi))]
    exact (Nat.zero_testBit i).symm
  · simp only [ge_iff_le, hi, decide_false, Bool.false_and, Bool.and_false]
    exact (Nat.zero_testBit i).symm

/-- What is above a number of low bits, and the rest of the bits of an address. -/
theorem above_iff {x y : Word} {k n : ℕ} (hx : x.toNat = 2 ^ k - 1) :
    x &&& y = 0 ∧ (x ||| y).toNat = 2 ^ n - 1 ↔ y.toNat + 2 ^ k = 2 ^ n := by
  have hk : 0 < 2 ^ k := Nat.two_pow_pos k
  have hn : 0 < 2 ^ n := Nat.two_pow_pos n
  constructor
  · rintro ⟨hdisjoint, hor⟩
    rw [← BitVec.add_eq_or_of_and_eq_zero _ _ hdisjoint, BitVec.toNat_add_of_and_eq_zero hdisjoint, hx] at hor
    omega
  · intro h
    have hle : k ≤ n := (Nat.pow_le_pow_iff_right (by omega)).mp (Nat.le_of_add_left_le h.le)
    have hmod : y.toNat % 2 ^ k = 0 := by
      have hsum : (y.toNat + 2 ^ k) % 2 ^ k = 0 := by
        rw [h]
        exact Nat.mod_eq_zero_of_dvd (pow_dvd_pow 2 hle)
      rwa [Nat.add_mod_right] at hsum
    have hdisjoint : x &&& y = 0 := and_eq_zero_of_low (k := k) (by omega) hmod
    refine ⟨hdisjoint, ?_⟩
    rw [← BitVec.add_eq_or_of_and_eq_zero _ _ hdisjoint, BitVec.toNat_add_of_and_eq_zero hdisjoint, hx]
    omega

/-- The page offset and the index of a page are the low bits. -/
theorem toNat_pages (hspb : spb.toNat % 32 ≤ 18) :
    pageSize - 1 &&& stripePageMask spb = 0 ∧
      (pageSize - 1 ||| stripePageMask spb).toNat = 2 ^ (12 + spb.toNat % 32) - 1 := by
  have hmask := toNat_stripePageMask_mod hspb
  have hpage : (pageSize - 1).toNat = 2 ^ 12 - 1 := by decide
  have hpos : 0 < 2 ^ (spb.toNat % 32) := Nat.two_pow_pos _
  refine (above_iff hpage).mpr ?_
  rw [hmask, pow_add, Nat.sub_mul, Nat.one_mul, Nat.mul_comm]
  have hle : 2 ^ 12 * 1 ≤ 2 ^ 12 * 2 ^ (spb.toNat % 32) := Nat.mul_le_mul_left _ hpos
  omega

/-- The region index is right above, or has no bits. -/
theorem toNat_region (hspb : spb.toNat % 32 ≤ 18) (hrb : rb.toNat % 32 ≠ 31)
    (hshift : spb.toNat % 64 < 32 ∨ rb.toNat % 32 = 0) :
    (sll (oneShl rb - 1) (pageShift + spb)).toNat = (2 ^ (rb.toNat % 32) - 1) * 2 ^ (12 + spb.toNat % 32) := by
  rw [toNat_regionMask hrb]
  rcases hshift with hshift | hone
  · have hs : (12 + spb.toNat) % 64 = 12 + spb.toNat % 32 := by omega
    rw [hs]
    refine Nat.mod_eq_of_lt ?_
    calc (2 ^ (rb.toNat % 32) - 1) * 2 ^ (12 + spb.toNat % 32)
        < 2 ^ (rb.toNat % 32) * 2 ^ (12 + spb.toNat % 32) :=
          Nat.mul_lt_mul_of_pos_right (Nat.sub_lt (Nat.two_pow_pos _) Nat.one_pos) (Nat.two_pow_pos _)
      _ = 2 ^ (rb.toNat % 32 + (12 + spb.toNat % 32)) := (pow_add 2 _ _).symm
      _ ≤ 2 ^ 64 := Nat.pow_le_pow_right (by omega) (by omega)
  · rw [hone]
    simp

theorem toNat_parts (hspb : spb.toNat % 32 ≤ 18) (hrb : rb.toNat % 32 ≠ 31)
    (hshift : spb.toNat % 64 < 32 ∨ rb.toNat % 32 = 0) :
    (pageSize - 1 ||| stripePageMask spb) &&& sll (oneShl rb - 1) (pageShift + spb) = 0 ∧
      (pageSize - 1 ||| stripePageMask spb ||| sll (oneShl rb - 1) (pageShift + spb)).toNat =
        2 ^ (12 + spb.toNat % 32 + rb.toNat % 32) - 1 := by
  have hmask := toNat_region hspb hrb hshift
  have hpos : 0 < 2 ^ (rb.toNat % 32) := Nat.two_pow_pos _
  refine (above_iff (toNat_pages hspb).2).mpr ?_
  rw [hmask, pow_add 2 (12 + _), Nat.sub_mul, Nat.one_mul, Nat.mul_comm]
  have hmul : 2 ^ (12 + spb.toNat % 32) * 1 ≤ 2 ^ (12 + spb.toNat % 32) * 2 ^ (rb.toNat % 32) :=
    Nat.mul_le_mul_left _ hpos
  omega

theorem pairwise_four_iff {R : Word → Word → Prop} {a b c d : Word} :
    [a, b, c, d].Pairwise R ↔ R a b ∧ R a c ∧ R a d ∧ R b c ∧ R b d ∧ R c d := by
  simp [List.pairwise_cons, and_assoc]

/-- What is left is the index of the stripe. -/
theorem masks_iff {mask : Word} {n : ℕ} (hspb : spb.toNat % 32 ≤ 18) (hrb : rb.toNat % 32 ≠ 31)
    (hshift : spb.toNat % 64 < 32 ∨ rb.toNat % 32 = 0) :
    [pageSize - 1, stripePageMask spb, sll (oneShl rb - 1) (pageShift + spb), mask].Pairwise (fun x y => x &&& y = 0) ∧
        (pageSize - 1 ||| stripePageMask spb ||| sll (oneShl rb - 1) (pageShift + spb) ||| mask).toNat = 2 ^ n - 1 ↔
      mask.toNat + 2 ^ (12 + spb.toNat % 32 + rb.toNat % 32) = 2 ^ n := by
  have hpages := (toNat_pages hspb).1
  obtain ⟨hregion, hparts⟩ := toNat_parts hspb hrb hshift
  have hor (x y : Word) : x ||| y = 0 ↔ x = 0 ∧ y = 0 := BitVec.or_eq_zero_iff
  rw [BitVec.and_or_distrib_right, hor] at hregion
  rw [← above_iff hparts, BitVec.and_or_distrib_right, BitVec.and_or_distrib_right, hor, hor, pairwise_four_iff]
  constructor
  · rintro ⟨⟨-, -, hpage, -, hstripe, hindex⟩, hcover⟩
    exact ⟨⟨⟨hpage, hstripe⟩, hindex⟩, hcover⟩
  · rintro ⟨⟨⟨hpage, hstripe⟩, hindex⟩, hcover⟩
    exact ⟨⟨hpages, hregion.1, hpage, hregion.2, hstripe, hindex⟩, hcover⟩

/-- The bits of the stripe mask. -/
theorem getLsbD_stripeMask (x n : Word) {i : ℕ} (hi : i < 64) :
    (sll (srl x n) n).getLsbD i = (decide (n.toNat % 64 ≤ i) && x.getLsbD i) := by
  rw [sll, srl, BitVec.getLsbD_shiftLeft, BitVec.getLsbD_ushiftRight]
  by_cases h : n.toNat % 64 ≤ i
  · rw [decide_eq_true hi, decide_eq_true h, decide_eq_false (not_lt.mpr h), Nat.add_sub_cancel' h]
    rfl
  · rw [decide_eq_false h, decide_eq_true (not_le.mp h)]
    simp

/-- The bits of the page offset and the stripe page index. -/
theorem getLsbD_pages (hspb : spb.toNat % 32 ≤ 18) (i : ℕ) :
    (pageSize - 1 ||| stripePageMask spb).getLsbD i = decide (i < 12 + spb.toNat % 32) := by
  rw [BitVec.getLsbD, (toNat_pages hspb).2, Nat.testBit_two_pow_sub_one]

/-- The bits of the region mask where the shift is by 32 or more. -/
theorem getLsbD_regionMask (hspb : spb.toNat % 32 ≤ 18) (hrb : rb.toNat % 32 ≠ 31) (hfar : 32 ≤ spb.toNat % 64) {i : ℕ}
    (hi : i < 64) : (sll (oneShl rb - 1) (pageShift + spb)).getLsbD i =
      (decide (44 + spb.toNat % 32 ≤ i) && decide (i - (44 + spb.toNat % 32) < rb.toNat % 32)) := by
  have hs : (12 + spb.toNat) % 64 = 44 + spb.toNat % 32 := by omega
  rw [BitVec.getLsbD, toNat_regionMask hrb, hs, Nat.testBit_mod_two_pow, Nat.testBit_mul_two_pow,
    Nat.testBit_two_pow_sub_one, decide_eq_true hi, Bool.true_and]

/-- The bits of the stripe mask there. -/
theorem getLsbD_farStripeMask (dramSize rb : Word) (hfar : 32 ≤ spb.toNat % 64) {i : ℕ} (hi : i < 64) :
    (sll (srl (dramSize - 1) (pageShift + spb + rb)) (pageShift + spb + rb)).getLsbD i =
      (decide ((44 + spb.toNat % 32 + rb.toNat) % 64 ≤ i) && (dramSize - 1).getLsbD i) := by
  have hs : (12 + spb.toNat + rb.toNat) % 64 = (44 + spb.toNat % 32 + rb.toNat) % 64 := by omega
  rw [getLsbD_stripeMask _ _ hi, toNat_stripeShift_mod, hs]

/-- Where the bits of an address are covered and a region mask that is not empty begins 32 bits too
far up, there is a bit that two masks have. -/
theorem shift_of_cover (hspb : spb.toNat % 32 ≤ 18) (hrb : rb.toNat % 32 ≠ 31)
    (hcover : (pageSize - 1 ||| stripePageMask spb ||| sll (oneShl rb - 1) (pageShift + spb) |||
        sll (srl (dramSize - 1) (pageShift + spb + rb)) (pageShift + spb + rb)).toNat =
      2 ^ (addressBitsFor dramSize).toNat - 1)
    (hdisjoint : sll (oneShl rb - 1) (pageShift + spb) &&&
      sll (srl (dramSize - 1) (pageShift + spb + rb)) (pageShift + spb + rb) = 0) :
    spb.toNat % 64 < 32 ∨ rb.toNat % 32 = 0 := by
  by_contra hnot
  rw [not_or, not_lt] at hnot
  obtain ⟨hfar, hregions⟩ := hnot
  have hlow (i : ℕ) := getLsbD_pages hspb i
  have hregion {i : ℕ} (hi : i < 64) := getLsbD_regionMask hspb hrb hfar hi
  have hstripe {i : ℕ} (hi : i < 64) := getLsbD_farStripeMask dramSize rb hfar hi
  have hbit (i : ℕ) : (pageSize - 1 ||| stripePageMask spb ||| sll (oneShl rb - 1) (pageShift + spb) |||
      sll (srl (dramSize - 1) (pageShift + spb + rb)) (pageShift + spb + rb)).getLsbD i =
        decide (i < (addressBitsFor dramSize).toNat) := by
    rw [BitVec.getLsbD, hcover, Nat.testBit_two_pow_sub_one]
  generalize spb.toNat % 32 = j at *
  have hN : (addressBitsFor dramSize).toNat = (dramSize - 1).toNat.size := toNat_addressBitsFor dramSize
  generalize (addressBitsFor dramSize).toNat = n at *
  -- the lowest bit of the region mask is covered, so those below are, and they are the stripe mask's
  have hlowest : 44 + j < n := by
    have h := hbit (44 + j)
    rw [BitVec.getLsbD_or, BitVec.getLsbD_or, hregion (by omega), Nat.sub_self, decide_eq_true le_rfl,
      decide_eq_true (Nat.pos_of_ne_zero hregions)] at h
    simpa using h.symm
  have hbelow {i : ℕ} (hi : i < 44 + j) (hi' : 12 + j ≤ i) : (44 + j + rb.toNat) % 64 ≤ i := by
    have h := hbit i
    rw [BitVec.getLsbD_or, BitVec.getLsbD_or, hlow, hregion (by omega), hstripe (by omega),
      decide_eq_false (not_lt.mpr hi'), decide_eq_false (not_le.mpr hi), decide_eq_true (hi.trans hlowest)] at h
    simp only [Bool.false_and, Bool.false_or, Bool.and_eq_true, decide_eq_true_eq] at h
    exact h.1
  have hfirst := hbelow (i := 12 + j) (by omega) le_rfl
  -- so the shift of the stripe mask has wrapped around, and the region mask reaches up to bit 63
  have hwrap : 20 - j ≤ rb.toNat % 32 := by omega
  have hregion63 : (sll (oneShl rb - 1) (pageShift + spb)).getLsbD 63 = true := by
    rw [hregion (by omega), decide_eq_true (by omega), decide_eq_true (by omega)]
    rfl
  have hlast : 63 < n := by
    have h := hbit 63
    rw [BitVec.getLsbD_or, BitVec.getLsbD_or, hregion63, Bool.or_true, Bool.true_or] at h
    exact of_decide_eq_true h.symm
  have hsize63 : (dramSize - 1).getLsbD 63 = true := by
    have hle : 2 ^ 63 ≤ (dramSize - 1).toNat := Nat.lt_size.mp (hN ▸ hlast)
    have hlt := (dramSize - 1).isLt
    rw [BitVec.getLsbD, Nat.testBit_eq_decide_div_mod_eq, decide_eq_true_iff]
    omega
  have hboth := congrArg (fun x : Word => x.getLsbD 63) hdisjoint
  simp only [BitVec.getLsbD_and, hregion63, hstripe (show 63 < 64 by omega), hsize63] at hboth
  rw [decide_eq_true (by omega)] at hboth
  exact absurd hboth (by decide)

/-! ### Regions -/

/-- The mask gives back the number of regions. -/
theorem regionCount_iff (hspb : spb.toNat % 32 ≤ 18) (hle : rb.toNat ≤ 48)
    (hshift : rb.toNat ≠ 31 → spb.toNat % 64 < 32 ∨ rb.toNat % 32 = 0) :
    oneShl rb = 1 + srl (sll (oneShl rb - 1) (pageShift + spb)) (pageShift + spb) ↔ rb.toNat ≠ 31 := by
  have h1 : (1 : Word).toNat = 1 := rfl
  have hs := toNat_regionShift_mod spb
  constructor
  · -- as the sign bit it is greater than all that is left of a word shifted to the right
    intro heq h31
    have hcount : oneShl rb = 0xFFFFFFFF80000000 := by rw [oneShl, h31]; decide
    have hneg : (0xFFFFFFFF80000000 : Word).toNat = 0xFFFFFFFF80000000 := rfl
    have hlt : (srl (sll (oneShl rb - 1) (pageShift + spb)) (pageShift + spb)).toNat < 2 ^ 52 := by
      rw [toNat_srl_mod, hs]
      refine Nat.div_lt_of_lt_mul ?_
      calc (sll (oneShl rb - 1) (pageShift + spb)).toNat < 2 ^ 12 * 2 ^ 52 := (sll _ _).isLt
        _ ≤ 2 ^ ((12 + spb.toNat) % 64) * 2 ^ 52 :=
          Nat.mul_le_mul_right _ (Nat.pow_le_pow_right (by omega) (by omega))
    have hnat := congrArg BitVec.toNat heq
    rw [BitVec.toNat_add, h1, hcount, hneg] at hnat
    rw [hcount] at hlt
    omega
  · intro h31
    have hrb : rb.toNat % 32 ≠ 31 := by omega
    have hpos : 0 < 2 ^ (rb.toNat % 32) := Nat.two_pow_pos _
    have hmask := toNat_region hspb hrb (hshift h31)
    have hback : (srl (sll (oneShl rb - 1) (pageShift + spb)) (pageShift + spb)).toNat = 2 ^ (rb.toNat % 32) - 1 := by
      rw [toNat_srl_mod, hs, hmask]
      rcases hshift h31 with hnear | hone
      · rw [show (12 + spb.toNat) % 64 = 12 + spb.toNat % 32 by omega]
        exact Nat.mul_div_cancel _ (Nat.two_pow_pos _)
      · rw [hone]
        simp
    apply BitVec.eq_of_toNat_eq
    have hlt : 2 ^ (rb.toNat % 32) < 2 ^ 64 := Nat.pow_lt_pow_right (by omega) (by omega)
    rw [BitVec.toNat_add, hback, toNat_oneShl_mod hrb, h1]
    omega

/-- The region of an address. -/
theorem toNat_regionIndex (p : Platform) (hspb : spb.toNat % 32 ≤ 18) (hrb : rb.toNat % 32 ≠ 31)
    (hshift : spb.toNat % 64 < 32 ∨ rb.toNat % 32 = 0) (a : Word) :
    ((p.globals rb spb).regionIndex a).toNat =
      a.toNat / 2 ^ (12 + spb.toNat % 32) % 2 ^ (rb.toNat % 32) := by
  have hmask := toNat_region hspb hrb hshift
  show (srl (a &&& sll (oneShl rb - 1) (pageShift + spb)) (pageShift + spb)).toNat = _
  rw [toNat_srl_mod, toNat_regionShift_mod, toNat_and_field hmask]
  rcases hshift with hnear | hone
  · rw [show (12 + spb.toNat) % 64 = 12 + spb.toNat % 32 by omega]
    exact Nat.mul_div_cancel _ (Nat.two_pow_pos _)
  · rw [hone, pow_zero, Nat.mod_one, Nat.zero_mul, Nat.zero_div]

/-- Pages from `first` to `last` have all the regions if they are in as many stripes. -/
theorem pages_iff {first last d k : ℕ} (hd : 0 < d) (hk : 0 < k) (hle : first ≤ last) :
    (∀ r < k, ∃ n, first ≤ n ∧ n ≤ last ∧ n / d % k = r) ↔ first / d + k ≤ last / d + 1 := by
  constructor
  · -- the stripe before the first one, modulo the number of regions, is the last
    intro h
    obtain ⟨n, hfirst, hlast, hregion⟩ := h ((first / d + (k - 1)) % k) (Nat.mod_lt _ hk)
    have hge : first / d ≤ n / d := Nat.div_le_div_right hfirst
    have hreach : first / d + (k - 1) ≤ n / d := by
      by_contra hlt
      have hmod := Nat.sub_mod_eq_zero_of_mod_eq hregion.symm
      have hzero := Nat.eq_zero_of_dvd_of_lt (Nat.dvd_of_mod_eq_zero hmod) (by omega)
      omega
    have hle' : n / d ≤ last / d := Nat.div_le_div_right hlast
    omega
  · intro hstripes r hr
    -- the stripes from the first on have all the indices
    obtain ⟨c, hc, hindex⟩ : ∃ c < k, (first / d + c) % k = r := by
      refine ⟨(r + (k - first / d % k)) % k, Nat.mod_lt _ hk, ?_⟩
      have hlt := Nat.mod_lt (first / d) hk
      have hdiv := Nat.div_add_mod (first / d) k
      calc (first / d + (r + (k - first / d % k)) % k) % k
          = (first / d + (r + (k - first / d % k))) % k := Nat.add_mod_mod ..
        _ = (r + k * (first / d / k + 1)) % k := by
          congr 1
          rw [Nat.mul_succ]
          omega
        _ = r := by rw [Nat.add_mul_mod_self_left, Nat.mod_eq_of_lt hr]
    cases c with
    | zero => exact ⟨first, le_rfl, hle, hindex⟩
    | succ c =>
      refine ⟨d * (first / d + (c + 1)), ?_, ?_, by rw [Nat.mul_div_cancel_left _ hd, hindex]⟩
      · have hlt := Nat.lt_mul_div_succ first hd
        exact hlt.le.trans (Nat.mul_le_mul_left d (by omega))
      · exact (Nat.mul_le_mul_left d (by omega : first / d + (c + 1) ≤ last / d)).trans (Nat.mul_div_le last d)

end Masks

/-! ### The claim of the header -/

theorem toNat_stripeMask (x spb rb : Word) :
    (sll (srl x (pageShift + spb + rb)) (pageShift + spb + rb)).toNat =
      x.toNat / 2 ^ ((12 + spb.toNat + rb.toNat) % 64) * 2 ^ ((12 + spb.toNat + rb.toNat) % 64) := by
  rw [toNat_sll_mod, toNat_srl_mod, toNat_stripeShift_mod, Nat.mod_eq_of_lt]
  exact (Nat.div_mul_le_self _ _).trans_lt x.isLt

/-- The pages of installed DRAM. -/
theorem page_iff (p : Platform) (a : Word) :
    (isPageAligned a = true ∧ p.dramBase.toNat ≤ a.toNat ∧
        a.toNat + pageSize.toNat ≤ p.dramBase.toNat + p.dramSize.toNat) ↔
      a.toNat % 4096 = 0 ∧ p.firstPage ≤ a.toNat / 4096 ∧ a.toNat / 4096 < p.endPage := by
  have hlt := a.isLt
  have hpage : pageSize.toNat = 4096 := rfl
  rw [isPageAligned_iff, hpage, Platform.firstPage, Platform.endPage]
  omega

/-- Pages of DRAM by their numbers: every region has one. -/
theorem everyRegion_iff (p : Platform) (hspb : p.stripePageBits.toNat % 32 ≤ 18) (hrb : p.regionBits.toNat % 32 ≠ 31)
    (hshift : p.stripePageBits.toNat % 64 < 32 ∨ p.regionBits.toNat % 32 = 0) :
    (∀ r < (p.globals p.regionBits p.stripePageBits).dramRegionCount, ∃ a : Word,
        isPageAligned a = true ∧ p.dramBase.toNat ≤ a.toNat ∧
        a.toNat + pageSize.toNat ≤ p.dramBase.toNat + p.dramSize.toNat ∧
        (p.globals p.regionBits p.stripePageBits).regionIndex a = r) ↔
      ∀ r < 2 ^ (p.regionBits.toNat % 32), ∃ n, p.firstPage ≤ n ∧ n < p.endPage ∧
        n / 2 ^ (p.stripePageBits.toNat % 32) % 2 ^ (p.regionBits.toNat % 32) = r := by
  have hcount : (p.globals p.regionBits p.stripePageBits).dramRegionCount.toNat =
      2 ^ (p.regionBits.toNat % 32) := toNat_oneShl_mod hrb
  have hklt : 2 ^ (p.regionBits.toNat % 32) < 2 ^ 64 := Nat.pow_lt_pow_right (by omega) (by omega)
  have hend : p.endPage ≤ 2 ^ 52 := by
    rw [Platform.endPage]
    omega
  have hindex (a : Word) := toNat_regionIndex p hspb hrb hshift a
  simp only [pow_add, ← Nat.div_div_eq_div_mul] at hindex
  constructor
  · intro h r hr
    obtain ⟨a, haligned, hfirst, hlast, hregion⟩ := h (BitVec.ofNat 64 r) (by
      rw [BitVec.lt_def, hcount, BitVec.toNat_ofNat, Nat.mod_eq_of_lt (hr.trans hklt)]
      exact hr)
    obtain ⟨-, hpage, hpage'⟩ := (page_iff p a).mp ⟨haligned, hfirst, hlast⟩
    refine ⟨a.toNat / 4096, hpage, hpage', ?_⟩
    exact (hindex a).symm.trans (by rw [hregion, BitVec.toNat_ofNat, Nat.mod_eq_of_lt (hr.trans hklt)])
  · intro h r hr
    rw [BitVec.lt_def, hcount] at hr
    obtain ⟨n, hfirst, hlast, hregion⟩ := h r.toNat hr
    have ha : (BitVec.ofNat 64 (4096 * n)).toNat = 4096 * n := by
      rw [BitVec.toNat_ofNat, Nat.mod_eq_of_lt (by omega)]
    have hn : 4096 * n / 4096 = n := Nat.mul_div_cancel_left n (by omega)
    obtain ⟨haligned, hbase, hsize⟩ := (page_iff p (BitVec.ofNat 64 (4096 * n))).mpr (by
      rw [ha, hn]
      exact ⟨Nat.mul_mod_right 4096 n, hfirst, hlast⟩)
    refine ⟨_, haligned, hbase, hsize, BitVec.eq_of_toNat_eq ?_⟩
    rw [hindex, ha]
    exact hn.symm ▸ hregion

/-- Every region has a page if DRAM has enough stripes. -/
theorem regionPages_iff (p : Platform) (hspb : p.stripePageBits.toNat % 32 ≤ 18) (hrb : p.regionBits.toNat % 32 ≠ 31)
    (hshift : p.stripePageBits.toNat % 64 < 32 ∨ p.regionBits.toNat % 32 = 0) :
    (∀ r < (p.globals p.regionBits p.stripePageBits).dramRegionCount, ∃ a : Word,
        isPageAligned a = true ∧ p.dramBase.toNat ≤ a.toNat ∧
        a.toNat + pageSize.toNat ≤ p.dramBase.toNat + p.dramSize.toNat ∧
        (p.globals p.regionBits p.stripePageBits).regionIndex a = r) ↔
      p.firstPage < p.endPage ∧ p.firstPage / 2 ^ (p.stripePageBits.toNat % 32) + 2 ^ (p.regionBits.toNat % 32) ≤
        (p.endPage - 1) / 2 ^ (p.stripePageBits.toNat % 32) + 1 := by
  have hkpos : 0 < 2 ^ (p.regionBits.toNat % 32) := Nat.two_pow_pos _
  have hdpos : 0 < 2 ^ (p.stripePageBits.toNat % 32) := Nat.two_pow_pos _
  rw [everyRegion_iff p hspb hrb hshift]
  by_cases hpage : p.firstPage < p.endPage
  · rw [← pages_iff hdpos hkpos (by omega), and_iff_right hpage]
    refine forall₂_congr fun r _ => exists_congr fun n => and_congr_right fun _ => and_congr_left' ?_
    omega
  · refine ⟨fun h => ?_, fun h => absurd h.1 hpage⟩
    obtain ⟨n, hfirst, hlast, -⟩ := h 0 hkpos
    omega

/-- **When the constants partition the bits of a DRAM address.** -/
theorem partitionsBits_iff {p : Platform} {g : DramGlobals} (h : bootInitDramRegions p = some g) :
    PartitionsBits g ↔ p.Suits := by
  obtain ⟨-, hle, rfl⟩ := regionBits_of_passes h
  have hstripe : (p.globals p.regionBits p.stripePageBits).dramStripeMask.toNat = _ :=
    toNat_stripeMask (p.dramSize - 1) p.stripePageBits p.regionBits
  constructor
  · rintro ⟨hdisjoint, hcover, hcount, hsize, hpages⟩
    have hspb := (stripeSize_iff p.stripePageBits).mp hsize
    have hregions : p.regionBits.toNat ≠ 31 := fun h31 =>
      (regionCount_iff hspb hle fun hne => absurd h31 hne).mp hcount h31
    have hrb : p.regionBits.toNat % 32 ≠ 31 := by omega
    have hshift := shift_of_cover hspb hrb hcover (pairwise_four_iff.mp hdisjoint).2.2.2.2.2
    have hstripes := (masks_iff hspb hrb hshift).mp ⟨hdisjoint, hcover⟩
    rw [hstripe] at hstripes
    obtain ⟨hpage, henough⟩ := (regionPages_iff p hspb hrb hshift).mp hpages
    exact ⟨hregions, hspb, hshift, hpage, henough, hstripes⟩
  · rintro ⟨hregions, hspb, hshift, hpage, henough, hstripes⟩
    have hrb : p.regionBits.toNat % 32 ≠ 31 := by omega
    rw [← hstripe] at hstripes
    obtain ⟨hdisjoint, hcover⟩ := (masks_iff hspb hrb hshift).mpr hstripes
    exact ⟨hdisjoint, hcover, (regionCount_iff hspb hle fun _ => hshift).mpr hregions, (stripeSize_iff _).mpr hspb,
      (regionPages_iff p hspb hrb hshift).mpr ⟨hpage, henough⟩⟩

/-- The constants of the hard-wired platform are as they should be. -/
theorem partitionsBits_hardWired : PartitionsBits hardWiredGeometry.globals :=
  (partitionsBits_iff bootInitDramRegions_hardWired).mpr
    ⟨by decide +kernel, by decide +kernel, by decide +kernel, by decide +kernel, by decide +kernel, by decide +kernel⟩

/-- The hard-wired platform with half as much memory again. -/
def threeGigabytes : Platform := { hardWiredPlatform with dramSize := 0xC0000000 }

/-- With three gigabytes of DRAM, bit 30 of an address is in no mask. -/
theorem not_partitionsBits :
    bootInitDramRegions threeGigabytes = some (threeGigabytes.globals 9 0) ∧
      ¬ PartitionsBits (threeGigabytes.globals 9 0) := by
  have hboot : bootInitDramRegions threeGigabytes = some (threeGigabytes.globals 9 0) := by decide +kernel
  exact ⟨hboot, fun h => absurd h.cover (by decide +kernel)⟩

end Sanctum
