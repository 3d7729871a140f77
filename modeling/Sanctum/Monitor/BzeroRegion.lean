import Mathlib.Tactic.Ring
import Sanctum.Monitor.BootDramRegions

/-!
# Wiping a DRAM region

`bzero_dram_region` enumerates the stripes of a region from address 0 to the size of DRAM. It does
not add the base of DRAM, and its last stripe may go past the end. Of a stripe that goes up to the last address
of memory, or past it, `bzero` wipes nothing.

## What is proved

* `wipesRegion_iff` — the call does what it should exactly if its loop ends, and the addresses in
  the stripes up to there are those of the region in installed DRAM.
* `wipesRegion_iff_fits` — for the constants that are computed at boot, it does so exactly if there is
  no DRAM; or the stripes that the loop enumerates are all that installed DRAM has of the region
  (`Platform.Fits`); or nothing is wiped, and DRAM has nothing of the region (`Platform.Unwritten`); or there is one
  region, and DRAM has all of memory but the last two gigabytes (`Platform.Whole`).
* `not_wipesRegion` — the prototype.
-/

namespace Sanctum

namespace BzeroRegion

section Loop

variable (g : Globals) (r : Word)

/-- Stripe number `i` of region 0, in the enumeration. -/
def stripeAt (i : ℕ) : Word := sll g.dramRegionCount g.dramRegionShift * BitVec.ofNat 64 i

/-- Where stripe number `i` of region `r` starts. -/
def stripeStart (i : ℕ) : Word := stripeAt g i ||| sll r g.dramRegionShift

/-- The address `a` is in stripe number `i` of region `r`, and the stripe ends before memory does. -/
def InStripe (i : ℕ) (a : Word) : Prop :=
  Memory.Within (stripeStart g r i) g.dramStripeSize.toNat a ∧
    (stripeStart g r i).toNat + g.dramStripeSize.toNat < 2 ^ 64

/-- One stripe is wiped. -/
def wipeStripe (i : ℕ) (m : Memory) : Memory := m.zeroed (stripeStart g r i) g.dramStripeSize.toNat

/-- The loop ends after `k` stripes. -/
def EndsAfter (k : ℕ) : Prop := (∀ i < k, stripeAt g i < g.dramSize) ∧ ¬ stripeAt g k < g.dramSize

theorem stripeAt_succ (i : ℕ) : stripeAt g (i + 1) = stripeAt g i + sll g.dramRegionCount g.dramRegionShift := by
  rw [stripeAt, stripeAt, BitVec.ofNat_add, BitVec.mul_add]
  congr 1
  exact BitVec.mul_one _

instance (i : ℕ) (a : Word) : Decidable (InStripe g r i a) := inferInstanceAs (Decidable (_ ∧ _))

theorem stripeAt_zero : stripeAt g 0 = 0 := BitVec.mul_zero

theorem stripeStart_zero : stripeStart g r 0 = sll r g.dramRegionShift := by
  rw [stripeStart, stripeAt_zero]
  exact BitVec.zero_or

/-- The loop, from stripe number `i` on. -/
theorem run_stripes (i : ℕ) {n : ℕ} {s s' : Machine} :
    (Prog.whileSome (fun stripe : Word =>
        if stripe < g.dramSize then do
          bzero (stripe ||| sll r g.dramRegionShift) g.dramStripeSize.toNat
          return .inl (stripe + sll g.dramRegionCount g.dramRegionShift)
        else return .inr () : Word → Monitor (Word ⊕ Unit)) n (stripeAt g i)).run (exec .code) s = some (some (), s') ↔
      ∃ k < n, (∀ l < k, stripeAt g (i + l) < g.dramSize) ∧ ¬ stripeAt g (i + k) < g.dramSize ∧
        s' = { s with mem := Prog.iterUp (wipeStripe g r) k i s.mem } := by
  induction n generalizing i s with
  | zero =>
    constructor
    · intro h
      cases h
    · rintro ⟨k, hk, -⟩
      omega
  | succ n ih =>
    rw [Prog.whileSome, Prog.run_bind, Prog.run_ite]
    by_cases hlt : stripeAt g i < g.dramSize
    · rw [if_pos hlt, Prog.run_bind, run_bzero, Option.bind_some, Prog.run_pure, Option.bind_some]
      show (Prog.whileSome _ n (stripeAt g i + _)).run _ _ = _ ↔ _
      rw [← stripeAt_succ, ih (i + 1)]
      constructor
      · rintro ⟨k, hk, hbelow, hend, hs'⟩
        refine ⟨k + 1, by omega, fun l hl => ?_, ?_, hs'⟩
        · cases l with
          | zero => exact hlt
          | succ l => exact (show i + (l + 1) = i + 1 + l by omega) ▸ hbelow l (by omega)
        · exact (show i + (k + 1) = i + 1 + k by omega) ▸ hend
      · rintro ⟨k, hk, hbelow, hend, hs'⟩
        cases k with
        | zero => exact absurd hlt hend
        | succ k =>
          refine ⟨k, by omega, fun l hl => ?_, ?_, hs'⟩
          · exact (show i + (l + 1) = i + 1 + l by omega) ▸ hbelow (l + 1) (by omega)
          · exact (show i + (k + 1) = i + 1 + k by omega) ▸ hend
    · rw [if_neg hlt, Prog.run_pure, Option.bind_some]
      constructor
      · intro h
        exact ⟨0, by omega, fun l hl => absurd hl (Nat.not_lt_zero l), hlt,
          (congrArg Prod.snd (Option.some.inj h)).symm⟩
      · rintro ⟨k, -, hbelow, -, hs'⟩
        cases k with
        | zero => rw [hs']; rfl
        | succ k => exact absurd (hbelow 0 (Nat.succ_pos k)) hlt

/-- Memory when `k` stripes have been wiped. -/
def wipedMem (k : ℕ) (m : Memory) : Memory := Prog.iterUp (wipeStripe g r) k 0 m

/-- When the call returns, and with what memory. -/
theorem run_bzeroDramRegion {s s' : Machine} :
    (bzeroDramRegion g r).run (exec .code) s = some ((), s') ↔
      ∃ k < 2 ^ 64, EndsAfter g k ∧ s' = { s with mem := wipedMem g r k s.mem } := by
  have hloop : (bzeroStripes g r).run (exec .code) s = some (some (), s') ↔ _ :=
    stripeAt_zero g ▸ run_stripes g r 0
  simp only [Nat.zero_add] at hloop
  have hcall : (bzeroDramRegion g r).run (exec .code) s = some ((), s') ↔
      (bzeroStripes g r).run (exec .code) s = some (some (), s') := by
    rw [bzeroDramRegion, Prog.run_bind]
    rcases (bzeroStripes g r).run (exec .code) s with _ | ⟨_ | _, t⟩
    · exact ⟨nofun, nofun⟩
    · refine ⟨fun h => ?_, fun h => ?_⟩
      · cases h
      · cases h
    · constructor
      · intro h
        have hret : some ((), t) = some ((), s') := h
        rw [(Prod.mk.inj (Option.some.inj hret)).2]
      · intro h
        rw [(Prod.mk.inj (Option.some.inj h)).2]
        rfl
  rw [hcall, hloop]
  refine exists_congr fun k => and_congr_right fun _ => ?_
  rw [EndsAfter, and_assoc]
  rfl

/-- A byte is zero if it is in one of the stripes, and otherwise as it was. -/
theorem wipedMem_apply (k : ℕ) (m : Memory) (a : Word) :
    (∃ i < k, InStripe g r i a) ∧ wipedMem g r k m a = 0 ∨
      (¬ ∃ i < k, InStripe g r i a) ∧ wipedMem g r k m a = m a := by
  have h := Prog.iterUp_induction (f := wipeStripe g r) (n := k) (i := 0) (s := m)
    (P := fun j m' => (∃ i < j, InStripe g r i a) ∧ m' a = 0 ∨ (¬ ∃ i < j, InStripe g r i a) ∧ m' a = m a)
    (.inr ⟨fun ⟨i, hi, _⟩ => Nat.not_lt_zero i hi, rfl⟩) fun j m' _ _ ih => ?_
  · rwa [Nat.zero_add] at h
  by_cases hin : InStripe g r j a
  · exact .inl ⟨⟨j, by omega, hin⟩, Memory.zeroed_of_within hin.2 hin.1⟩
  · have hsame : wipeStripe g r j m' a = m' a := by
      rcases Nat.lt_or_ge ((stripeStart g r j).toNat + g.dramStripeSize.toNat) (2 ^ 64) with hend | hend
      · exact Memory.zeroed_of_not_within fun hw => hin ⟨hw, hend⟩
      · rw [wipeStripe, Memory.zeroed_eq_self hend]
    have hiff : (∃ i < j + 1, InStripe g r i a) ↔ ∃ i < j, InStripe g r i a := by
      constructor
      · rintro ⟨i, hi, hi'⟩
        have hne : i ≠ j := fun heq => hin (heq ▸ hi')
        exact ⟨i, by omega, hi'⟩
      · rintro ⟨i, hi, hi'⟩
        exact ⟨i, by omega, hi'⟩
    rwa [hsame, hiff]

/-- The address is in installed DRAM, and its region is `r`. -/
def InRegion (a : Word) : Prop :=
  g.dramBase.toNat ≤ a.toNat ∧ a.toNat < g.dramBase.toNat + g.dramSize.toNat ∧ dramRegionFor g a = r

/-- The call returns, the region is zero, and all else is as it was. -/
def WipesRegion : Prop :=
  ∀ s : Machine, ∃ s', (bzeroDramRegion g r).run (exec .code) s = some ((), s') ∧
    (∀ a, InRegion g r a → s'.mem a = 0) ∧ ∀ a, ¬ InRegion g r a → s'.mem a = s.mem a

/-- **When it does so.** -/
theorem wipesRegion_iff :
    WipesRegion g r ↔ ∃ k < 2 ^ 64, EndsAfter g k ∧ ∀ a, (∃ i < k, InStripe g r i a) ↔ InRegion g r a := by
  constructor
  · -- in memory full of ones, it shows what has been wiped
    intro h
    obtain ⟨s', hrun, hzero, hsame⟩ := h { blankMachine with mem := fun _ => 1 }
    obtain ⟨k, hk, hends, rfl⟩ := (run_bzeroDramRegion g r).mp hrun
    refine ⟨k, hk, hends, fun a => ⟨fun hin => ?_, fun hregion => ?_⟩⟩
    · by_contra hnot
      rcases wipedMem_apply g r k (fun _ => 1) a with ⟨-, hwiped⟩ | ⟨hout, -⟩
      · have hone : (0 : Byte) = 1 := hwiped.symm.trans (hsame a hnot)
        exact absurd hone (by decide)
      · exact hout hin
    · by_contra hnot
      rcases wipedMem_apply g r k (fun _ => 1) a with ⟨hin, -⟩ | ⟨-, hkept⟩
      · exact hnot hin
      · have hone : (1 : Byte) = 0 := hkept.symm.trans (hzero a hregion)
        exact absurd hone (by decide)
  · rintro ⟨k, hk, hends, hiff⟩ s
    refine ⟨_, (run_bzeroDramRegion g r).mpr ⟨k, hk, hends, rfl⟩, fun a hregion => ?_, fun a hregion => ?_⟩
    · rcases wipedMem_apply g r k s.mem a with ⟨-, hwiped⟩ | ⟨hout, -⟩
      · exact hwiped
      · exact absurd ((hiff a).mpr hregion) hout
    · rcases wipedMem_apply g r k s.mem a with ⟨hin, -⟩ | ⟨-, hkept⟩
      · exact absurd ((hiff a).mp hin) hregion
      · exact hkept

end Loop

/-! ### Blocks at equal distances -/

/-- The first bytes of the first `K` of `N` blocks are all that an interval has of the blocks. -/
theorem blocks_iff {base e start B D S K N M : ℕ} (hS : 0 < S) (hSB : S ≤ B) (hBD : B ≤ D) (hK : 0 < K) (hKN : K < N)
    (hroom : ∀ i < N, start + i * D + B ≤ M) :
    (∀ a < M, (∃ i < K, start + i * D ≤ a ∧ a < start + i * D + S) ↔
        base ≤ a ∧ a < e ∧ ∃ i < N, start + i * D ≤ a ∧ a < start + i * D + B) ↔
      base ≤ start ∧ start + (K - 1) * D + S ≤ e ∧ e ≤ if S = B then start + K * D else start + S := by
  have hmono {i j : ℕ} (h : i ≤ j) : i * D ≤ j * D := Nat.mul_le_mul_right D h
  have hsucc (i : ℕ) : (i + 1) * D = i * D + D := Nat.succ_mul i D
  have hroom0 := hroom 0 (by omega)
  rw [Nat.zero_mul, Nat.add_zero] at hroom0
  constructor
  · intro h
    -- the first byte of the first block, and the last byte of the last one
    obtain ⟨hbase, -, -⟩ := (h start (by omega)).mp ⟨0, hK, by omega, by omega⟩
    have hlast := hroom (K - 1) (by omega)
    obtain ⟨-, hend, -⟩ := (h (start + (K - 1) * D + S - 1) (by omega)).mp ⟨K - 1, by omega, by omega, by omega⟩
    refine ⟨hbase, by omega, ?_⟩
    -- the first byte after them
    split
    · by_contra hlt
      have hnext := hroom K hKN
      obtain ⟨i, hi, hle, hin⟩ :=
        (h (start + K * D) (by omega)).mpr ⟨by omega, by omega, K, hKN, le_rfl, by omega⟩
      have hi' := hmono (show i + 1 ≤ K from hi)
      rw [hsucc] at hi'
      omega
    · by_contra hlt
      obtain ⟨i, hi, hle, hin⟩ :=
        (h (start + S) (by omega)).mpr ⟨by omega, by omega, 0, by omega, by omega, by omega⟩
      cases i with
      | zero => omega
      | succ i =>
        rw [hsucc] at hle
        omega
  · rintro ⟨hbase, hlast, hnext⟩ a -
    constructor
    · rintro ⟨i, hi, hle, hlt⟩
      have hi' := hmono (show i ≤ K - 1 by omega)
      exact ⟨by omega, by omega, i, by omega, hle, by omega⟩
    · rintro ⟨hle, hlt, i, hi, hge, hin⟩
      split at hnext
      · refine ⟨i, ?_, hge, by omega⟩
        by_contra hge'
        have hi' := hmono (not_lt.mp hge')
        omega
      · cases i with
        | zero => exact ⟨0, hK, by omega, by omega⟩
        | succ i =>
          rw [hsucc] at hge
          omega

end BzeroRegion

/-! ### The condition -/

namespace Platform

variable (p : Platform)

/-- The shift of the region index, as a shift of a word takes it. -/
def regionShift : ℕ := (pageShift + p.stripePageBits).toNat % 64

/-- The size of a stripe, as a shift of an `int` computes it. -/
def stripeLength : ℕ := 2 ^ (p.regionShift % 32)

/-- The distance between two stripes of a region. -/
def stripeStep : ℕ := 2 ^ (p.regionShift + p.regionBits.toNat % 32)

/-- How many stripes of a region the loop enumerates (the sign bit is a step downwards). -/
def stripes : ℕ := if p.regionBits.toNat = 31 then 1 else (p.dramSize.toNat + p.stripeStep - 1) / p.stripeStep

/-- Where a region begins. -/
def regionStart (r : Word) : ℕ := r.toNat * 2 ^ p.regionShift

/-- The stripes of region `r` that the loop enumerates are all that installed DRAM has of it. -/
structure Fits (r : Word) : Prop where
  /-- The size of a stripe is not the sign bit. -/
  stripe : p.regionShift % 32 ≠ 31
  /-- Where the number of regions is the sign bit, the region mask does not have this bit. -/
  region : p.regionBits.toNat = 31 → r.getLsbD 31 = false ∧ p.regionStart r < 2 ^ 64
  /-- The loop ends. -/
  ends : p.dramSize.toNat + p.stripeStep ≤ 2 ^ 64
  /-- The first stripe is not below DRAM. -/
  first : p.dramBase.toNat ≤ p.regionStart r
  /-- The last stripe is not above DRAM. -/
  last : p.regionStart r + (p.stripes - 1) * p.stripeStep + p.stripeLength ≤ p.dramBase.toNat + p.dramSize.toNat
  /-- What comes after it in the region is above DRAM. -/
  next : p.dramBase.toNat + p.dramSize.toNat ≤
    if p.regionShift < 32 then p.regionStart r + p.stripes * p.stripeStep else p.regionStart r + p.stripeLength

/-- The size of a stripe, as `bzero` gets it: the sign bit has become a number that is almost all of memory. -/
def stripeBytes : ℕ := if p.regionShift % 32 = 31 then 2 ^ 64 - 2 ^ 31 else p.stripeLength

/-- Nothing is wiped. -/
structure Unwritten (r : Word) : Prop where
  /-- The loop ends. -/
  ends : p.dramSize.toNat + p.stripeStep ≤ 2 ^ 64
  /-- The first stripe goes up to the last address or past it. -/
  past : 2 ^ 64 ≤ p.regionStart r % 2 ^ 64 + p.stripeBytes

/-- There is one region, and DRAM is the almost all of memory that is wiped of it. -/
structure Whole : Prop where
  /-- The size of a stripe is the sign bit. -/
  shift : p.regionShift = 31
  /-- The number of regions is one, as a shift of an `int` computes it. -/
  region : p.regionBits.toNat = 32
  /-- DRAM begins at address 0, -/
  base : p.dramBase = 0
  /-- and has all of memory but the last two gigabytes. -/
  size : p.dramSize.toNat = 2 ^ 64 - 2 ^ 31

end Platform

namespace BzeroRegion

open DramClassification

section Geometry

variable {p : Platform} {g : Globals} {r : Word}

/-! ### The end of the loop -/

/-- The step as a word: a power of two, or what is left of minus one. -/
theorem toNat_stripeAt (hle : p.regionBits.toNat ≤ 48)
    (hg : g.toDramGlobals = p.globals p.regionBits p.stripePageBits) (i : ℕ) :
    (stripeAt g i).toNat =
      p.stripeStep * ((if p.regionBits.toNat = 31 then 2 ^ 33 - 1 else 1) * i) % 2 ^ 64 := by
  have hcount : g.dramRegionCount.toNat =
      2 ^ (p.regionBits.toNat % 32) * if p.regionBits.toNat = 31 then 2 ^ 33 - 1 else 1 := by
    have hbits : g.dramRegionCount = oneShl p.regionBits := congrArg DramGlobals.dramRegionCount hg
    rw [hbits]
    split
    · next h31 =>
      rw [oneShl, h31]
      decide
    · next h31 => rw [toNat_oneShl_mod (by omega), Nat.mul_one]
  have hshift : g.dramRegionShift = pageShift + p.stripePageBits := congrArg DramGlobals.dramRegionShift hg
  rw [stripeAt, BitVec.toNat_mul, toNat_sll_mod, BitVec.toNat_ofNat, ← Nat.mul_mod, hcount, hshift]
  congr 1
  rw [Platform.stripeStep, pow_add]
  show _ * 2 ^ p.regionShift * i = _
  ring

/-- Where the step is too large for the size, the loop passes over the end of memory. -/
theorem stripeAt_lt (hle : p.regionBits.toNat ≤ 48)
    (hg : g.toDramGlobals = p.globals p.regionBits p.stripePageBits) (hsize : 0 < p.dramSize.toNat)
    (hbig : 2 ^ 64 < p.dramSize.toNat + p.stripeStep) (i : ℕ) : stripeAt g i < g.dramSize := by
  have hdram : g.dramSize = p.dramSize := congrArg DramGlobals.dramSize hg
  rw [BitVec.lt_def, hdram, toNat_stripeAt hle hg, Platform.stripeStep]
  rw [Platform.stripeStep] at hbig
  generalize (if p.regionBits.toNat = 31 then 2 ^ 33 - 1 else 1) * i = x
  rcases le_or_gt 64 (p.regionShift + p.regionBits.toNat % 32) with hfar | hnear
  · obtain ⟨c, hc⟩ := pow_dvd_pow 2 hfar
    rwa [hc, mul_assoc, Nat.mul_mod_right]
  · obtain ⟨n, hn⟩ := pow_dvd_pow 2 hnear.le
    have hpos : 0 < n := Nat.pos_of_ne_zero fun h0 => by simp [h0] at hn
    have hlt := Nat.mul_le_mul_left (2 ^ (p.regionShift + p.regionBits.toNat % 32)) (Nat.mod_lt x hpos)
    rw [Nat.mul_succ, ← hn] at hlt
    rw [hn, Nat.mul_mod_mul_left]
    omega

/-- Otherwise it ends after the stripes that begin below the size. -/
theorem endsAfter_stripes (hle : p.regionBits.toNat ≤ 48)
    (hg : g.toDramGlobals = p.globals p.regionBits p.stripePageBits) (hsize : 0 < p.dramSize.toNat)
    (hfits : p.dramSize.toNat + p.stripeStep ≤ 2 ^ 64) : EndsAfter g p.stripes := by
  have hdram : g.dramSize = p.dramSize := congrArg DramGlobals.dramSize hg
  have hpos : 0 < p.stripeStep := Nat.two_pow_pos _
  simp only [EndsAfter, BitVec.lt_def, hdram, toNat_stripeAt hle hg, Platform.stripes]
  split
  · next h31 =>
    -- the second stripe is one step below the end of memory
    have hstep : p.stripeStep * 2 ^ 33 = 2 ^ p.regionShift * 2 ^ 64 := by
      have hsum : p.regionShift + 31 % 32 + 33 = p.regionShift + 64 := by omega
      rw [Platform.stripeStep, h31, ← pow_add, hsum, pow_add]
    have hone : 0 < 2 ^ p.regionShift := Nat.two_pow_pos _
    generalize p.stripeStep = d at *
    generalize 2 ^ p.regionShift = b at *
    refine ⟨fun i hi => ?_, ?_⟩
    · rw [Nat.lt_one_iff.mp hi, Nat.mul_zero, Nat.mul_zero, Nat.zero_mod]
      exact hsize
    · have hdown : d * ((2 ^ 33 - 1) * 1) = (2 ^ 64 - d) + 2 ^ 64 * (b - 1) := by
        rw [Nat.mul_one, Nat.mul_sub, Nat.mul_one, hstep]
        omega
      rw [hdown, Nat.add_mul_mod_self_left, Nat.mod_eq_of_lt (by omega)]
      omega
  · simp only [Nat.one_mul]
    generalize p.stripeStep = d at *
    have hround := Nat.div_mul_le_self (p.dramSize.toNat + d - 1) d
    have hceil := Nat.lt_mul_div_succ (p.dramSize.toNat + d - 1) hpos
    refine ⟨fun i hi => ?_, ?_⟩
    · have hmul := Nat.mul_le_mul_right d (Nat.succ_le_iff.mpr hi)
      rw [Nat.succ_mul] at hmul
      rw [Nat.mul_comm d i, Nat.mod_eq_of_lt (by omega)]
      omega
    · rw [Nat.mul_succ] at hceil
      rw [Nat.mul_comm] at hround
      rw [Nat.mod_eq_of_lt (by omega)]
      omega

/-- When the loop ends. -/
theorem endsAfter_iff (hle : p.regionBits.toNat ≤ 48)
    (hg : g.toDramGlobals = p.globals p.regionBits p.stripePageBits) (hsize : 0 < p.dramSize.toNat) (k : ℕ) :
    EndsAfter g k ↔ k = p.stripes ∧ p.dramSize.toNat + p.stripeStep ≤ 2 ^ 64 := by
  constructor
  · intro hends
    by_cases hfits : p.dramSize.toNat + p.stripeStep ≤ 2 ^ 64
    · have hstripes := endsAfter_stripes hle hg hsize hfits
      refine ⟨?_, hfits⟩
      rcases Nat.lt_trichotomy k p.stripes with hlt | heq | hgt
      · exact absurd (hstripes.1 k hlt) hends.2
      · exact heq
      · exact absurd (hends.1 _ hgt) hstripes.2
    · exact absurd (stripeAt_lt hle hg hsize (not_le.mp hfits) k) hends.2
  · rintro ⟨rfl, hfits⟩
    exact endsAfter_stripes hle hg hsize hfits

/-! ### The addresses of a region -/

/-- The index is what is left of the address above the stripe's offset, without the bits that the
number of regions minus one does not have. -/
theorem dramRegionFor_eq_and (hg : g.toDramGlobals = p.globals p.regionBits p.stripePageBits) (a : Word) :
    dramRegionFor g a = srl a g.dramRegionShift &&& (g.dramRegionCount - 1) := by
  have hmask : g.dramRegionMask = sll (g.dramRegionCount - 1) g.dramRegionShift := by
    show g.toDramGlobals.dramRegionMask = sll (g.toDramGlobals.dramRegionCount - 1) g.toDramGlobals.dramRegionShift
    rw [hg]
    rfl
  rw [dramRegionFor, hmask]
  refine BitVec.eq_of_getLsbD_eq fun i _ => ?_
  rw [srl, srl, sll, BitVec.getLsbD_ushiftRight, BitVec.getLsbD_and, BitVec.getLsbD_and, BitVec.getLsbD_ushiftRight,
    BitVec.getLsbD_shiftLeft, Nat.add_sub_cancel_left]
  by_cases hi : g.dramRegionShift.toNat % 64 + i < 64
  · simp [hi]
  · rw [BitVec.getLsbD_of_ge a _ (not_lt.mp hi), Bool.false_and, Bool.false_and]

/-- Without bit 31. -/
theorem and_not_bit31_iff {q r : Word} (hr : r.getLsbD 31 = false) :
    q &&& 0xFFFFFFFF7FFFFFFF = r ↔ q.toNat = r.toNat ∨ q.toNat = r.toNat + 2 ^ 31 := by
  have hsplit : q &&& 0xFFFFFFFF7FFFFFFF ||| q &&& 0x80000000 = q := by
    rw [← BitVec.and_or_distrib_left]
    exact BitVec.and_allOnes
  have hdisjoint : (q &&& 0xFFFFFFFF7FFFFFFF) &&& (q &&& 0x80000000) = 0 := by
    have hmasks : (0xFFFFFFFF7FFFFFFF : Word) &&& 0x80000000 = 0 := by decide
    rw [BitVec.and_assoc, BitVec.and_comm q 0x80000000, ← BitVec.and_assoc 0xFFFFFFFF7FFFFFFF, hmasks]
    simp
  have hsum : (q &&& 0xFFFFFFFF7FFFFFFF).toNat + (q &&& 0x80000000).toNat = q.toNat := by
    rw [← BitVec.toNat_add_of_and_eq_zero hdisjoint, BitVec.add_eq_or_of_and_eq_zero _ _ hdisjoint, hsplit]
  have hbit : (q &&& 0x80000000).toNat = _ :=
    toNat_and_field (show (0x80000000 : Word).toNat = (2 ^ 1 - 1) * 2 ^ 31 by decide)
  rw [BitVec.getLsbD, Nat.testBit_eq_decide_div_mod_eq, decide_eq_false_iff_not] at hr
  rw [← BitVec.toNat_inj]
  omega

/-- A block by its number. -/
theorem block_iff {a B w r i : ℕ} (hB : 0 < B) :
    r * B + i * (B * w) ≤ a ∧ a < r * B + i * (B * w) + B ↔ a / B = r + i * w := by
  have hstart : r * B + i * (B * w) = B * (r + i * w) := by ring
  have hdiv := Nat.div_add_mod a B
  have hmod := Nat.mod_lt a hB
  rw [hstart]
  constructor
  · rintro ⟨hle, hlt⟩
    apply Nat.div_eq_of_lt_le
    · rwa [Nat.mul_comm]
    · rwa [Nat.succ_mul, Nat.mul_comm]
  · intro h
    rw [h] at hdiv
    omega

theorem toNat_srl_regionShift (hg : g.toDramGlobals = p.globals p.regionBits p.stripePageBits) (a : Word) :
    (srl a g.dramRegionShift).toNat = a.toNat / 2 ^ p.regionShift := by
  have hshift : g.dramRegionShift = pageShift + p.stripePageBits := congrArg DramGlobals.dramRegionShift hg
  rw [toNat_srl_mod, hshift]
  rfl

/-- How many blocks there are in the address space. -/
theorem two_pow_regionShift_mul (p : Platform) : 2 ^ p.regionShift * 2 ^ (64 - p.regionShift) = 2 ^ 64 := by
  have hs : p.regionShift < 64 := Nat.mod_lt _ (by omega)
  rw [← pow_add, Nat.add_sub_cancel' hs.le]

/-- The blocks of a region by their numbers, of which there are `n`, more than the loop enumerates. -/
structure Blocks (p : Platform) (g : Globals) (r : Word) (n : ℕ) : Prop where
  /-- There are more. -/
  more : p.stripes < n
  /-- They are in the address space. -/
  room : ∀ i < n, r.toNat + i * 2 ^ (p.regionBits.toNat % 32) < 2 ^ (64 - p.regionShift)
  /-- These are the region's. -/
  region : ∀ a : Word, dramRegionFor g a = r ↔
    ∃ i < n, a.toNat / 2 ^ p.regionShift = r.toNat + i * 2 ^ (p.regionBits.toNat % 32)

/-- Where the number of regions is the sign bit, the mask has all bits but that one. -/
theorem exists_blocks_of_sign (hg : g.toDramGlobals = p.globals p.regionBits p.stripePageBits)
    (h31 : p.regionBits.toNat = 31) (hbit : r.getLsbD 31 = false) (hlow : p.regionStart r < 2 ^ 64)
    (hbits : p.regionShift + 31 < 64) : ∃ n, Blocks p g r n := by
  have hcount : g.dramRegionCount = oneShl p.regionBits := congrArg DramGlobals.dramRegionCount hg
  have hmask : g.dramRegionCount - 1 = 0xFFFFFFFF7FFFFFFF := by
    rw [hcount, oneShl, h31]
    decide
  have hr31 : r.toNat < 2 ^ (64 - p.regionShift) := by
    rw [Platform.regionStart, ← two_pow_regionShift_mul, Nat.mul_comm] at hlow
    exact Nat.lt_of_mul_lt_mul_left hlow
  have hnext : r.toNat + 2 ^ 31 < 2 ^ (64 - p.regionShift) := by
    obtain ⟨c, hc⟩ := pow_dvd_pow 2 (show 32 ≤ 64 - p.regionShift by omega)
    rw [BitVec.getLsbD, Nat.testBit_eq_decide_div_mod_eq, decide_eq_false_iff_not] at hbit
    rw [hc] at hr31 ⊢
    omega
  refine ⟨2, by rw [Platform.stripes, if_pos h31]; omega, fun i hi => ?_, fun a => ?_⟩
  · rw [h31]
    rcases (by omega : i = 0 ∨ i = 1) with rfl | rfl
    · omega
    · omega
  · rw [dramRegionFor_eq_and hg, hmask, and_not_bit31_iff hbit, toNat_srl_regionShift hg, h31]
    constructor
    · rintro (h | h)
      · exact ⟨0, by omega, by omega⟩
      · exact ⟨1, by omega, by omega⟩
    · rintro ⟨i, hi, h⟩
      rcases (by omega : i = 0 ∨ i = 1) with rfl | rfl
      · exact .inl (by omega)
      · exact .inr (by omega)

/-- Elsewhere it is a power of two. -/
theorem exists_blocks_of_pow (hle : p.regionBits.toNat ≤ 48)
    (hg : g.toDramGlobals = p.globals p.regionBits p.stripePageBits) (hr : r < g.dramRegionCount)
    (h31 : p.regionBits.toNat ≠ 31) (hfits : p.dramSize.toNat + p.stripeStep ≤ 2 ^ 64)
    (hbits : p.regionShift + p.regionBits.toNat % 32 < 64) : ∃ n, Blocks p g r n := by
  have hcount : g.dramRegionCount = oneShl p.regionBits := congrArg DramGlobals.dramRegionCount hg
  have hpow := toNat_oneShl_mod (n := p.regionBits) (by omega)
  have h1 : (1 : Word).toNat = 1 := rfl
  have hw : 0 < 2 ^ (p.regionBits.toNat % 32) := Nat.two_pow_pos _
  have hrw : r.toNat < 2 ^ (p.regionBits.toNat % 32) := by
    rw [hcount, BitVec.lt_def, hpow] at hr
    exact hr
  have hmask : (g.dramRegionCount - 1).toNat = 2 ^ (p.regionBits.toNat % 32) - 1 := by
    rw [hcount, BitVec.toNat_sub_of_le (by rw [BitVec.le_def, h1, hpow]; exact hw), h1, hpow]
  obtain ⟨n, hn⟩ := pow_dvd_pow 2 (show p.regionBits.toNat % 32 ≤ 64 - p.regionShift by omega)
  refine ⟨n, ?_, fun i hi => ?_, fun a => ?_⟩
  · have hround := Nat.div_mul_le_self (p.dramSize.toNat + p.stripeStep - 1) p.stripeStep
    have hall : n * p.stripeStep = 2 ^ 64 := by
      rw [Platform.stripeStep, pow_add, ← two_pow_regionShift_mul p, hn]
      ring
    rw [Platform.stripes, if_neg h31]
    refine Nat.lt_of_mul_lt_mul_right (a := p.stripeStep) (hround.trans_lt ?_)
    omega
  · have hmul := Nat.mul_le_mul_right (2 ^ (p.regionBits.toNat % 32)) (Nat.succ_le_iff.mpr hi)
    rw [Nat.succ_mul] at hmul
    rw [hn, Nat.mul_comm _ n]
    omega
  · have hbelow : a.toNat / 2 ^ p.regionShift < 2 ^ (64 - p.regionShift) :=
      Nat.div_lt_of_lt_mul (two_pow_regionShift_mul p ▸ a.isLt)
    rw [dramRegionFor_eq_and hg, ← BitVec.toNat_inj, BitVec.toNat_and, hmask, Nat.and_two_pow_sub_one_eq_mod,
      toNat_srl_regionShift hg]
    constructor
    · intro h
      refine ⟨a.toNat / 2 ^ p.regionShift / 2 ^ (p.regionBits.toNat % 32), Nat.div_lt_of_lt_mul (hn ▸ hbelow), ?_⟩
      rw [← h, Nat.mod_add_div']
    · rintro ⟨i, -, h⟩
      rw [h, Nat.add_mul_mod_self_right, Nat.mod_eq_of_lt hrw]

/-- The blocks of a region: where they begin, and that there are more than the loop enumerates. -/
theorem exists_blocks (hle : p.regionBits.toNat ≤ 48)
    (hg : g.toDramGlobals = p.globals p.regionBits p.stripePageBits) (hr : r < g.dramRegionCount)
    (hregion : p.regionBits.toNat = 31 → r.getLsbD 31 = false ∧ p.regionStart r < 2 ^ 64)
    (hsize : 0 < p.dramSize.toNat) (hfits : p.dramSize.toNat + p.stripeStep ≤ 2 ^ 64) :
    ∃ n, p.stripes < n ∧ (∀ i < n, p.regionStart r + i * p.stripeStep + 2 ^ p.regionShift ≤ 2 ^ 64) ∧
      ∀ a : Word, dramRegionFor g a = r ↔ ∃ i < n, p.regionStart r + i * p.stripeStep ≤ a.toNat ∧
        a.toNat < p.regionStart r + i * p.stripeStep + 2 ^ p.regionShift := by
  have hstep : p.stripeStep < 2 ^ 64 := by omega
  have hbits : p.regionShift + p.regionBits.toNat % 32 < 64 := (Nat.pow_lt_pow_iff_right (by omega)).mp hstep
  obtain ⟨n, hblocks⟩ : ∃ n, Blocks p g r n := by
    by_cases h31 : p.regionBits.toNat = 31
    · rw [h31] at hbits
      exact exists_blocks_of_sign hg h31 (hregion h31).1 (hregion h31).2 hbits
    · exact exists_blocks_of_pow hle hg hr h31 hfits hbits
  have hstart (i : ℕ) : r.toNat * 2 ^ p.regionShift + i * (2 ^ p.regionShift * 2 ^ (p.regionBits.toNat % 32)) =
      2 ^ p.regionShift * (r.toNat + i * 2 ^ (p.regionBits.toNat % 32)) := by ring
  simp only [Platform.regionStart, Platform.stripeStep, pow_add, block_iff (Nat.two_pow_pos p.regionShift)]
  refine ⟨n, hblocks.more, fun i hi => ?_, hblocks.region⟩
  rw [hstart, ← Nat.mul_succ, ← two_pow_regionShift_mul p]
  exact Nat.mul_le_mul_left _ (hblocks.room i hi)

/-! ### The addresses that are wiped -/

theorem toNat_dramStripeSize (hg : g.toDramGlobals = p.globals p.regionBits p.stripePageBits) :
    g.dramStripeSize.toNat = p.stripeBytes := by
  have hstripe : g.dramStripeSize = oneShl (pageShift + p.stripePageBits) := congrArg DramGlobals.dramStripeSize hg
  have hmod : (pageShift + p.stripePageBits).toNat % 32 = p.regionShift % 32 := by
    rw [Platform.regionShift]
    omega
  rw [hstripe, Platform.stripeBytes]
  split
  · next hsign =>
    rw [oneShl, hmod, hsign]
    decide
  · next hsign =>
    rw [toNat_oneShl_mod (by omega), hmod]
    rfl

theorem stripeBytes_pos (p : Platform) : 0 < p.stripeBytes := by
  rw [Platform.stripeBytes]
  split
  · decide
  · exact Nat.two_pow_pos _

theorem toNat_sll_regionShift (hg : g.toDramGlobals = p.globals p.regionBits p.stripePageBits) (r : Word) :
    (sll r g.dramRegionShift).toNat = p.regionStart r % 2 ^ 64 := by
  have hshift : g.dramRegionShift = pageShift + p.stripePageBits := congrArg DramGlobals.dramRegionShift hg
  rw [toNat_sll_mod, hshift]
  rfl

/-- Where the stripes are that the loop enumerates. -/
theorem toNat_stripeStart (hle : p.regionBits.toNat ≤ 48)
    (hg : g.toDramGlobals = p.globals p.regionBits p.stripePageBits) (hr : r < g.dramRegionCount)
    (hregion : p.regionBits.toNat = 31 → r.getLsbD 31 = false ∧ p.regionStart r < 2 ^ 64)
    (hfits : p.dramSize.toNat + p.stripeStep ≤ 2 ^ 64) {i : ℕ} (hi : i < p.stripes) :
    (stripeStart g r i).toNat = p.regionStart r + i * p.stripeStep := by
  have hcount : g.dramRegionCount = oneShl p.regionBits := congrArg DramGlobals.dramRegionCount hg
  have hstripe := toNat_stripeAt hle hg i
  have hstart := toNat_sll_regionShift hg r
  rw [Platform.stripes] at hi
  split at hi
  · next h31 =>
    rw [Nat.lt_one_iff.mp hi, stripeStart_zero, hstart, Nat.mod_eq_of_lt (hregion h31).2, Nat.zero_mul]
    rfl
  · next h31 =>
    have hlow : p.regionStart r < p.stripeStep := by
      rw [hcount, BitVec.lt_def, toNat_oneShl_mod (by omega)] at hr
      rw [Platform.regionStart, Platform.stripeStep, pow_add, Nat.mul_comm]
      exact Nat.mul_lt_mul_of_pos_left hr (Nat.two_pow_pos _)
    have hmul := Nat.mul_le_mul_right p.stripeStep (Nat.succ_le_iff.mpr hi)
    have hround := Nat.div_mul_le_self (p.dramSize.toNat + p.stripeStep - 1) p.stripeStep
    rw [Nat.succ_mul] at hmul
    rw [if_neg h31, Nat.one_mul, Nat.mul_comm, Nat.mod_eq_of_lt (by omega)] at hstripe
    rw [Nat.mod_eq_of_lt (by omega)] at hstart
    have hdisjoint : sll r g.dramRegionShift &&& stripeAt g i = 0 :=
      and_eq_zero_of_low (k := p.regionShift + p.regionBits.toNat % 32) (hstart ▸ hlow)
        (by rw [hstripe]; exact Nat.mul_mod_left i p.stripeStep)
    rw [stripeStart, BitVec.or_comm, ← BitVec.add_eq_or_of_and_eq_zero _ _ hdisjoint,
      BitVec.toNat_add_of_and_eq_zero hdisjoint, hstart, hstripe]

/-- The set of addresses that the loop wipes is the region in DRAM. -/
def Covered (p : Platform) (g : Globals) (r : Word) : Prop := ∀ a, (∃ i < p.stripes, InStripe g r i a) ↔ InRegion g r a

/-- If the first stripe is not wiped, nothing is: no other one starts before it. -/
theorem covered_iff_of_past (hg : g.toDramGlobals = p.globals p.regionBits p.stripePageBits)
    (hpast : 2 ^ 64 ≤ p.regionStart r % 2 ^ 64 + p.stripeBytes) : Covered p g r ↔ ∀ a, ¬ InRegion g r a := by
  have hnone (i : ℕ) (a : Word) : ¬ InStripe g r i a := by
    rintro ⟨-, hend⟩
    have hle : (sll r g.dramRegionShift).toNat ≤ (stripeStart g r i).toNat := by
      rw [stripeStart, BitVec.toNat_or]
      exact Nat.right_le_or
    rw [toNat_sll_regionShift hg] at hle
    rw [toNat_dramStripeSize hg] at hend
    omega
  have hout (a : Word) : ¬ ∃ i < p.stripes, InStripe g r i a := fun ⟨i, _, hin⟩ => hnone i a hin
  exact forall_congr' fun a => iff_false_left (hout a)

/-- Otherwise all of the first stripe is. -/
theorem inRegion_of_covered (hg : g.toDramGlobals = p.globals p.regionBits p.stripePageBits)
    (hstripes : 0 < p.stripes) (hwritten : p.regionStart r % 2 ^ 64 + p.stripeBytes < 2 ^ 64) (h : Covered p g r)
    {a : Word} (ha : (a - sll r g.dramRegionShift).toNat < p.stripeBytes) : InRegion g r a := by
  refine (h a).mp ⟨0, hstripes, ?_⟩
  rw [InStripe, stripeStart_zero, toNat_dramStripeSize hg, toNat_sll_regionShift hg]
  exact ⟨ha, hwritten⟩

/-- Several regions: a first stripe of almost all of memory has two addresses whose regions differ in the lowest
bit. -/
theorem not_wiped_of_several (hle : p.regionBits.toNat ≤ 48) (hpos : 0 < p.regionBits.toNat)
    (hg : g.toDramGlobals = p.globals p.regionBits p.stripePageBits)
    (hsign : p.regionShift = 31 ∨ p.regionShift = 63) (hseveral : p.regionBits.toNat ≠ 32)
    (hwiped : ∀ {a : Word}, (a - sll r g.dramRegionShift).toNat < 2 ^ 64 - 2 ^ 31 → InRegion g r a) : False := by
  have hcount : g.dramRegionCount = oneShl p.regionBits := congrArg DramGlobals.dramRegionCount hg
  have hshift : g.dramRegionShift = pageShift + p.stripePageBits := congrArg DramGlobals.dramRegionShift hg
  have hs : g.dramRegionShift.toNat % 64 = p.regionShift := by
    rw [hshift]
    rfl
  have hodd : (g.dramRegionCount - 1).getLsbD 0 = true := by
    have heven : ∀ k < 32, 0 < k → (((1 : BitVec 32) <<< k).signExtend 64 - 1 : Word).getLsbD 0 = true := by decide
    rw [hcount, oneShl]
    exact heven _ (Nat.mod_lt _ (by omega)) (by omega)
  have hbit (a : Word) : (dramRegionFor g a).getLsbD 0 = decide (a.toNat / 2 ^ p.regionShift % 2 = 1) := by
    rw [dramRegionFor_eq_and hg, BitVec.getLsbD_and, hodd, Bool.and_true, srl, BitVec.getLsbD_ushiftRight, hs,
      BitVec.getLsbD, Nat.testBit_eq_decide_div_mod_eq, Nat.add_zero]
  have hnear := (hwiped (a := sll r g.dramRegionShift) (by rw [BitVec.sub_self]; decide)).2.2
  have hfar (x : Word) (hx : x.toNat < 2 ^ 64 - 2 ^ 31) := (hwiped (a := sll r g.dramRegionShift + x) (by
    rw [BitVec.add_comm, BitVec.add_sub_cancel]
    exact hx)).2.2
  have hbit0 := hbit (sll r g.dramRegionShift)
  have hbit1 (x : Word) := hbit (sll r g.dramRegionShift + x)
  rw [hnear] at hbit0
  rcases hsign with hcase | hcase
  · have hbit1 := hbit1 0x80000000
    have hword : (0x80000000 : Word).toNat = 2 ^ 31 := rfl
    rw [hfar _ (by decide), hbit0, hcase, BitVec.toNat_add, hword, decide_eq_decide] at hbit1
    omega
  · have hbit1 := hbit1 0x8000000000000000
    have hword : (0x8000000000000000 : Word).toNat = 2 ^ 63 := rfl
    rw [hfar _ (by decide), hbit0, hcase, BitVec.toNat_add, hword, decide_eq_decide] at hbit1
    omega

/-- If the size of a stripe is the sign bit, a number that is almost all of memory, only a region that begins at
address 0 is wiped, and it is right if this is all of DRAM. -/
theorem whole_of_covered (hle : p.regionBits.toNat ≤ 48) (hpos : 0 < p.regionBits.toNat)
    (hg : g.toDramGlobals = p.globals p.regionBits p.stripePageBits)
    (hfits : p.dramSize.toNat + p.stripeStep ≤ 2 ^ 64) (hstripes : 0 < p.stripes)
    (hwritten : p.regionStart r % 2 ^ 64 + p.stripeBytes < 2 ^ 64) (hmod : p.regionShift % 32 = 31)
    (h : Covered p g r) : p.Whole := by
  have hs64 : p.regionShift < 64 := Nat.mod_lt _ (by omega)
  have hsign : p.regionShift = 31 ∨ p.regionShift = 63 := by omega
  have hbytes : p.stripeBytes = 2 ^ 64 - 2 ^ 31 := if_pos hmod
  have hwiped {a : Word} (ha : (a - sll r g.dramRegionShift).toNat < 2 ^ 64 - 2 ^ 31) : InRegion g r a :=
    inRegion_of_covered hg hstripes hwritten h (hbytes ▸ ha)
  have hone : p.regionBits.toNat = 32 := by
    by_contra hseveral
    exact not_wiped_of_several hle hpos hg hsign hseveral hwiped
  have hdram : g.dramSize = p.dramSize := congrArg DramGlobals.dramSize hg
  have hbase : g.dramBase = p.dramBase := congrArg DramGlobals.dramBase hg
  have hstart : sll r g.dramRegionShift = 0 := by
    -- it is a multiple of 2 gigabytes, and below that
    obtain ⟨c, hc⟩ := pow_dvd_pow 2 (show 31 ≤ p.regionShift by omega)
    refine BitVec.eq_of_toNat_eq ?_
    rw [toNat_sll_regionShift hg]
    rw [hbytes, Platform.regionStart, hc, Nat.mul_left_comm] at hwritten
    rw [Platform.regionStart, hc, Nat.mul_left_comm]
    show _ = 0
    omega
  have hstep : p.stripeStep = 2 ^ p.regionShift := by
    rw [Platform.stripeStep, hone]
    rfl
  rw [hstart] at hwiped
  have hfirst := (hwiped (a := 0) (by decide)).1
  have hlast := (hwiped (a := 0xFFFFFFFF7FFFFFFF) (by decide)).2.1
  have hzero : (0 : Word).toNat = 0 := rfl
  have hlast' : (0xFFFFFFFF7FFFFFFF : Word).toNat = 0xFFFFFFFF7FFFFFFF := rfl
  rw [hbase] at hfirst
  rw [hbase, hdram] at hlast
  rw [hstep] at hfits
  rcases hsign with hcase | hcase
  · rw [hcase] at hfits
    exact ⟨hcase, hone, BitVec.eq_of_toNat_eq (by omega), by omega⟩
  · rw [hcase] at hfits
    omega

/-- And then it is right: the stripes after the first one are not wiped. -/
theorem covered_of_whole (hle : p.regionBits.toNat ≤ 48)
    (hg : g.toDramGlobals = p.globals p.regionBits p.stripePageBits) (hr : r < g.dramRegionCount)
    (hstripes : 0 < p.stripes) (h : p.Whole) : Covered p g r := by
  have hdram : g.dramSize = p.dramSize := congrArg DramGlobals.dramSize hg
  have hbase : g.dramBase = p.dramBase := congrArg DramGlobals.dramBase hg
  have h0 : (0 : Word).toNat = 0 := rfl
  have h1 : (1 : Word).toNat = 1 := rfl
  have hcount : g.dramRegionCount = 1 := by
    have hbits : g.dramRegionCount = oneShl p.regionBits := congrArg DramGlobals.dramRegionCount hg
    rw [hbits, oneShl, h.region]
    decide
  have hr0 : r = 0 := by
    rw [hcount, BitVec.lt_def, h1] at hr
    exact BitVec.eq_of_toNat_eq (Nat.lt_one_iff.mp hr)
  have hbytes : g.dramStripeSize.toNat = 2 ^ 64 - 2 ^ 31 := by
    rw [toNat_dramStripeSize hg, Platform.stripeBytes, if_pos (by rw [h.shift])]
  have hstart (i : ℕ) : (stripeStart g r i).toNat = 2 ^ 31 * i % 2 ^ 64 := by
    have hzero : sll 0 g.dramRegionShift = 0 := BitVec.zero_shiftLeft _
    have hor : stripeAt g i ||| 0 = stripeAt g i := BitVec.or_zero
    have hregion := h.region
    rw [stripeStart, hr0, hzero, hor, toNat_stripeAt hle hg, if_neg (by omega), Nat.one_mul,
      Platform.stripeStep, h.shift, h.region]
  intro a
  have hregion : InRegion g r a ↔ a.toNat < 2 ^ 64 - 2 ^ 31 := by
    have hfor : dramRegionFor g a = r := by
      rw [dramRegionFor_eq_and hg, hcount, hr0]
      exact BitVec.and_zero
    rw [InRegion, and_iff_left hfor, hbase, hdram, h.base, h.size, h0]
    omega
  rw [hregion]
  constructor
  · rintro ⟨i, -, hin, hend⟩
    rw [hstart, hbytes] at hend
    rw [Memory.within_iff (by rw [hstart]; omega), hstart, hbytes] at hin
    omega
  · intro ha
    have hfirst := hstart 0
    rw [Nat.mul_zero, Nat.zero_mod] at hfirst
    have hend : (stripeStart g r 0).toNat + g.dramStripeSize.toNat < 2 ^ 64 := by omega
    exact ⟨0, hstripes, (Memory.within_iff hend.le).mpr (by omega), hend⟩

/-- If the number of regions is the sign bit, the index does not have this bit. -/
theorem region_of_covered (hg : g.toDramGlobals = p.globals p.regionBits p.stripePageBits)
    (hstripes : 0 < p.stripes) (hwritten : p.regionStart r % 2 ^ 64 + p.stripeBytes < 2 ^ 64) (h : Covered p g r)
    (h31 : p.regionBits.toNat = 31) : r.getLsbD 31 = false ∧ p.regionStart r < 2 ^ 64 := by
  have hshift : g.dramRegionShift = pageShift + p.stripePageBits := congrArg DramGlobals.dramRegionShift hg
  have hmask : g.dramRegionCount - 1 = 0xFFFFFFFF7FFFFFFF := by
    have hcount : g.dramRegionCount = oneShl p.regionBits := congrArg DramGlobals.dramRegionCount hg
    rw [hcount, oneShl, h31]
    decide
  have hfirst := (inRegion_of_covered hg hstripes hwritten h (a := sll r g.dramRegionShift) (by
    rw [BitVec.sub_self]
    exact stripeBytes_pos p)).2.2
  rw [dramRegionFor_eq_and hg, hmask] at hfirst
  constructor
  · have hbit := congrArg (fun x : Word => x.getLsbD 31) hfirst
    simp only [BitVec.getLsbD_and] at hbit
    rw [← hbit, show (0xFFFFFFFF7FFFFFFF : Word).getLsbD 31 = false by decide, Bool.and_false]
  · have hs : g.dramRegionShift.toNat % 64 = p.regionShift := by
      rw [hshift]
      rfl
    have hback : r.toNat ≤ r.toNat * 2 ^ p.regionShift % 2 ^ 64 / 2 ^ p.regionShift := by
      calc r.toNat = (srl (sll r g.dramRegionShift) g.dramRegionShift &&& 0xFFFFFFFF7FFFFFFF).toNat := by rw [hfirst]
        _ ≤ (srl (sll r g.dramRegionShift) g.dramRegionShift).toNat := Nat.and_le_left
        _ = _ := by rw [toNat_srl_mod, toNat_sll_mod, hs]
    rw [Nat.le_div_iff_mul_le (Nat.two_pow_pos _)] at hback
    exact hback.trans_lt (Nat.mod_lt _ (by decide))

/-- When the stripes that the loop enumerates are the region in DRAM. -/
theorem covered_iff (hle : p.regionBits.toNat ≤ 48)
    (hg : g.toDramGlobals = p.globals p.regionBits p.stripePageBits) (hr : r < g.dramRegionCount)
    (hregion : p.regionBits.toNat = 31 → r.getLsbD 31 = false ∧ p.regionStart r < 2 ^ 64)
    (hsize : 0 < p.dramSize.toNat) (hfits : p.dramSize.toNat + p.stripeStep ≤ 2 ^ 64) (hstripes : 0 < p.stripes)
    (hstripe : p.regionShift % 32 ≠ 31) :
    Covered p g r ↔ p.dramBase.toNat ≤ p.regionStart r ∧
      p.regionStart r + (p.stripes - 1) * p.stripeStep + p.stripeLength ≤ p.dramBase.toNat + p.dramSize.toNat ∧
      p.dramBase.toNat + p.dramSize.toNat ≤
        if p.regionShift < 32 then p.regionStart r + p.stripes * p.stripeStep else p.regionStart r + p.stripeLength := by
  have hdram : g.dramSize = p.dramSize := congrArg DramGlobals.dramSize hg
  have hbase : g.dramBase = p.dramBase := congrArg DramGlobals.dramBase hg
  have hlength : g.dramStripeSize.toNat = p.stripeLength := (toNat_dramStripeSize hg).trans (if_neg hstripe)
  have hshort : p.stripeLength ≤ 2 ^ p.regionShift := Nat.pow_le_pow_right (by omega) (Nat.mod_le _ _)
  have hwhole : p.stripeLength = 2 ^ p.regionShift ↔ p.regionShift < 32 := by
    rw [Platform.stripeLength, Nat.pow_right_inj (le_refl 2)]
    omega
  have hapart : 2 ^ p.regionShift ≤ p.stripeStep := Nat.pow_le_pow_right (by omega) (Nat.le_add_right _ _)
  have hbound : 0 < p.stripeLength := Nat.two_pow_pos _
  obtain ⟨n, hmore, hroom, hblocks⟩ := exists_blocks hle hg hr hregion hsize hfits
  have hin {i : ℕ} (hi : i < p.stripes) (a : Word) : InStripe g r i a ↔
      p.regionStart r + i * p.stripeStep ≤ a.toNat ∧ a.toNat < p.regionStart r + i * p.stripeStep + p.stripeLength := by
    have hstart := toNat_stripeStart hle hg hr hregion hfits hi
    -- there is another block behind it
    have hnext := hroom (i + 1) (by omega)
    rw [Nat.succ_mul] at hnext
    rw [InStripe, hlength, hstart, and_iff_left (by omega), Memory.within_iff (by omega), hstart]
  rw [← if_congr hwhole rfl rfl, ← blocks_iff hbound hshort hapart hstripes hmore hroom]
  constructor
  · intro h a ha
    have hword : (BitVec.ofNat 64 a).toNat = a := by rw [BitVec.toNat_ofNat, Nat.mod_eq_of_lt ha]
    have ha := h (BitVec.ofNat 64 a)
    rw [InRegion, hblocks, hdram, hbase, hword] at ha
    rw [← ha]
    refine exists_congr fun i => and_congr_right fun hi => ?_
    rw [hin hi, hword]
  · intro h a
    rw [InRegion, hblocks, hdram, hbase, ← h a.toNat a.isLt]
    exact exists_congr fun i => and_congr_right fun hi => hin hi a

/-- If anything is wiped, and it is what it should be. -/
theorem fits_or_whole_of_covered (hle : p.regionBits.toNat ≤ 48) (hpos : 0 < p.regionBits.toNat)
    (hg : g.toDramGlobals = p.globals p.regionBits p.stripePageBits) (hr : r < g.dramRegionCount)
    (hsize : 0 < p.dramSize.toNat) (hfits : p.dramSize.toNat + p.stripeStep ≤ 2 ^ 64) (hstripes : 0 < p.stripes)
    (hwritten : p.regionStart r % 2 ^ 64 + p.stripeBytes < 2 ^ 64) (h : Covered p g r) : p.Fits r ∨ p.Whole := by
  by_cases hmod : p.regionShift % 32 = 31
  · exact .inr (whole_of_covered hle hpos hg hfits hstripes hwritten hmod h)
  · have hregion := region_of_covered hg hstripes hwritten h
    obtain ⟨hfirst, hlast, hnext⟩ := (covered_iff hle hg hr hregion hsize hfits hstripes hmod).mp h
    exact .inl ⟨hmod, hregion, hfits, hfirst, hlast, hnext⟩

/-- **When a region is wiped, and nothing else.** -/
theorem wipesRegion_iff_fits (h : bootInitDramRegions p = some g.toDramGlobals) (hr : r < g.dramRegionCount) :
    WipesRegion g r ↔ p.dramSize = 0 ∨ p.Fits r ∨ p.Unwritten r ∧ (∀ a, ¬ InRegion g r a) ∨ p.Whole := by
  obtain ⟨hpos, hle, hg⟩ := regionBits_of_passes h
  have hdram : g.dramSize = p.dramSize := congrArg DramGlobals.dramSize hg
  rw [wipesRegion_iff]
  by_cases hzero : p.dramSize = 0
  · refine iff_of_true
      ⟨0, by decide, ⟨fun i hi => absurd hi (Nat.not_lt_zero i), ?_⟩, fun a => iff_of_false ?_ ?_⟩ (.inl hzero)
    · rw [hdram, hzero]
      exact BitVec.not_lt_zero
    · rintro ⟨i, hi, -⟩
      exact Nat.not_lt_zero i hi
    · rintro ⟨hbase, hend, -⟩
      have h0 : (0 : Word).toNat = 0 := rfl
      rw [hdram, hzero, h0] at hend
      omega
  have hsize : 0 < p.dramSize.toNat := Nat.pos_of_ne_zero fun h0 => hzero (BitVec.eq_of_toNat_eq h0)
  have hone : 0 < p.stripeStep := Nat.two_pow_pos _
  have hstripes : 0 < p.stripes := by
    rw [Platform.stripes]
    split
    · exact Nat.one_pos
    · exact Nat.div_pos (by omega) hone
  rw [or_iff_right hzero]
  constructor
  · rintro ⟨k, -, hends, hcovered⟩
    obtain ⟨rfl, hfits⟩ := (endsAfter_iff hle hg hsize k).mp hends
    rcases Nat.lt_or_ge (p.regionStart r % 2 ^ 64 + p.stripeBytes) (2 ^ 64) with hwritten | hpast
    · exact (fits_or_whole_of_covered hle hpos hg hr hsize hfits hstripes hwritten hcovered).imp_right .inr
    · exact .inr (.inl ⟨⟨hfits, hpast⟩, (covered_iff_of_past hg hpast).mp hcovered⟩)
  · intro hcases
    have hfits : p.dramSize.toNat + p.stripeStep ≤ 2 ^ 64 := by
      rcases hcases with hfits | ⟨hunwritten, -⟩ | hwhole
      · exact hfits.ends
      · exact hunwritten.ends
      · rw [hwhole.size, Platform.stripeStep, hwhole.shift, hwhole.region]
        decide
    have hfew : p.stripes < 2 ^ 64 := by
      rw [Platform.stripes]
      split
      · decide
      · exact (Nat.div_le_self _ _).trans_lt (by omega)
    refine ⟨p.stripes, hfew, endsAfter_stripes hle hg hsize hfits, ?_⟩
    rcases hcases with ⟨hstripe, hregion, -, hfirst, hlast, hnext⟩ | ⟨hunwritten, hempty⟩ | hwhole
    · exact (covered_iff hle hg hr hregion hsize hfits hstripes hstripe).mpr ⟨hfirst, hlast, hnext⟩
    · exact (covered_iff_of_past hg hunwritten.past).mpr hempty
    · exact covered_of_whole hle hg hr hstripes hwhole

end Geometry

/-- The prototype, with its memory at address 0. -/
theorem wipesRegion_iff_fits_zero : WipesRegion { hardWiredGlobals with dramBase := 0 } 1 :=
  (wipesRegion_iff_fits (p := { hardWiredPlatform with dramBase := 0 }) (by decide +kernel) (by decide +kernel)).mpr
    (.inr (.inl ⟨by decide +kernel, by decide +kernel, by decide +kernel, by decide +kernel, by decide +kernel,
      by decide +kernel⟩))

/-- The prototype: what is wiped is not in DRAM. -/
theorem not_wipesRegion :
    bootInitDramRegions hardWiredPlatform = some hardWiredGlobals.toDramGlobals ∧
      1 < hardWiredGlobals.dramRegionCount ∧ ¬ WipesRegion hardWiredGlobals 1 := by
  refine ⟨by decide +kernel, by decide +kernel, fun h => ?_⟩
  obtain ⟨k, -, hends, hcovered⟩ := (wipesRegion_iff hardWiredGlobals 1).mp h
  cases k with
  | zero => exact absurd hends.2 (by decide +kernel)
  | succ k =>
    obtain ⟨hbase, -⟩ := (hcovered 0x1000).mp ⟨0, Nat.succ_pos k, by decide +kernel⟩
    exact absurd hbase (by decide +kernel)

end BzeroRegion

end Sanctum
