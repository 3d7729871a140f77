import Sanctum.Monitor.Layout

/-!
# Boot

The code of `boot_init.c`. `boot_init_dram_regions` computes the constants from what
the platform says about its memory and caches; `boot_init_dynamic_arrays` lays out and
fills the monitor's arrays; `boot_init_protection` rounds up the monitor's top and sets
the first DMA range.

What is proved of it is what the arrays hold when `boot_init_dynamic_arrays` is done,
whatever memory held before (`Booted`): the regions belong to the OS and the OS may
access them. Nothing is said of `block_clock`, since `atomic_init(g_dram_regions->block_clock, 0)`
writes to the address that `block_clock` holds, nor of `g_core` and of the lock flags,
which are left as they were.
-/

namespace Sanctum

/-! ### `boot_init_dram_regions` -/

/-- What the platform says about its memory and caches. -/
structure Platform where
  /-- `read_dram_base`. -/
  dramBase : Word
  /-- `read_dram_size`. -/
  dramSize : Word
  /-- `read_cache_levels`. -/
  cacheLevels : Word
  /-- `is_shared_cache`. -/
  isSharedCache : Word → Bool
  /-- `read_cache_line_size`. -/
  cacheLineSize : Word → Word
  /-- `read_cache_set_count`. -/
  cacheSetCount : Word → Word
  /-- `read_max_cache_index_shift`. -/
  maxCacheIndexShift : Word
  /-- `read_min_cache_index_shift`. -/
  minCacheIndexShift : Word

/-- The platform of `arch/memory.h`. -/
def hardWiredPlatform : Platform where
  dramBase := 0x80000000
  dramSize := 2147483648
  cacheLevels := 2
  isSharedCache := fun level => level == 1
  cacheLineSize := fun _ => 64
  cacheSetCount := fun level => if level = 0 then 4096 else 32768
  maxCacheIndexShift := 0
  minCacheIndexShift := 0

/-- `(1 << n) - 1 << page_shift()`, an `int`, as a 64-bit word. -/
def stripePageMask (n : Word) : Word :=
  ((((1 : BitVec 32) <<< (n.toNat % 32)) - 1) <<< 12).signExtend 64

/-- `boot_init_dram_regions`, or nothing if it panics. -/
def bootInitDramRegions (p : Platform) : Option DramGlobals := do
  let dramAddressBits := addressBitsFor p.dramSize
  if (List.range p.cacheLevels.toNat).any fun i =>
      p.isSharedCache (BitVec.ofNat 64 i) && BitVec.ofNat 64 i != p.cacheLevels - 1 then none
  let llc := p.cacheLevels - 1
  let lineSize := p.cacheLineSize llc
  let lineBits := addressBitsFor lineSize
  if lineSize ≠ oneShl lineBits then none
  let setCount := p.cacheSetCount llc
  let setBits := addressBitsFor setCount
  if setCount ≠ oneShl setBits then none
  let cacheBits := setBits + lineBits
  if cacheBits ≤ pageShift then none
  let regionBits := cacheBits - pageShift
  let stripePageBits := dramAddressBits - cacheBits
  let stripePageBits := if stripePageBits > p.maxCacheIndexShift then p.maxCacheIndexShift else stripePageBits
  if stripePageBits < p.minCacheIndexShift then none
  let dramRegionShift := pageShift + stripePageBits
  let dramStripeShift := dramRegionShift + regionBits
  let dramRegionCount := oneShl regionBits
  some {
    dramBase := p.dramBase
    dramSize := p.dramSize
    dramRegionShift
    dramStripeShift
    dramStripePageMask := stripePageMask stripePageBits
    dramRegionMask := sll (dramRegionCount - 1) dramRegionShift
    dramStripeMask := sll (srl (p.dramSize - 1) dramStripeShift) dramStripeShift
    dramRegionCount
    dramStripeSize := oneShl dramRegionShift
    dramStripePages := oneShl stripePageBits
    dramRegionBitmapWords := (dramRegionCount + 64 - 1) / 64 }

/-- The geometry of the hard-wired platform: 512 regions of one-page stripes. -/
def hardWiredGeometry : Geometry where
  dramBase := 0x80000000
  dramSize := 2147483648
  stripePageBits := 0
  regionBits := 9
  bits_lt := by decide

/-- The constants computed for the hard-wired platform are those of its geometry. -/
theorem bootInitDramRegions_hardWired :
    bootInitDramRegions hardWiredPlatform = some hardWiredGeometry.globals := by
  decide

/-! ### The arrays -/

/-- Where `boot_init_dynamic_arrays` puts the arrays from `monitorTop` on. -/
def layOutArrays (m : MetadataGlobals) (coreCount monitorTop : Word) : Globals :=
  let dramRegion := monitorTop + coreInfoSize * coreCount
  let dramRegions := dramRegion + regionInfoSize * m.dramRegionCount
  { m with
    coreCount
    core := monitorTop
    dramRegion
    dramRegions
    osRegionBitmap := dramRegions + 8 }

section Code

variable (g : Globals)

/-- The first loop of `boot_init_dynamic_arrays`. -/
def bootInitRegions : Monitor Unit :=
  Prog.forUp (fun i => do
    let r := BitVec.ofNat 64 i
    clear (g.regionLock r)
    store64 (g.regionField .owner r) nullEnclaveId
    store64 (g.regionField .previousOwner r) nullEnclaveId
    store64 (g.regionField .pinnedPages r) 0
    store64 (g.regionField .blockedAt r) 0) g.dramRegionCount.toNat 0

/-- The second loop of `boot_init_dynamic_arrays`. -/
def bootInitOsBitmap : Monitor Unit :=
  Prog.forUp (fun i => setBitmapBit g.osRegionBitmap (BitVec.ofNat 64 i) true) g.dramRegionCount.toNat 0

/-- `boot_init_dynamic_arrays`, once the arrays are laid out. Returns `g_monitor_top`. -/
def bootInitDynamicArrays : Monitor Word := do
  bootInitRegions g
  let blockClock ← load64 g.dramRegions
  atomicInit blockClock 0
  bootInitOsBitmap g
  return g.osRegionBitmap + 8 * g.dramRegionBitmapWords

/-- `boot_init_protection`. Returns `g_monitor_top`. -/
def bootInitProtection (monitorTop : Word) : Monitor Word := do
  let monitorTop := ceilPowerOfTwo monitorTop
  writeCsr .parBase 0
  writeCsr .parMask (~~~(monitorTop - 1))
  setDrbMap g.osRegionBitmap
  if monitorTop > g.dramStripeSize then spin
  writeDmaRange monitorTop (monitorTop + 1)
  return monitorTop

end Code

/-- For a `Config`, the arrays are where it says. -/
theorem layOutArrays_config (C : Config) :
    layOutArrays (bootInitMetadata C.toGeometry.globals) C.coreCount bootInitMonitorTop = C.globals := by
  have hd : (bootInitMetadata C.toGeometry.globals).dramRegionCount = BitVec.ofNat 64 C.regionCount :=
    congrArg DramGlobals.dramRegionCount (Config.toDramGlobals_globals C)
  have h := C.arraysEnd_lt
  unfold Config.arraysEnd at h
  unfold layOutArrays Config.globals
  dsimp only
  rw [hd]
  congr 1 <;> apply BitVec.eq_of_toNat_eq <;>
    simp only [bootInitMonitorTop, coreInfoSize, regionInfoSize, BitVec.ofNat_eq_ofNat, BitVec.toNat_add,
      BitVec.toNat_mul, BitVec.toNat_ofNat] <;> omega

/-! ### After boot -/

/-- What the arrays hold after boot: the OS owns every region and may access it. -/
structure Booted (C : Config) (m : Memory) : Prop where
  /-- The records of the regions are null. -/
  region : ∀ (f : RegionField) (r : Word), r.toNat < C.regionCount → Slot.read C m (.region f r) = 0
  /-- The bits of the regions are set. -/
  osBit : ∀ r : Word, r.toNat < C.regionCount → C.osBit m r = true

namespace Config

variable (C : Config)

/-- One round of the first loop. -/
def bootRegionMem (m : Memory) (r : Word) : Memory :=
  let m := m.store64 (C.globals.regionField .owner r) nullEnclaveId
  let m := m.store64 (C.globals.regionField .previousOwner r) nullEnclaveId
  let m := m.store64 (C.globals.regionField .pinnedPages r) 0
  m.store64 (C.globals.regionField .blockedAt r) 0

theorem read_bootRegionMem {m : Memory} {f : RegionField} {r r' : Word} (hr : r.toNat < C.regionCount)
    (hr' : r'.toNat < C.regionCount) :
    Slot.read C (C.bootRegionMem m r) (.region f r') = if r' = r then 0 else Slot.read C m (.region f r') := by
  have h := fun f' m v =>
    Slot.read_store_region C (m := m) (f := f') (v := v) (show (Slot.region f r').Valid C from hr') hr
  simp only [bootRegionMem, h, Slot.region.injEq]
  cases f <;> simp [nullEnclaveId]

/-- Memory after the first loop. -/
def bootRegionsMem (m : Memory) : Memory :=
  Prog.iterUp (fun i m => C.bootRegionMem m (BitVec.ofNat 64 i)) C.regionCount 0 m

/-- Memory after the second loop. -/
def bootOsBitmapMem (m : Memory) : Memory :=
  Prog.iterUp (fun i m => m.setBit C.globals.osRegionBitmap (BitVec.ofNat 64 i) true) C.regionCount 0 m

theorem toNat_dramRegionCount_globals : C.globals.dramRegionCount.toNat = C.regionCount := by simp

theorem run_bootInitRegions (s : Machine) :
    (bootInitRegions C.globals).run (exec .code) s = some ((), { s with mem := C.bootRegionsMem s.mem }) := by
  rw [bootInitRegions, C.toNat_dramRegionCount_globals]
  exact run_forUp_mem _ _ (fun _ _ => rfl) _ _

theorem run_bootInitOsBitmap (s : Machine) :
    (bootInitOsBitmap C.globals).run (exec .code) s = some ((), { s with mem := C.bootOsBitmapMem s.mem }) := by
  rw [bootInitOsBitmap, C.toNat_dramRegionCount_globals]
  exact run_forUp_mem _ _ (fun _ _ => rfl) _ _

/-- After the first loop, every region's record is null. -/
theorem read_bootRegionsMem (m : Memory) (f : RegionField) {r : Word} (hr : r.toNat < C.regionCount) :
    Slot.read C (C.bootRegionsMem m) (.region f r) = 0 := by
  have h : r.toNat < 0 + C.regionCount → Slot.read C (C.bootRegionsMem m) (.region f r) = 0 := by
    refine Prog.iterUp_induction (P := fun i m => r.toNat < i → Slot.read C m (.region f r) = 0)
      (fun h => absurd h (Nat.not_lt_zero _)) fun j m _ hj ih hrj => ?_
    have e := C.toNat_ofNat_lt (show j < C.regionCount by omega)
    rw [C.read_bootRegionMem (by rw [e]; omega) hr]
    by_cases hrj' : r = BitVec.ofNat 64 j
    · rw [if_pos hrj']
    · rw [if_neg hrj']
      refine ih (lt_of_le_of_ne (Nat.lt_succ_iff.mp hrj) fun hr' => hrj' (BitVec.eq_of_toNat_eq ?_))
      rw [e, hr']
  exact h (by omega)

/-- Setting a bit clears none. -/
theorem osBit_setBit_true_of_osBit {m : Memory} {r r' : Word} (hr : r.toNat < C.regionCount)
    (hr' : r'.toNat < C.regionCount) (h : C.osBit m r' = true) :
    C.osBit (m.setBit C.globals.osRegionBitmap r true) r' = true := by
  rw [C.osBit_setBit m true hr hr']
  split
  · next e => rw [getLsbD_maskedWord_true, Bool.or_eq_true, ← e]; exact .inl h
  · exact h

/-- The bits that asking to set bit `r` sets: bit `r` if it is below bit 31 of its word,
and bit 31 of the word and all above it if it is bit 31. -/
theorem osBit_setBit_true {m : Memory} {r r' : Word} (hr : r.toNat < C.regionCount) (hr' : r'.toNat < C.regionCount)
    (hw : r'.toNat / 64 = r.toNat / 64) (hb : r.toNat % 64 < 32)
    (h : r'.toNat % 64 = r.toNat % 64 ∨ r.toNat % 64 = 31 ∧ 31 ≤ r'.toNat % 64) :
    C.osBit (m.setBit C.globals.osRegionBitmap r true) r' = true := by
  have hw' : r' / 64 = r / 64 := by
    apply BitVec.eq_of_toNat_eq
    rw [BitVec.toNat_udiv, BitVec.toNat_udiv]
    exact hw
  have e : (r % 64).toNat = r.toNat % 64 := by rw [BitVec.toNat_umod]; rfl
  rw [C.osBit_setBit m true hr hr', if_pos hw', getLsbD_maskedWord_true, Bool.or_eq_true, bitmapMask,
    getLsbD_oneShl _ (by omega), decide_eq_true_iff, e]
  omega

/-- After the second loop, every region's bit is set: the bits above bit 31 of a word are
set with bit 31. -/
theorem osBit_bootOsBitmapMem (m : Memory) {r : Word} (hr : r.toNat < C.regionCount) :
    C.osBit (C.bootOsBitmapMem m) r = true := by
  have h : r.toNat < 0 + C.regionCount ∨ 31 ≤ r.toNat % 64 ∧ r.toNat - r.toNat % 64 + 31 < 0 + C.regionCount →
      C.osBit (C.bootOsBitmapMem m) r = true := by
    refine Prog.iterUp_induction
      (P := fun i m => r.toNat < i ∨ 31 ≤ r.toNat % 64 ∧ r.toNat - r.toNat % 64 + 31 < i → C.osBit m r = true)
      (by omega) fun j m _ hj ih hrj => ?_
    have e := C.toNat_ofNat_lt (show j < C.regionCount by omega)
    have hj' : (BitVec.ofNat 64 j : Word).toNat < C.regionCount := by rw [e]; omega
    by_cases hbefore : r.toNat < j ∨ 31 ≤ r.toNat % 64 ∧ r.toNat - r.toNat % 64 + 31 < j
    · exact C.osBit_setBit_true_of_osBit hj' hr (ih hbefore)
    · exact C.osBit_setBit_true hj' hr (by rw [e]; omega) (by rw [e]; omega) (by rw [e]; omega)
  exact h (by omega)

/-- The other slots are not affected by the second loop. -/
theorem read_bootOsBitmapMem (m : Memory) {a : Slot} (ha : a.Valid C) (h : ∀ k, a ≠ .osBitmap k) :
    Slot.read C (C.bootOsBitmapMem m) a = Slot.read C m a := by
  refine Prog.iterUp_induction (P := fun _ m' => Slot.read C m' a = Slot.read C m a) rfl fun j m' _ hj ih => ?_
  have e := C.toNat_ofNat_lt (show j < C.regionCount by omega)
  exact (C.read_setBit_osRegionBitmap (by rw [e]; omega) ha h).trans ih

/-- Memory after `boot_init_dynamic_arrays`. -/
def bootedMem (m : Memory) : Memory :=
  let m := C.bootRegionsMem m
  C.bootOsBitmapMem (m.store64 (m.load64 C.globals.dramRegions) 0)

theorem run_bootInitDynamicArrays (s : Machine) :
    (bootInitDynamicArrays C.globals).run (exec .code) s =
      some (BitVec.ofNat 64 C.arraysEnd, { s with mem := C.bootedMem s.mem }) := by
  have htop : C.globals.osRegionBitmap + 8 * C.globals.dramRegionBitmapWords = BitVec.ofNat 64 C.arraysEnd := by
    have h := C.arraysEnd_lt
    unfold arraysEnd at *
    apply BitVec.eq_of_toNat_eq
    rw [toDramGlobals_globals]
    simp only [globals, Geometry.globals, BitVec.ofNat_eq_ofNat, BitVec.toNat_add, BitVec.toNat_mul,
      BitVec.toNat_ofNat]
    omega
  simp only [bootInitDynamicArrays, Prog.run_bind, run_bootInitRegions, Option.bind_some, run_load64, run_atomicInit,
    run_bootInitOsBitmap, Prog.run_pure, htop, bootedMem]

/-- **`boot_init_dynamic_arrays` gives every region to the OS**, whatever memory held.
Zeroing the word that `block_clock` points to does not hurt records that are zero. -/
theorem booted_bootedMem (m : Memory) : Booted C (C.bootedMem m) := by
  refine ⟨fun f r hr => BitVec.eq_of_toNat_eq ?_, fun r hr => C.osBit_bootOsBitmapMem _ hr⟩
  rw [bootedMem, C.read_bootOsBitmapMem _ (show (Slot.region f r).Valid C from hr) (by simp)]
  have h := Slot.read_le_of_shrinks C (Memory.shrinks_store64_zero (C.bootRegionsMem m)
    ((C.bootRegionsMem m).load64 C.globals.dramRegions)) (.region f r)
  rw [C.read_bootRegionsMem m f hr] at h
  exact Nat.le_zero.mp h

/-- What `boot_init_protection` leaves if it returns. -/
theorem bootInitProtection_cases {s s' : Machine} {monitorTop top : Word}
    (h : (bootInitProtection C.globals monitorTop).run (exec .code) s = some (top, s')) :
    s'.mem = s.mem ∧ s'.dmaRangeStart = top ∧ s'.dmaRangeEnd = top + 1 := by
  simp only [bootInitProtection, Prog.run_bind, run_writeCsr, Option.bind_some, run_setDrbMap, Prog.run_ite,
    run_spin, Prog.run_pure, run_writeDmaRange] at h
  split_ifs at h
  · simp at h
  · simp only [Option.some.injEq, Prod.mk.injEq] at h
    obtain ⟨rfl, rfl⟩ := h
    exact ⟨rfl, rfl, rfl⟩

end Config

/-! ### The machine after boot -/

/-- `boot_init_dynamic_arrays` has just returned. -/
def AfterBoot (C : Config) (s : Machine) : Prop :=
  ∃ s₀ top, (bootInitDynamicArrays C.globals).run (exec .code) s₀ = some (top, s)

theorem AfterBoot.booted {C : Config} {s : Machine} (h : AfterBoot C s) : Booted C s.mem := by
  obtain ⟨s₀, top, h⟩ := h
  rw [C.run_bootInitDynamicArrays, Option.some.injEq, Prod.mk.injEq] at h
  rw [← h.2]
  exact C.booted_bootedMem s₀.mem

/-- The machine after `boot_init_dynamic_arrays` from `s`. -/
def bootedMachine (C : Config) (s : Machine) : Machine := { s with mem := C.bootedMem s.mem }

theorem afterBoot_bootedMachine (C : Config) (s : Machine) : AfterBoot C (bootedMachine C s) :=
  ⟨s, _, C.run_bootInitDynamicArrays s⟩

/-- A machine on which nothing has happened yet. -/
def blankMachine : Machine where
  mem := fun _ => 0
  dmaRangeStart := 0
  dmaRangeEnd := 0
  csr := fun _ => 0
  hash := fun _ => ⟨[], false⟩
  tlbFlushes := fun _ => 0

/-- One megabyte of DRAM in `2 ^ regionBits` regions of one stripe each, and one core. -/
def megabyte (regionBits : ℕ) (h : regionBits ≤ 8) : Config where
  dramBase := 0
  dramSize := 0x100000
  stripePageBits := 8 - regionBits
  regionBits
  bits_lt := by omega
  coreCount := 1
  arrays_fit := by
    have hle : 2 ^ regionBits ≤ 2 ^ 8 := Nat.pow_le_pow_right (by omega) h
    have h1 : (1 : Word).toNat = 1 := rfl
    rw [h1]
    omega

/-- Two regions of half a megabyte. -/
def twoRegions : Config := megabyte 1 (by omega)

/-- 64 regions of four pages. -/
def sixtyFourRegions : Config := megabyte 6 (by omega)

/-- A machine just booted. -/
def freshMachine (C : Config) : Machine := bootedMachine C blankMachine

theorem afterBoot_freshMachine (C : Config) : AfterBoot C (freshMachine C) := afterBoot_bootedMachine C blankMachine

end Sanctum
