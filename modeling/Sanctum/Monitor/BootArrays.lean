import Sanctum.Arch.BitmapBits
import Sanctum.Monitor.BootDramRegions

/-!
# What boot makes of old memory

`boot_init_dynamic_arrays` puts the monitor's arrays into memory that may hold anything. It fills
the records of the regions and the bitmap of the OS. But `atomic_flag_clear` gets a copy of the
lock; `atomic_init` gets the contents of `block_clock` for its address, and zeroes eight bytes
there; and nothing is stored into `g_core`.

So the locks, the clock and the records of the cores hold what they held before, apart from the
eight bytes that the old clock points to.

## What is proved

* `initialises_iff` — the arrays are initialised exactly if they fit in the address space, the old clock
  points to eight bytes of the monitor, and without these bytes memory was as it is to be (`Clean`).
* `not_initialises` — a lock that was set.
-/

namespace Sanctum

namespace BootArrays

variable (g : Globals)

/-! ### What is expected -/

/-- The arrays: where each starts, and how many bytes it has. -/
def arrays : List (Word × ℕ) :=
  [(g.core, 32 * g.coreCount.toNat), (g.dramRegion, 40 * g.dramRegionCount.toNat), (g.dramRegions, 8),
    (g.osRegionBitmap, 8 * g.dramRegionBitmapWords.toNat)]

/-- The arrays after boot. `top` is where they end. -/
@[mk_iff]
structure Initialised (s : Machine) (top : Word) : Prop where
  /-- No region is locked. -/
  unlocked : ∀ r, isValidDramRegion g r = true → g.regionLocked s r = false
  /-- The records of the regions are null. -/
  regions : ∀ f r, isValidDramRegion g r = true → g.region s f r = 0
  /-- So is the clock. -/
  clock : g.blockClock s = 0
  /-- No core runs an enclave. -/
  enclaveIds : ∀ i < g.coreCount, g.coreInfo s .enclaveId i = nullEnclaveId
  /-- The stamps of the cores are null. -/
  stamps : ∀ i < g.coreCount, g.coreInfo s .flushedAt i = 0
  /-- The OS may access every region. -/
  osBits : ∀ r, isValidDramRegion g r = true → s.mem.bit g.osRegionBitmap r = true
  /-- The arrays do not overlap. -/
  apart : (arrays g).Pairwise fun a b => a.1.toNat + a.2 ≤ b.1.toNat ∨ b.1.toNat + b.2 ≤ a.1.toNat
  /-- They lie below the top. -/
  fit : ∀ a ∈ arrays g, a.1.toNat + a.2 ≤ top.toNat

/-- An operation writes no byte at `n` or above. -/
def WritesBelow (n : ℕ) (o : HwOp) : Prop := ∀ b, o.writes .code b → b.toNat < n

/-- **Boot does not depend on old memory**: it initialises the arrays, and writes nothing past them. -/
def Initialises (s : Machine) : Prop :=
  ∃ top s', (bootInitDynamicArrays g).run (exec .code) s = some (top, s') ∧ Initialised g s' top ∧
    (bootInitDynamicArrays g).Asks (exec .code) (fun o _ => WritesBelow top.toNat o) s

/-- How many bytes the arrays have. -/
def size : ℕ := 32 * g.coreCount.toNat + 40 * g.dramRegionCount.toNat + 8 + 8 * g.dramRegionBitmapWords.toNat

/-- Memory without the eight bytes that the clock points to. -/
def zeroed (m : Memory) : Memory := m.store64 (m.load64 g.dramRegions) 0

/-- When memory is initialised before. -/
@[mk_iff]
structure Clean (m : Memory) : Prop where
  /-- The clock points to eight bytes of the monitor. -/
  inside : (m.load64 g.dramRegions).toNat + 8 ≤ size g
  /-- Apart from these, the locks are clear. -/
  unlocked : ∀ r, isValidDramRegion g r = true → (zeroed g m).load32 (g.regionLock r) = 0
  /-- So is the clock. -/
  clock : (zeroed g m).load64 g.dramRegions = 0
  /-- No core runs an enclave. -/
  enclaveIds : ∀ i < g.coreCount, (zeroed g m).load64 (g.coreField .enclaveId i) = nullEnclaveId
  /-- The stamps of the cores are null. -/
  stamps : ∀ i < g.coreCount, (zeroed g m).load64 (g.coreField .flushedAt i) = 0

/-! ### Constants with the same arrays -/

/-- All that the arrays depend on. -/
structure SameArrays (g g' : Globals) : Prop where
  /-- `g_core_count`. -/
  coreCount : g.coreCount = g'.coreCount
  /-- `g_core`. -/
  core : g.core = g'.core
  /-- `g_dram_region`. -/
  dramRegion : g.dramRegion = g'.dramRegion
  /-- `g_dram_region_count`. -/
  dramRegionCount : g.dramRegionCount = g'.dramRegionCount
  /-- `g_dram_regions`. -/
  dramRegions : g.dramRegions = g'.dramRegions
  /-- `g_os_region_bitmap`. -/
  osRegionBitmap : g.osRegionBitmap = g'.osRegionBitmap
  /-- `g_dram_region_bitmap_words`. -/
  dramRegionBitmapWords : g.dramRegionBitmapWords = g'.dramRegionBitmapWords

section Same

variable {g g' : Globals} {m : Memory} {s : Machine} {top : Word}

theorem bootInitDynamicArrays_congr (h : SameArrays g g') : bootInitDynamicArrays g = bootInitDynamicArrays g' := by
  simp only [bootInitDynamicArrays, bootInitRegions, bootInitOsBitmap, Globals.regionLock, Globals.regionField,
    h.dramRegion, h.dramRegionCount, h.dramRegions, h.osRegionBitmap, h.dramRegionBitmapWords]

theorem initialised_congr (h : SameArrays g g') : Initialised g s top ↔ Initialised g' s top := by
  simp only [initialised_iff, arrays, isValidDramRegion, Globals.regionLocked, Globals.region, Globals.blockClock,
    Globals.coreInfo, Globals.coreField, Globals.regionLock, Globals.regionField, h.coreCount, h.core, h.dramRegion,
    h.dramRegionCount, h.dramRegions, h.osRegionBitmap, h.dramRegionBitmapWords]

theorem initialises_congr (h : SameArrays g g') : Initialises g s ↔ Initialises g' s := by
  simp only [Initialises, bootInitDynamicArrays_congr h, initialised_congr h]

theorem size_congr (h : SameArrays g g') : size g = size g' := by
  simp only [size, h.coreCount, h.dramRegionCount, h.dramRegionBitmapWords]

theorem clean_congr (h : SameArrays g g') : Clean g m ↔ Clean g' m := by
  simp only [clean_iff, zeroed, isValidDramRegion, size_congr h, Globals.coreField, Globals.regionLock, h.coreCount,
    h.core, h.dramRegion, h.dramRegionCount, h.dramRegions]

theorem sameArrays_layOutArrays {d d' : MetadataGlobals} {coreCount top : Word}
    (hcount : d.dramRegionCount = d'.dramRegionCount) (hwords : d.dramRegionBitmapWords = d'.dramRegionBitmapWords) :
    SameArrays (layOutArrays d coreCount top) (layOutArrays d' coreCount top) := by
  constructor <;> simp only [layOutArrays, hcount, hwords]

end Same

/-! ### What is left as it was -/

section Kept

variable (C : Config) {m : Memory} {s : Machine}

/-- A byte that is in no record of a region and in no word of the bitmap of the OS. -/
structure Kept (b : Word) : Prop where
  /-- No field of a record. -/
  region : ∀ f r, r.toNat < C.regionCount → ¬ Memory.Within (C.globals.regionField f r) 8 b
  /-- No word of the bitmap. -/
  osBitmap : ∀ k, (Slot.osBitmap k).Valid C → ¬ Memory.Within ((Slot.osBitmap k).addr C) 8 b

variable {C} {b : Word}

/-- The first loop writes the records. -/
theorem bootRegionsMem_of_kept (hb : Kept C b) : C.bootRegionsMem m b = m b := by
  refine Prog.iterUp_induction (P := fun _ (m' : Memory) => m' b = m b) rfl fun j m' _ hj ih => ?_
  have hr : (BitVec.ofNat 64 j : Word).toNat < C.regionCount := by rw [C.toNat_ofNat_lt (by omega)]; omega
  rw [Config.bootRegionMem, Memory.store64_of_not_within (hb.region _ _ hr),
    Memory.store64_of_not_within (hb.region _ _ hr),
    Memory.store64_of_not_within (hb.region _ _ hr), Memory.store64_of_not_within (hb.region _ _ hr), ih]

/-- The second loop writes the bitmap. -/
theorem bootOsBitmapMem_of_kept (hb : Kept C b) : C.bootOsBitmapMem m b = m b := by
  refine Prog.iterUp_induction (P := fun _ (m' : Memory) => m' b = m b) rfl fun j m' _ hj ih => ?_
  have hr : (BitVec.ofNat 64 j : Word).toNat < C.regionCount := by rw [C.toNat_ofNat_lt (by omega)]; omega
  rw [C.setBit_osRegionBitmap, Memory.store64_of_not_within (hb.osBitmap _ (C.valid_osBitmap hr)), ih]

/-- The bytes of the clock and of the cores are kept. -/
theorem kept_slot {a : Slot} (ha : a.Valid C) (hregion : ∀ f r, a ≠ .region f r) (hbitmap : ∀ k, a ≠ .osBitmap k)
    (hb : Memory.Within (a.addr C) 8 b) : Kept C b where
  region := fun f r hr => Slot.apart C ha (b := .region f r) hr (hregion f r) b hb
  osBitmap := fun k hk => Slot.apart C ha hk (hbitmap k) b hb

/-- Where a lock is. -/
theorem toNat_regionLock {r : Word} (hr : r.toNat < C.regionCount) :
    (C.globals.regionLock r).toNat = 32 * C.coreCount.toNat + 40 * r.toNat := by
  have h := C.arraysEnd_lt
  unfold Config.arraysEnd at h
  rw [Globals.regionLock, BitVec.toNat_add, BitVec.toNat_mul, regionInfoSize, Config.globals]
  simp only [BitVec.ofNat_eq_ofNat, BitVec.toNat_ofNat]
  omega

/-- So are the bytes of the locks. -/
theorem kept_lock {r : Word} (hr : r.toNat < C.regionCount) (hb : Memory.Within (C.globals.regionLock r) 4 b) :
    Kept C b := by
  have hlt := C.arraysEnd_lt
  have hlock := toNat_regionLock hr
  have hapart : ∀ a : Slot, a.Valid C → a.pos C + 8 ≤ 32 * C.coreCount.toNat + 40 * r.toNat ∨
      32 * C.coreCount.toNat + 40 * r.toNat + 4 ≤ a.pos C → ¬ Memory.Within (a.addr C) 8 b := by
    intro a ha hpos
    have hend := Slot.pos_le C ha
    have haddr := Slot.toNat_addr C ha
    have harrays : 32 * C.coreCount.toNat + 40 * r.toNat + 4 ≤ C.arraysEnd := by unfold Config.arraysEnd; omega
    exact Memory.apart_of_disjoint (by omega) (by omega) (by omega) b hb
  refine ⟨fun f r' hr' => hapart (.region f r') hr' ?_, fun k hk => hapart (.osBitmap k) hk ?_⟩
  · have hoffset := Slot.regionField_offset f
    simp only [Slot.pos]
    omega
  · simp only [Slot.pos]
    omega

theorem valid_clock : Slot.clock.Valid C := trivial

/-- **What is in none of the two arrays** is left as it was, but for eight bytes. -/
theorem bootedMem_of_kept (hb : Kept C b) : C.bootedMem m b = zeroed C.globals m b := by
  have hclock : (C.bootRegionsMem m).load64 C.globals.dramRegions = m.load64 C.globals.dramRegions :=
    Memory.load64_congr fun x hx =>
      bootRegionsMem_of_kept (kept_slot (a := .clock) valid_clock (by simp) (by simp) hx)
  rw [Config.bootedMem, bootOsBitmapMem_of_kept hb, hclock, zeroed]
  by_cases h : Memory.Within (m.load64 C.globals.dramRegions) 8 b
  · rw [Memory.store64, Memory.store64, Memory.store_of_within h, Memory.store_of_within h]
  · rw [Memory.store64_of_not_within h, Memory.store64_of_not_within h, bootRegionsMem_of_kept hb]

theorem read_bootedMem {a : Slot} (ha : a.Valid C) (hregion : ∀ f r, a ≠ .region f r)
    (hbitmap : ∀ k, a ≠ .osBitmap k) :
    (C.bootedMem m).load64 (a.addr C) = (zeroed C.globals m).load64 (a.addr C) :=
  Memory.load64_congr fun _ hx => bootedMem_of_kept (kept_slot ha hregion hbitmap hx)

theorem lock_bootedMem {r : Word} (hr : r.toNat < C.regionCount) :
    (C.bootedMem m).load32 (C.globals.regionLock r) = (zeroed C.globals m).load32 (C.globals.regionLock r) :=
  Memory.load32_congr fun _ hx => bootedMem_of_kept (kept_lock hr hx)

theorem size_globals (C : Config) : size C.globals = C.arraysEnd := by
  have hcount := C.toNat_dramRegionCount_globals
  have h := C.arraysEnd_lt
  unfold Config.arraysEnd at h
  rw [size, Config.arraysEnd, hcount, C.toDramGlobals_globals]
  simp only [Geometry.globals, BitVec.toNat_ofNat]
  rw [Nat.mod_eq_of_lt (a := (C.regionCount + 63) / 64) (by omega)]
  rfl

/-- The arrays are below the top, and do not overlap. -/
theorem arrays_fit (C : Config) :
    ((arrays C.globals).Pairwise fun a b => a.1.toNat + a.2 ≤ b.1.toNat ∨ b.1.toNat + b.2 ≤ a.1.toNat) ∧
      ∀ a ∈ arrays C.globals, a.1.toNat + a.2 ≤ C.arraysEnd := by
  have hcount := C.toNat_dramRegionCount_globals
  have hsize := size_globals C
  have h := C.arraysEnd_lt
  unfold Config.arraysEnd at h
  have hdram : C.globals.dramRegion.toNat = 32 * C.coreCount.toNat := by
    simp only [Config.globals, BitVec.toNat_ofNat]
    omega
  have hregions : C.globals.dramRegions.toNat = 32 * C.coreCount.toNat + 40 * C.regionCount := by
    simp only [Config.globals, BitVec.toNat_ofNat]
    omega
  have hbitmap : C.globals.osRegionBitmap.toNat = 32 * C.coreCount.toNat + 40 * C.regionCount + 8 := by
    simp only [Config.globals, BitVec.toNat_ofNat]
    omega
  have hcore : C.globals.core.toNat = 0 := rfl
  rw [size, hcount, C.coreCount_globals] at hsize
  simp only [arrays, List.pairwise_cons, List.mem_cons, List.not_mem_nil, or_false, forall_eq_or_imp, forall_eq,
    hdram, hregions, hbitmap, hcore, hcount, C.coreCount_globals]
  refine ⟨⟨⟨by omega, by omega, by omega⟩, ⟨by omega, by omega⟩, by omega, ?_⟩,
    by omega, by omega, by omega, by omega⟩
  exact ⟨fun _ h => h.elim, .nil⟩

/-! ### What is written -/

/-- The loops write to the arrays. -/
theorem bootInitRegions_only (C : Config) :
    (bootInitRegions C.globals).Only (WritesBelow C.arraysEnd) := by
  refine Prog.Only.forUp fun j _ hj => ?_
  have hcount := C.toNat_dramRegionCount_globals
  have hr : (BitVec.ofNat 64 j : Word).toNat < C.regionCount := by rw [C.toNat_ofNat_lt (by omega)]; omega
  have hstore (f : RegionField) (v : Word) :
      (store64 (C.globals.regionField f (BitVec.ofNat 64 j)) v).Only (WritesBelow C.arraysEnd) :=
    .request fun b hb => not_le.mp fun hle => Slot.not_within_of_le C (a := .region f _) hr hle hb
  have hclear : (clear (C.globals.regionLock (BitVec.ofNat 64 j))).Only (WritesBelow C.arraysEnd) :=
    .request fun b hb => hb.elim
  exact hclear.bind fun _ => (hstore _ _).bind fun _ => (hstore _ _).bind fun _ =>
    (hstore _ _).bind fun _ => hstore _ _

theorem bootInitOsBitmap_only (C : Config) :
    (bootInitOsBitmap C.globals).Only (WritesBelow C.arraysEnd) := by
  refine Prog.Only.forUp fun j _ hj => ?_
  have hcount := C.toNat_dramRegionCount_globals
  have hr : (BitVec.ofNat 64 j : Word).toNat < C.regionCount := by rw [C.toNat_ofNat_lt (by omega)]; omega
  refine Prog.Only.bind (.request fun b hb => hb.elim) fun w => .request fun b hb => ?_
  exact not_le.mp fun hle => Slot.not_within_of_le C (C.valid_osBitmap hr) hle hb

/-- Eight bytes are below a number if all are. -/
theorem within_below_iff {a : Word} {n : ℕ} (hn : n < 2 ^ 64) :
    (∀ b, Memory.Within a 8 b → b.toNat < n) ↔ a.toNat + 8 ≤ n := by
  constructor
  · intro h
    by_contra hlt
    -- the first byte at `n` or above, or the last of memory
    have hfirst := h a (by simpa using Memory.within_add (a := a) (i := 0) (by omega) (by omega))
    have hlast : Memory.Within a 8 (a + BitVec.ofNat 64 (n - a.toNat)) := Memory.within_add (by omega) (by omega)
    have hn' := h _ hlast
    rw [BitVec.toNat_add, BitVec.toNat_ofNat] at hn'
    omega
  · intro h b hb
    rw [Memory.within_iff (by omega)] at hb
    omega

/-- **What boot writes** is below the top if the clock points there. -/
theorem asks_iff (C : Config) (s : Machine) :
    (bootInitDynamicArrays C.globals).Asks (exec .code) (fun o _ => WritesBelow C.arraysEnd o) s ↔
      (s.mem.load64 C.globals.dramRegions).toNat + 8 ≤ C.arraysEnd := by
  have hlt := C.arraysEnd_lt
  have honly {α : Type} {p : Monitor α} (s : Machine) (hp : p.Only (WritesBelow C.arraysEnd)) :
      p.Asks (exec .code) (fun o _ => WritesBelow C.arraysEnd o) s :=
    hp.asks (P := fun _ => True) trivial (fun _ _ ho _ => ho) fun _ _ _ _ _ _ _ => trivial
  have hclock : (C.bootRegionsMem s.mem).load64 C.globals.dramRegions = s.mem.load64 C.globals.dramRegions :=
    Memory.load64_congr fun x hx =>
      bootRegionsMem_of_kept (kept_slot (a := .clock) valid_clock (by simp) (by simp) hx)
  rw [← within_below_iff hlt, bootInitDynamicArrays, Prog.asks_bind_iff]
  constructor
  · rintro ⟨-, h⟩
    have hrest := (Prog.asks_bind_iff.mp (h _ _ (C.run_bootInitRegions s))).2 _ _ (run_load64 _ _ _)
    have hstore : WritesBelow C.arraysEnd (.store64 ((C.bootRegionsMem s.mem).load64 C.globals.dramRegions) 0) :=
      (Prog.asks_bind_iff.mp hrest).1.1
    rw [hclock] at hstore
    exact hstore
  · intro h
    refine ⟨honly s (bootInitRegions_only C), fun _ s' hrun => ?_⟩
    rw [C.run_bootInitRegions, Option.some.injEq, Prod.mk.injEq] at hrun
    obtain ⟨-, rfl⟩ := hrun
    refine Prog.Asks.bind (honly _ (.request fun b hb => hb.elim)) fun w s' hrun => ?_
    rw [run_load64, Option.some.injEq, Prod.mk.injEq] at hrun
    obtain ⟨rfl, rfl⟩ := hrun
    refine Prog.Asks.bind (honly _ (.request ?_)) fun _ s' hrun =>
      Prog.Asks.bind (honly _ (bootInitOsBitmap_only C)) fun _ _ _ => trivial
    rw [hclock]
    exact h

/-- For a `Config`. -/
theorem initialises_config_iff (C : Config) (s : Machine) : Initialises C.globals s ↔ Clean C.globals s.mem := by
  have hlt := C.arraysEnd_lt
  have htop : (BitVec.ofNat 64 C.arraysEnd : Word).toNat = C.arraysEnd := by
    rw [BitVec.toNat_ofNat, Nat.mod_eq_of_lt hlt]
  have hcore (f : CoreField) (i : Word) (hi : i < C.globals.coreCount) :
      (C.bootedMem s.mem).load64 (C.globals.coreField f i) =
        (zeroed C.globals s.mem).load64 (C.globals.coreField f i) :=
    read_bootedMem (a := .core f i) hi (by simp) (by simp)
  have hclock : (C.bootedMem s.mem).load64 C.globals.dramRegions =
    (zeroed C.globals s.mem).load64 C.globals.dramRegions :=
    read_bootedMem (a := .clock) valid_clock (by simp) (by simp)
  have hlock (r : Word) (hr : isValidDramRegion C.globals r = true) :
      (C.bootedMem s.mem).load32 (C.globals.regionLock r) =
        (zeroed C.globals s.mem).load32 (C.globals.regionLock r) :=
    lock_bootedMem (C.isValidDramRegion_iff.mp hr)
  have hasks := asks_iff C s
  constructor
  · rintro ⟨top, s', hrun, hinit, hbelow⟩
    rw [C.run_bootInitDynamicArrays, Option.some.injEq, Prod.mk.injEq] at hrun
    obtain ⟨rfl, rfl⟩ := hrun
    rw [htop, hasks] at hbelow
    refine ⟨by rwa [size_globals], fun r hr => ?_, ?_, fun i hi => ?_, fun i hi => ?_⟩
    · rw [← hlock r hr]
      simpa [Globals.regionLocked] using hinit.unlocked r hr
    · rw [← hclock]
      exact hinit.clock
    · rw [← hcore _ i hi]
      exact hinit.enclaveIds i hi
    · rw [← hcore _ i hi]
      exact hinit.stamps i hi
  · intro h
    have hbooted := C.booted_bootedMem s.mem
    refine ⟨_, _, C.run_bootInitDynamicArrays s,
      ⟨fun r hr => ?_, fun f r hr => ?_, ?_, fun i hi => ?_, fun i hi => ?_,
      fun r hr => ?_, (arrays_fit C).1, ?_⟩, ?_⟩
    · rw [Globals.regionLocked, hlock r hr, h.unlocked r hr]
      rfl
    · exact hbooted.region f r (C.isValidDramRegion_iff.mp hr)
    · exact hclock.trans h.clock
    · exact (hcore _ i hi).trans (h.enclaveIds i hi)
    · exact (hcore _ i hi).trans (h.stamps i hi)
    · exact hbooted.osBit r (C.isValidDramRegion_iff.mp hr)
    · rw [htop]
      exact (arrays_fit C).2
    · rw [htop, hasks, ← size_globals]
      exact h.inside

end Kept

/-! ### Any platform -/

section Platform

variable {p : Platform} {d : DramGlobals}

theorem toDramGlobals_bootInitMetadata (d : DramGlobals) : (bootInitMetadata d).toDramGlobals = d := by
  unfold bootInitMetadata
  dsimp only
  split <;> rfl

/-- The monitor's constants after `boot_init_dynamic_arrays`. -/
def booted (d : DramGlobals) (coreCount : Word) : Globals :=
  layOutArrays (bootInitMetadata d) coreCount bootInitMonitorTop

/-- If the arrays fit in the address space, there is a `Config` with these arrays. -/
theorem exists_config (hd : bootInitDramRegions p = some d) (coreCount : Word)
    (hsize : size (booted d coreCount) < 2 ^ 64) : ∃ C : Config, SameArrays (booted d coreCount) C.globals := by
  obtain ⟨-, -, hglobals⟩ := regionBits_of_passes hd
  have hd' : (booted d coreCount).toDramGlobals = d := toDramGlobals_bootInitMetadata d
  have hcount : d.dramRegionCount = oneShl p.regionBits := by rw [hglobals]; rfl
  have hwords : d.dramRegionBitmapWords = (oneShl p.regionBits + 64 - 1) / 64 := by rw [hglobals]; rfl
  rw [size, hd', hcount] at hsize
  have hbits : p.regionBits.toNat % 32 ≠ 31 := by
    intro hsign
    have hneg : oneShl p.regionBits = 0xFFFFFFFF80000000 := by rw [oneShl, hsign]; decide
    rw [hneg, show (0xFFFFFFFF80000000 : Word).toNat = 0xFFFFFFFF80000000 by rfl] at hsize
    omega
  have hpow := toNat_oneShl_mod hbits
  have hlt : p.regionBits.toNat % 32 < 31 := by omega
  have hle : 2 ^ (p.regionBits.toNat % 32) ≤ 2 ^ 30 := Nat.pow_le_pow_right (by omega) (by omega)
  have hround : ((oneShl p.regionBits + 64 - 1) / 64).toNat = (2 ^ (p.regionBits.toNat % 32) + 63) / 64 := by
    have h64 : (64 : Word).toNat = 64 := rfl
    have h1 : (1 : Word).toNat = 1 := rfl
    rw [BitVec.toNat_udiv, BitVec.toNat_sub, BitVec.toNat_add, hpow, h64, h1]
    omega
  rw [hpow, hwords, hround] at hsize
  let C : Config := ⟨⟨0, 0, 0, p.regionBits.toNat % 32, by omega⟩, coreCount, hsize⟩
  have hC := C.toDramGlobals_globals
  refine ⟨C, ?_⟩
  rw [← layOutArrays_config C]
  refine sameArrays_layOutArrays ?_ ?_
  · apply BitVec.eq_of_toNat_eq
    rw [toDramGlobals_bootInitMetadata, toDramGlobals_bootInitMetadata, hcount, hpow, C.toNat_dramRegionCount]
    rfl
  · apply BitVec.eq_of_toNat_eq
    rw [toDramGlobals_bootInitMetadata, toDramGlobals_bootInitMetadata, hwords, hround]
    exact (Nat.mod_eq_of_lt (show (2 ^ (p.regionBits.toNat % 32) + 63) / 64 < 2 ^ 64 by omega)).symm

/-- Memory is clean if the bytes that boot does not write are zero. -/
theorem clean_of_zero {g : Globals} {m : Memory}
    (hlock : ∀ r, isValidDramRegion g r = true → ∀ b, Memory.Within (g.regionLock r) 4 b → m b = 0)
    (hclock : ∀ b, Memory.Within g.dramRegions 8 b → m b = 0)
    (hcore : ∀ f, f = .enclaveId ∨ f = .flushedAt → ∀ i < g.coreCount, ∀ b, Memory.Within (g.coreField f i) 8 b →
      m b = 0) :
    Clean g m := by
  have hzero : ∀ {b}, m b = 0 → zeroed g m b = 0 := fun {b} hb => by
    have hle := Memory.shrinks_store64_zero m (m.load64 g.dramRegions) b
    rw [hb] at hle
    exact BitVec.eq_of_toNat_eq (Nat.le_zero.mp hle)
  have hload : ∀ {m' : Memory} {a : Word} {n : ℕ}, n ≤ 8 → (∀ b, Memory.Within a n b → m' b = 0) → m'.load a n = 0 :=
    fun {m' a n} hn h => (Memory.load_congr_within (hn.trans (by decide)) h).trans (Memory.load_zero a n)
  have h64 : ∀ {m' : Memory} {a : Word}, (∀ b, Memory.Within a 8 b → m' b = 0) → m'.load64 a = 0 :=
    fun {m' a} h => by
    apply BitVec.eq_of_toNat_eq
    rw [Memory.toNat_load64, hload le_rfl h]
    rfl
  refine ⟨?_, fun r hr => ?_, h64 fun b hb => hzero (hclock b hb), fun i hi => ?_, fun i hi => ?_⟩
  · rw [h64 hclock, size]
    exact (Nat.le_add_left 8 _).trans (Nat.le_add_right _ _)
  · apply BitVec.eq_of_toNat_eq
    rw [Memory.toNat_load32, hload (by decide) fun b hb => hzero (hlock r hr b hb)]
    rfl
  · exact h64 fun b hb => hzero (hcore _ (.inl rfl) i hi b hb)
  · exact h64 fun b hb => hzero (hcore _ (.inr rfl) i hi b hb)

/-- Region `1` is locked before boot. -/
theorem not_initialises :
    ¬ ∀ p d coreCount s, bootInitDramRegions p = some d → Initialises (booted d coreCount) s := by
  intro h
  have hinit := h _ _ 1 { blankMachine with mem := Memory.store32 (fun _ => 0) (twoRegions.globals.regionLock 1) 1 }
    bootInitDramRegions_twoRegionsPlatform
  have hC : booted twoRegions.toGeometry.globals 1 = twoRegions.globals := layOutArrays_config twoRegions
  rw [hC, initialises_config_iff] at hinit
  exact absurd (hinit.unlocked 1 (by decide)) (by decide +kernel)

/-- **Boot initialises the arrays** exactly if they fit in the address space and memory was clean. -/
theorem initialises_iff (hd : bootInitDramRegions p = some d) (coreCount : Word) (s : Machine) :
    Initialises (booted d coreCount) s ↔ size (booted d coreCount) < 2 ^ 64 ∧ Clean (booted d coreCount) s.mem := by
  have hsize : Initialises (booted d coreCount) s → size (booted d coreCount) < 2 ^ 64 := by
    rintro ⟨top, s', -, hinit, -⟩
    -- the arrays follow one another, and each of them ends at the top or before
    have hfit := hinit.fit
    have h8 : (8 : Word).toNat = 8 := rfl
    have hcore : coreInfoSize.toNat = 32 := rfl
    have hregion : regionInfoSize.toNat = 40 := rfl
    have hzero : bootInitMonitorTop.toNat = 0 := rfl
    simp only [arrays, booted, layOutArrays, List.mem_cons, List.not_mem_nil, or_false, forall_eq_or_imp, forall_eq,
      BitVec.toNat_add, BitVec.toNat_mul, hcore, hregion, hzero, h8, Nat.zero_add, Nat.mod_mod] at hfit
    obtain ⟨h1, h2, h3, h4⟩ := hfit
    have htop := top.isLt
    have e1 : 32 * coreCount.toNat % 2 ^ 64 = 32 * coreCount.toNat := Nat.mod_eq_of_lt (by omega)
    rw [e1] at h2 h3 h4
    have e2 : 40 * (bootInitMetadata d).dramRegionCount.toNat % 2 ^ 64 =
        40 * (bootInitMetadata d).dramRegionCount.toNat := Nat.mod_eq_of_lt (by omega)
    rw [e2] at h3 h4
    have e3 : (32 * coreCount.toNat + 40 * (bootInitMetadata d).dramRegionCount.toNat) % 2 ^ 64 =
        32 * coreCount.toNat + 40 * (bootInitMetadata d).dramRegionCount.toNat := Nat.mod_eq_of_lt (by omega)
    rw [e3] at h3 h4
    simp only [size, booted, layOutArrays]
    omega
  constructor
  · intro h
    obtain ⟨C, hC⟩ := exists_config hd coreCount (hsize h)
    exact ⟨hsize h, (clean_congr hC).mpr ((initialises_config_iff C s).mp ((initialises_congr hC).mp h))⟩
  · rintro ⟨hlt, hclean⟩
    obtain ⟨C, hC⟩ := exists_config hd coreCount hlt
    exact (initialises_congr hC).mpr ((initialises_config_iff C s).mpr ((clean_congr hC).mp hclean))

/-- A machine with something in every byte but the locks of the two regions, the clock, and the record of the core. -/
def dirtyMachine : Machine :=
  { blankMachine with
    mem := fun b =>
      if b.toNat < 40 ∨ 72 ≤ b.toNat ∧ b.toNat < 80 ∨ 112 ≤ b.toNat ∧ b.toNat < 120 then 0 else 0xA5 }

theorem clean_dirtyMachine : Clean twoRegions.globals dirtyMachine.mem := by
  have hzero : ∀ {a : Word} {n : ℕ}, (a.toNat + n ≤ 40 ∨ 72 ≤ a.toNat ∧ a.toNat + n ≤ 80 ∨
      112 ≤ a.toNat ∧ a.toNat + n ≤ 120) → ∀ b, Memory.Within a n b → dirtyMachine.mem b = 0 := fun ha b hb => by
    rw [Memory.within_iff (by omega)] at hb
    exact if_pos (by omega)
  refine clean_of_zero (fun r hr => ?_) (hzero (by decide)) fun f hf i hi => ?_
  · have hr' : r.toNat < 2 := BitVec.lt_def.mp (of_decide_eq_true hr)
    have hcases : r = 0 ∨ r = 1 := by
      rcases Nat.lt_succ_iff_lt_or_eq.mp hr' with h | h
      · exact .inl (BitVec.eq_of_toNat_eq (Nat.lt_one_iff.mp h))
      · exact .inr (BitVec.eq_of_toNat_eq h)
    rcases hcases with rfl | rfl <;> exact hzero (by decide)
  · have hi' : i.toNat < 1 := BitVec.lt_def.mp hi
    obtain rfl : i = 0 := BitVec.eq_of_toNat_eq (Nat.lt_one_iff.mp hi')
    rcases hf with rfl | rfl <;> exact hzero (by decide)

theorem initialises_iff_dirty : Initialises (booted twoRegions.toGeometry.globals 1) dirtyMachine := by
  have hC : booted twoRegions.toGeometry.globals 1 = twoRegions.globals := layOutArrays_config twoRegions
  exact (initialises_iff bootInitDramRegions_twoRegionsPlatform 1 dirtyMachine).mpr
    ⟨by decide, hC ▸ clean_dirtyMachine⟩

end Platform

end BootArrays

end Sanctum
