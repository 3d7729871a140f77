import Sanctum.Monitor.DramRegionsSpec

/-!
# Where the monitor's arrays are

For a `Config`, the addresses of the monitor's arrays as numbers, and that no two
different fields of them share a byte. A load of one field is thus unaffected by a
store to another (`load_region_store_region` and the lemmas after it).

The lemmas before these translate the code's region arithmetic: a region index is
valid when it is below `2 ^ regionBits`, and `dram_region_for` takes the `regionBits`
bits from `regionShift` on.
-/

namespace Sanctum

/-! ### Region arithmetic -/

namespace Geometry

variable (G : Geometry)

theorem regionCount_pos : 0 < G.regionCount := Nat.two_pow_pos _

theorem regionShift_add_lt : G.regionShift + G.regionBits < 64 := G.bits_lt

theorem regionCount_lt : G.regionCount < 2 ^ 64 :=
  Nat.pow_lt_pow_right (by omega) (by have := G.bits_lt; omega)

/-- The end of the last region's first stripe. -/
theorem regionCount_mul_stripeSize : G.regionCount * G.stripeSize = 2 ^ (G.regionShift + G.regionBits) := by
  rw [regionCount, stripeSize, ← pow_add, Nat.add_comm]

theorem regionCount_mul_stripeSize_le : G.regionCount * G.stripeSize ≤ 2 ^ 63 := by
  rw [regionCount_mul_stripeSize]
  exact Nat.pow_le_pow_right (by omega) (by have := G.regionShift_add_lt; omega)

@[simp] theorem toNat_dramRegionCount : G.globals.dramRegionCount.toNat = G.regionCount := by
  simp only [globals, BitVec.toNat_ofNat]
  exact Nat.mod_eq_of_lt G.regionCount_lt

@[simp] theorem toNat_dramRegionShift : G.globals.dramRegionShift.toNat = G.regionShift := by
  have h := G.regionShift_add_lt
  simp only [globals, BitVec.toNat_ofNat]
  omega

end Geometry

namespace Config

variable (C : Config)

theorem arraysEnd_lt : C.arraysEnd < 2 ^ 64 := C.arrays_fit

@[simp] theorem toDramGlobals_globals : C.globals.toDramGlobals = C.toGeometry.globals := by
  unfold globals bootInitMetadata
  dsimp only
  split <;> rfl

/-- The number of a region as a word. -/
theorem toNat_ofNat_lt {i : ℕ} (hi : i < C.regionCount) : (BitVec.ofNat 64 i : Word).toNat = i :=
  Nat.mod_eq_of_lt (lt_trans hi C.regionCount_lt)

/-- There is a region `r`. -/
theorem isValidDramRegion_iff {r : Word} : isValidDramRegion C.globals r = true ↔ r.toNat < C.regionCount := by
  unfold isValidDramRegion
  rw [decide_eq_true_iff, BitVec.lt_def, toDramGlobals_globals, Geometry.toNat_dramRegionCount]

/-- The regions that may change hands are all but the first. -/
theorem isDynamicDramRegion_iff {r : Word} :
    isDynamicDramRegion C.globals r = true ↔ r ≠ 0 ∧ r.toNat < C.regionCount := by
  rw [isDynamicDramRegion, Bool.and_eq_true, isValidDramRegion_iff]
  simp

/-- The bits of the region index. -/
theorem toNat_dramRegionMask : C.globals.dramRegionMask.toNat = (2 ^ C.regionBits - 1) * 2 ^ C.regionShift := by
  have hs := C.regionShift_add_lt
  rw [toDramGlobals_globals]
  have hle : (2 ^ C.regionBits - 1) * 2 ^ C.regionShift < 2 ^ 64 := by
    calc (2 ^ C.regionBits - 1) * 2 ^ C.regionShift
        < 2 ^ C.regionBits * 2 ^ C.regionShift :=
          Nat.mul_lt_mul_of_pos_right (Nat.sub_lt (Nat.two_pow_pos _) (by omega)) (Nat.two_pow_pos _)
      _ = 2 ^ (C.regionBits + C.regionShift) := (pow_add 2 _ _).symm
      _ ≤ 2 ^ 64 := Nat.pow_le_pow_right (by omega) (by omega)
  simp only [Geometry.globals, Geometry.regionCount, BitVec.toNat_ofNat]
  exact Nat.mod_eq_of_lt hle

/-- `dram_region_for` takes the bits of the region index. -/
theorem toNat_dramRegionFor (a : Word) :
    (dramRegionFor C.globals a).toNat = a.toNat / C.stripeSize % C.regionCount := by
  have hs := C.regionShift_add_lt
  have hshift : C.globals.dramRegionShift.toNat = C.regionShift := by simp
  unfold dramRegionFor
  rw [toNat_srl (by omega), BitVec.toNat_and, hshift, toNat_dramRegionMask, Nat.and_div_two_pow,
    Nat.mul_div_cancel _ (Nat.two_pow_pos _), Nat.and_two_pow_sub_one_eq_mod]
  rfl

/-- Every address gets a region. -/
theorem toNat_dramRegionFor_lt (a : Word) : (dramRegionFor C.globals a).toNat < C.regionCount := by
  rw [toNat_dramRegionFor]
  exact Nat.mod_lt _ C.regionCount_pos

theorem toNat_clampedDramRegionFor_lt (a : Word) :
    (clampedDramRegionFor C.globals a).toNat < C.regionCount := by
  unfold clampedDramRegionFor
  split
  · exact C.toNat_dramRegionFor_lt a
  · exact C.regionCount_pos

/-- An address in the first stripe of region `0`. -/
theorem dramRegionFor_eq_zero {a : Word} (h : a.toNat < C.stripeSize) : dramRegionFor C.globals a = 0 := by
  apply BitVec.eq_of_toNat_eq
  rw [toNat_dramRegionFor, Nat.div_eq_of_lt h, Nat.zero_mod]
  rfl

/-- Where the first stripe of a region starts. -/
theorem toNat_dramRegionStart_of_le {r : Word} (hr : r.toNat ≤ C.regionCount) :
    (dramRegionStart C.globals r).toNat = r.toNat * C.stripeSize := by
  have hs := C.regionShift_add_lt
  have hle := C.regionCount_mul_stripeSize_le
  have hlt : r.toNat * C.stripeSize ≤ C.regionCount * C.stripeSize := Nat.mul_le_mul_right _ hr
  have hshift : C.globals.dramRegionShift.toNat = C.regionShift := by simp
  unfold dramRegionStart
  rw [toNat_sll (by omega), hshift]
  exact Nat.mod_eq_of_lt (by unfold Geometry.stripeSize at *; omega)

theorem toNat_dramRegionStart {r : Word} (hr : r.toNat < C.regionCount) :
    (dramRegionStart C.globals r).toNat = r.toNat * C.stripeSize :=
  C.toNat_dramRegionStart_of_le hr.le

/-- Where it ends. -/
theorem toNat_dramRegionStart_succ {r : Word} (hr : r.toNat < C.regionCount) :
    (dramRegionStart C.globals (r + 1)).toNat = (r.toNat + 1) * C.stripeSize := by
  have hlt := C.regionCount_lt
  have e : (r + 1).toNat = r.toNat + 1 := by
    have e1 : (1 : Word).toNat = 1 := rfl
    rw [BitVec.toNat_add, e1, Nat.mod_eq_of_lt (by omega)]
  rw [C.toNat_dramRegionStart_of_le (by omega), e]

/-! ### The map of a metadata region -/

@[simp] theorem toNat_dramStripeSize : C.globals.dramStripeSize.toNat = C.stripeSize := by
  have hlt : C.stripeSize < 2 ^ 64 := Nat.pow_lt_pow_right (by omega) (by have := C.regionShift_add_lt; omega)
  rw [toDramGlobals_globals]
  exact Nat.mod_eq_of_lt hlt

theorem stripeSize_eq : C.stripeSize = 4096 * 2 ^ C.stripePageBits := by
  rw [Geometry.stripeSize, Geometry.regionShift, pow_add]
  rfl

theorem stripeSize_le : C.stripeSize ≤ 2 ^ 63 :=
  le_trans (Nat.le_mul_of_pos_left _ C.regionCount_pos) C.regionCount_mul_stripeSize_le

/-- The size of the page map, rounded up to pages, as `init_metadata_region` has it. -/
def mapBytes : ℕ := (sll C.globals.metadataRegionStart pageShift).toNat

/-- The map has the pages below `g_metadata_region_start`. -/
theorem mapBytes_eq : C.mapBytes = 4096 * C.globals.metadataRegionStart.toNat ∧ C.mapBytes ≤ C.stripeSize := by
  have hstripe := C.stripeSize_eq
  have hle := C.stripeSize_le
  have hsize := C.toNat_dramStripeSize
  rw [toDramGlobals_globals] at hsize
  have key : ∀ n : Word, n.toNat ≤ C.stripeSize →
      (sll (pagesNeededFor n) pageShift).toNat = 4096 * (pagesNeededFor n).toNat ∧
        (sll (pagesNeededFor n) pageShift).toNat ≤ C.stripeSize := by
    intro n hn
    have e : pageShift.toNat = 12 := rfl
    rw [toNat_sll (by decide), toNat_pagesNeededFor (by omega), e]
    omega
  unfold mapBytes globals bootInitMetadata
  dsimp only
  split
  · exact key _ hsize.le
  · next h => exact key _ (by rw [gt_iff_lt, BitVec.not_lt, BitVec.le_def, hsize] at h; exact h)

/-- The bytes that are zeroed when region `r` is made a metadata region. -/
theorem within_map_iff {r b : Word} (hr : r.toNat < C.regionCount) :
    Memory.Within (dramRegionStart C.globals r) C.mapBytes b ↔
      r.toNat * C.stripeSize ≤ b.toNat ∧ b.toNat < r.toNat * C.stripeSize + C.mapBytes := by
  have hstart := C.toNat_dramRegionStart hr
  have hmap := C.mapBytes_eq.2
  have hend : (r.toNat + 1) * C.stripeSize ≤ 2 ^ 63 :=
    le_trans (Nat.mul_le_mul_right _ hr) C.regionCount_mul_stripeSize_le
  rw [Nat.add_mul, Nat.one_mul] at hend
  rw [Memory.within_iff (by omega), hstart]

/-! ### Slots -/

@[simp] theorem coreCount_globals : C.globals.coreCount = C.coreCount := rfl

/-- How many words the bitmap of the OS has. -/
def bitmapWords : ℕ := (C.regionCount + 63) / 64

end Config

/-- A 64-bit word of the monitor's arrays. -/
inductive Slot where
  /-- A field of `g_core[i]`. -/
  | core (f : CoreField) (i : Word)
  /-- A field of `g_dram_region[r]`. -/
  | region (f : RegionField) (r : Word)
  /-- `block_clock`. -/
  | clock
  /-- Word `k` of `g_os_region_bitmap`. -/
  | osBitmap (k : Word)
  deriving DecidableEq

namespace Slot

variable (C : Config)

/-- There is such a core, region or word. -/
def Valid : Slot → Prop
  | core _ i => i.toNat < C.coreCount.toNat
  | region _ r => r.toNat < C.regionCount
  | clock => True
  | osBitmap k => k.toNat < C.bitmapWords

/-- Where the code takes the slot to be. -/
def addr : Slot → Word
  | core f i => C.globals.coreField f i
  | region f r => C.globals.regionField f r
  | clock => C.globals.dramRegions
  | osBitmap k => C.globals.osRegionBitmap + 8 * k

/-- Where the slot is. -/
def pos : Slot → ℕ
  | core f i => 32 * i.toNat + f.offset.toNat
  | region f r => 32 * C.coreCount.toNat + 40 * r.toNat + f.offset.toNat
  | clock => 32 * C.coreCount.toNat + 40 * C.regionCount
  | osBitmap k => 32 * C.coreCount.toNat + 40 * C.regionCount + 8 + 8 * k.toNat

theorem coreField_offset (f : CoreField) : f.offset.toNat ≤ 24 := by cases f <;> decide

theorem regionField_offset (f : RegionField) : 8 ≤ f.offset.toNat ∧ f.offset.toNat ≤ 32 := by cases f <;> decide

/-- The slots lie in the arrays. -/
theorem pos_le {a : Slot} (ha : a.Valid C) : a.pos C + 8 ≤ C.arraysEnd := by
  unfold Config.arraysEnd
  cases a with
  | core f i =>
    have := coreField_offset f
    simp only [Valid, pos] at *
    omega
  | region f r =>
    have := regionField_offset f
    simp only [Valid, pos] at *
    omega
  | clock => simp only [pos]; omega
  | osBitmap k =>
    simp only [Valid, pos, Config.bitmapWords] at *
    omega

/-- Different slots do not overlap. -/
theorem pos_disjoint {a b : Slot} (ha : a.Valid C) (hb : b.Valid C) (h : a ≠ b) :
    a.pos C + 8 ≤ b.pos C ∨ b.pos C + 8 ≤ a.pos C := by
  have hcore : ∀ f f' : CoreField, f ≠ f' → f.offset.toNat + 8 ≤ f'.offset.toNat ∨
      f'.offset.toNat + 8 ≤ f.offset.toNat := by
    intro f f'
    cases f <;> cases f' <;> decide
  have hregion : ∀ f f' : RegionField, f ≠ f' → f.offset.toNat + 8 ≤ f'.offset.toNat ∨
      f'.offset.toNat + 8 ≤ f.offset.toNat := by
    intro f f'
    cases f <;> cases f' <;> decide
  cases a with
  | core f i =>
    have := coreField_offset f
    cases b with
    | core f' i' =>
      have := coreField_offset f'
      by_cases hi : i = i'
      · have := hcore f f' (by rintro rfl; exact h (by rw [hi]))
        simp only [pos, hi]
        omega
      · have : i.toNat ≠ i'.toNat := fun e => hi (BitVec.eq_of_toNat_eq e)
        simp only [pos]
        omega
    | region f' r =>
      simp only [Valid, pos] at *
      omega
    | clock =>
      simp only [Valid, pos] at *
      omega
    | osBitmap k =>
      simp only [Valid, pos] at *
      omega
  | region f r =>
    have := regionField_offset f
    cases b with
    | core f' i =>
      have := coreField_offset f'
      simp only [Valid, pos] at *
      omega
    | region f' r' =>
      have := regionField_offset f'
      by_cases hr : r = r'
      · have := hregion f f' (by rintro rfl; exact h (by rw [hr]))
        simp only [pos, hr]
        omega
      · have : r.toNat ≠ r'.toNat := fun e => hr (BitVec.eq_of_toNat_eq e)
        simp only [pos]
        omega
    | clock =>
      simp only [Valid, pos] at *
      omega
    | osBitmap k =>
      simp only [Valid, pos] at *
      omega
  | clock =>
    cases b with
    | core f' i =>
      have := coreField_offset f'
      simp only [Valid, pos] at *
      omega
    | region f' r =>
      have := regionField_offset f'
      simp only [Valid, pos] at *
      omega
    | clock => exact absurd rfl h
    | osBitmap k =>
      simp only [pos]
      omega
  | osBitmap k =>
    cases b with
    | core f' i =>
      have := coreField_offset f'
      simp only [Valid, pos] at *
      omega
    | region f' r =>
      have := regionField_offset f'
      simp only [Valid, pos] at *
      omega
    | clock =>
      simp only [pos]
      omega
    | osBitmap k' =>
      have : k.toNat ≠ k'.toNat := fun e => h (by rw [BitVec.eq_of_toNat_eq e])
      simp only [pos]
      omega

/-- The code's address of a slot is right. -/
theorem toNat_addr {a : Slot} (ha : a.Valid C) : (a.addr C).toNat = a.pos C := by
  have h := C.arraysEnd_lt
  unfold Config.arraysEnd at h
  cases a with
  | core f i =>
    have := coreField_offset f
    have e : C.globals.core.toNat = 0 := rfl
    simp only [Valid] at ha
    rw [addr, Globals.coreField, BitVec.toNat_add, BitVec.toNat_add, BitVec.toNat_mul, e, coreInfoSize, pos]
    simp only [BitVec.ofNat_eq_ofNat, BitVec.toNat_ofNat]
    omega
  | region f r =>
    have := regionField_offset f
    simp only [Valid] at ha
    rw [addr, Globals.regionField, BitVec.toNat_add, BitVec.toNat_add, BitVec.toNat_mul, regionInfoSize, pos,
      Config.globals]
    simp only [BitVec.ofNat_eq_ofNat, BitVec.toNat_ofNat]
    omega
  | clock =>
    simp only [addr, pos, Config.globals, BitVec.toNat_ofNat]
    omega
  | osBitmap k =>
    simp only [Valid, Config.bitmapWords] at ha
    rw [addr, BitVec.toNat_add, BitVec.toNat_mul, pos, Config.globals]
    simp only [BitVec.ofNat_eq_ofNat, BitVec.toNat_ofNat]
    omega

/-- The slots of a memory. -/
def read (m : Memory) (a : Slot) : Word := m.load64 (a.addr C)

/-- The first slot is at address `0`. -/
theorem addr_enclaveId_zero : (core .enclaveId 0).addr C = 0 := by
  simp [addr, Globals.coreField, Config.globals, bootInitMonitorTop, CoreField.offset]

/-- Different slots share no byte. -/
theorem apart {a b : Slot} (ha : a.Valid C) (hb : b.Valid C) (h : a ≠ b) :
    Memory.Apart (a.addr C) 8 (b.addr C) 8 := by
  have hlt := C.arraysEnd_lt
  have hpa := pos_le C ha
  have hpb := pos_le C hb
  exact Memory.apart_of_disjoint (by rw [toNat_addr C ha]; omega) (by rw [toNat_addr C hb]; omega)
    (by rw [toNat_addr C ha, toNat_addr C hb]; exact pos_disjoint C ha hb h)

/-- **The arrays are what they look like**: a store to a slot changes that slot and no other. -/
theorem read_store64 {m : Memory} {a b : Slot} {v : Word} (ha : a.Valid C) (hb : b.Valid C) :
    read C (m.store64 (b.addr C) v) a = if a = b then v else read C m a := by
  split
  · next h => rw [h, read, Memory.load64_store64_self]
  · next h => exact Memory.load64_store64_of_apart (apart C ha hb h)

/-- A store to a field of a region. -/
theorem read_store_region {m : Memory} {a : Slot} {f : RegionField} {r v : Word} (ha : a.Valid C)
    (hr : r.toNat < C.regionCount) :
    read C (m.store64 (C.globals.regionField f r) v) a = if a = .region f r then v else read C m a :=
  read_store64 C (b := .region f r) ha hr

/-- A store to the clock. -/
theorem read_store_clock {m : Memory} {a : Slot} {v : Word} (ha : a.Valid C) :
    read C (m.store64 C.globals.dramRegions v) a = if a = .clock then v else read C m a :=
  read_store64 C (b := .clock) ha trivial

/-- A slot in a memory that shrinks. -/
theorem read_le_of_shrinks {m m' : Memory} (h : m.Shrinks m') (a : Slot) :
    (read C m' a).toNat ≤ (read C m a).toNat :=
  h.load64_le _

/-- A slot is not affected by what happens past the arrays. -/
theorem read_congr_of_below {m m' : Memory} {a : Slot} (ha : a.Valid C)
    (h : ∀ b : Word, b.toNat < C.arraysEnd → m' b = m b) : read C m' a = read C m a := by
  have hlt := C.arraysEnd_lt
  have hpa := pos_le C ha
  refine Memory.load64_congr fun b hb => h b ?_
  rw [Memory.within_iff (by rw [toNat_addr C ha]; omega), toNat_addr C ha] at hb
  omega

/-- A slot has no byte past the arrays. -/
theorem not_within_of_le {a : Slot} {b : Word} (ha : a.Valid C) (hb : C.arraysEnd ≤ b.toNat) :
    ¬ Memory.Within (a.addr C) 8 b := by
  have hlt := C.arraysEnd_lt
  have hpa := pos_le C ha
  rw [Memory.within_iff (by rw [toNat_addr C ha]; omega), toNat_addr C ha]
  omega

end Slot

/-! ### The OS bitmap -/

namespace Config

variable (C : Config)

/-- Bit `r mod 64` of word `r div 64` of the bitmap of the OS. -/
def osBit (m : Memory) (r : Word) : Bool := (Slot.read C m (.osBitmap (r / 64))).getLsbD (r.toNat % 64)

theorem valid_osBitmap {r : Word} (hr : r.toNat < C.regionCount) : (Slot.osBitmap (r / 64)).Valid C := by
  simp only [Slot.Valid, bitmapWords, BitVec.toNat_udiv]
  have e : (64 : Word).toNat = 64 := rfl
  rw [e]
  omega

/-- `set_bitmap_bit` on the bitmap of the OS stores to one of its words. -/
theorem setBit_osRegionBitmap (m : Memory) (r : Word) (v : Bool) :
    m.setBit C.globals.osRegionBitmap r v =
      m.store64 ((Slot.osBitmap (r / 64)).addr C)
        (maskedWord (Slot.read C m (.osBitmap (r / 64))) (bitmapMask r) v) := rfl

theorem osBit_setBit (m : Memory) {r r' : Word} (v : Bool) (hr : r.toNat < C.regionCount)
    (hr' : r'.toNat < C.regionCount) :
    C.osBit (m.setBit C.globals.osRegionBitmap r v) r' =
      if r' / 64 = r / 64 then
        (maskedWord (Slot.read C m (.osBitmap (r / 64))) (bitmapMask r) v).getLsbD (r'.toNat % 64)
      else C.osBit m r' := by
  rw [osBit, setBit_osRegionBitmap, Slot.read_store64 C (C.valid_osBitmap hr') (C.valid_osBitmap hr)]
  by_cases h : r' / 64 = r / 64
  · rw [if_pos (by rw [h]), if_pos h]
  · rw [if_neg (fun e => h (Slot.osBitmap.inj e)), if_neg h, osBit]

/-- The other slots are not affected. -/
theorem read_setBit_osRegionBitmap {m : Memory} {r : Word} {v : Bool} {a : Slot} (hr : r.toNat < C.regionCount)
    (ha : a.Valid C) (h : ∀ k, a ≠ .osBitmap k) :
    Slot.read C (m.setBit C.globals.osRegionBitmap r v) a = Slot.read C m a := by
  rw [setBit_osRegionBitmap, Slot.read_store64 C ha (C.valid_osBitmap hr), if_neg (h _)]

end Config

/-! ### Memory in stripes -/

/-- The constants break an address down into stripes of `2 ^ k` bytes, of `2 ^ n` regions. -/
structure Striped (g : Globals) (k n : ℕ) : Prop where
  /-- The size of a stripe. -/
  stripeSize : g.dramStripeSize.toNat = 2 ^ k
  /-- The region index starts where the stripe ends. -/
  regionShift : g.dramRegionShift.toNat = k
  /-- The bits of the region index. -/
  regionMask : g.dramRegionMask.toNat = (2 ^ n - 1) * 2 ^ k
  /-- How many regions there are. -/
  regionCount : g.dramRegionCount.toNat = 2 ^ n
  /-- A stripe does not exceed an address. -/
  shift_lt : k < 64
  /-- The regions' structures fit in the address space. -/
  records_fit : 40 * 2 ^ n ≤ 2 ^ 64

namespace Striped

variable {g : Globals} {k n : ℕ}

/-- The constants that `boot_init_dram_regions` is to compute do so. -/
theorem of_config (C : Config) : Striped C.globals C.regionShift C.regionBits where
  stripeSize := C.toNat_dramStripeSize
  regionShift := by simp
  regionMask := C.toNat_dramRegionMask
  regionCount := by simp [Geometry.regionCount]
  shift_lt := by have := C.regionShift_add_lt; omega
  records_fit := by have := C.arrays_fit; omega

/-- `dram_region_for` takes the bits of the region index. -/
theorem toNat_dramRegionFor (hg : Striped g k n) (a : Word) :
    (dramRegionFor g a).toNat = a.toNat / 2 ^ k % 2 ^ n := by
  have hshift := hg.shift_lt
  unfold dramRegionFor
  rw [toNat_srl (by rw [hg.regionShift]; exact hshift), BitVec.toNat_and, hg.regionShift, hg.regionMask,
    Nat.and_div_two_pow, Nat.mul_div_cancel _ (Nat.two_pow_pos _), Nat.and_two_pow_sub_one_eq_mod]

theorem toNat_dramRegionFor_lt (hg : Striped g k n) (a : Word) : (dramRegionFor g a).toNat < 2 ^ n := by
  rw [hg.toNat_dramRegionFor]
  exact Nat.mod_lt _ (Nat.two_pow_pos _)

theorem isValidDramRegion_iff (hg : Striped g k n) {r : Word} :
    isValidDramRegion g r = true ↔ r.toNat < 2 ^ n := by
  rw [isValidDramRegion, decide_eq_true_iff, BitVec.lt_def, hg.regionCount]

/-- Regions have different structures. -/
theorem regionLock_inj (hg : Striped g k n) {r r' : Word} (hr : r.toNat < 2 ^ n) (hr' : r'.toNat < 2 ^ n)
    (h : g.regionLock r = g.regionLock r') : r = r' := by
  have hfit := hg.records_fit
  have e40 : regionInfoSize.toNat = 40 := rfl
  have hmul : regionInfoSize * r = regionInfoSize * r' := (BitVec.add_right_inj _).mp h
  have hlt : 40 * r.toNat < 2 ^ 64 := by omega
  have hlt' : 40 * r'.toNat < 2 ^ 64 := by omega
  have hnat : 40 * r.toNat % 2 ^ 64 = 40 * r'.toNat % 2 ^ 64 := by
    rw [← e40, ← BitVec.toNat_mul, ← BitVec.toNat_mul, hmul]
  rw [Nat.mod_eq_of_lt hlt, Nat.mod_eq_of_lt hlt'] at hnat
  exact BitVec.eq_of_toNat_eq (by omega)

theorem regionField_inj (hg : Striped g k n) {r r' : Word} (hr : r.toNat < 2 ^ n) (hr' : r'.toNat < 2 ^ n)
    (h : g.regionField .owner r = g.regionField .owner r') : r = r' :=
  hg.regionLock_inj hr hr' ((BitVec.add_left_inj _).mp h)

end Striped

theorem Config.regionLock_inj (C : Config) {r r' : Word} (hr : r.toNat < C.regionCount)
    (hr' : r'.toNat < C.regionCount)
    (h : C.globals.regionLock r = C.globals.regionLock r') : r = r' :=
  (Striped.of_config C).regionLock_inj hr hr' h

end Sanctum
