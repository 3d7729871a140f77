import Sanctum.Monitor.BootInit

/-!
# Which addresses are DRAM

`is_dram_address` says whether "a physical address belongs in DRAM". DRAM being the
`g_dram_size` bytes from `g_dram_base` on, it should accept an address `a` when
`g_dram_base ≤ a < g_dram_base + g_dram_size`; it asks for `g_dram_base < a < g_dram_size`.
Likewise `dram_region_start` should be an address in the region, but it leaves out the base.

For a single address the two agree unless it is the base, or lies past `g_dram_size`
(`addressClassified_iff`); a region's start is classified as it should be if the base is
below it (`regionClassified_iff`). Never are all of them, since region `0` starts at
address `0` (`never_classified`).

What is said of regions is about the constants that `boot_init_dram_regions` computes, so
long as none of its shifts of the `int` `1` reaches the sign bit: these are the constants of
a `Geometry` (`bootInitDramRegions_geometry`).
-/

namespace Sanctum

/-! ### Computed geometries -/

theorem oneShl_ne_zero (n : Word) : oneShl n ≠ 0 := by
  intro h
  have hbit := getLsbD_oneShl n (k := n.toNat % 32) (by omega)
  rw [h] at hbit
  simp at hbit

/-- The shifts of the `int` `1` in `boot_init_dram_regions` stay clear of the sign bit. -/
structure ShiftsFit (d : DramGlobals) : Prop where
  /-- A stripe has a page at least. -/
  page : 12 ≤ d.dramRegionShift.toNat
  /-- The region index lies above the stripe page index. -/
  le : d.dramRegionShift.toNat ≤ d.dramStripeShift.toNat
  /-- And below bit `31`. -/
  lt : d.dramStripeShift.toNat < 31

/-- What `boot_init_dram_regions` computes from the size and the two numbers of bits. -/
def Platform.globals (p : Platform) (regionBits stripePageBits : Word) : DramGlobals where
  dramBase := p.dramBase
  dramSize := p.dramSize
  dramRegionShift := pageShift + stripePageBits
  dramStripeShift := pageShift + stripePageBits + regionBits
  dramStripePageMask := stripePageMask stripePageBits
  dramRegionMask := sll (oneShl regionBits - 1) (pageShift + stripePageBits)
  dramStripeMask :=
    sll (srl (p.dramSize - 1) (pageShift + stripePageBits + regionBits)) (pageShift + stripePageBits + regionBits)
  dramRegionCount := oneShl regionBits
  dramStripeSize := oneShl (pageShift + stripePageBits)
  dramStripePages := oneShl stripePageBits
  dramRegionBitmapWords := (oneShl regionBits + 64 - 1) / 64

/-- A check that has not led to a panic. -/
theorem eq_some_of_check {α : Type} {c : Prop} [Decidable c] {panic x : Option α} {a : α}
    (h : (if c then panic else x) = some a) (hpanic : panic = none) : x = some a := by
  split at h
  · rw [hpanic] at h
    nomatch h
  · exact h

theorem exists_of_bootInitDramRegions {p : Platform} {d : DramGlobals} (h : bootInitDramRegions p = some d) :
    ∃ regionBits stripePageBits, d = p.globals regionBits stripePageBits := by
  have h := eq_some_of_check h rfl
  have h := eq_some_of_check h rfl
  have h := eq_some_of_check h rfl
  have h := eq_some_of_check h rfl
  have h := eq_some_of_check h rfl
  exact ⟨_, _, (Option.some.inj h).symm⟩

/-- A sum that is not below its first part has not wrapped. -/
theorem toNat_add_of_le {a b : Word} (h : a.toNat ≤ (a + b).toNat) : (a + b).toNat = a.toNat + b.toNat := by
  rw [BitVec.toNat_add] at *
  omega

theorem eq_ofNat_of_toNat {a : Word} {n : ℕ} (h : a.toNat = n) : a = BitVec.ofNat 64 n := by
  rw [← h, BitVec.ofNat_toNat, BitVec.setWidth_eq]

theorem toNat_stripePageMask {n : Word} (hn : n.toNat < 19) :
    (stripePageMask n).toNat = (2 ^ n.toNat - 1) * 2 ^ 12 := by
  have h : ∀ k, k < 19 →
      (((((1 : BitVec 32) <<< k) - 1) <<< 12).signExtend 64).toNat = (2 ^ k - 1) * 2 ^ 12 := by decide
  rw [stripePageMask, Nat.mod_eq_of_lt (by omega), h _ hn]

/-- **`boot_init_dram_regions` computes a geometry**, if its shifts fit. -/
theorem bootInitDramRegions_geometry {p : Platform} {d : DramGlobals} (h : bootInitDramRegions p = some d)
    (hfit : ShiftsFit d) : ∃ G : Geometry, d = G.globals := by
  obtain ⟨regionBits, stripePageBits, rfl⟩ := exists_of_bootInitDramRegions h
  have hshift : (pageShift + stripePageBits).toNat = 12 + stripePageBits.toNat := toNat_add_of_le hfit.page
  have hstripe : (pageShift + stripePageBits + regionBits).toNat = 12 + stripePageBits.toNat + regionBits.toNat :=
    (toNat_add_of_le hfit.le).trans (congrArg (· + regionBits.toNat) hshift)
  have hlt : 12 + stripePageBits.toNat + regionBits.toNat < 31 := hstripe ▸ hfit.lt
  have hcount : (oneShl regionBits).toNat = 2 ^ regionBits.toNat := toNat_oneShl (by omega)
  have hlarge : 2 ^ regionBits.toNat ≤ 2 ^ 31 := Nat.pow_le_pow_right (by omega) (by omega)
  have hpos : 0 < 2 ^ regionBits.toNat := Nat.two_pow_pos _
  have hregionMask : (2 ^ regionBits.toNat - 1) * 2 ^ (12 + stripePageBits.toNat) < 2 ^ 64 := by
    calc (2 ^ regionBits.toNat - 1) * 2 ^ (12 + stripePageBits.toNat)
        < 2 ^ regionBits.toNat * 2 ^ (12 + stripePageBits.toNat) :=
          Nat.mul_lt_mul_of_pos_right (by omega) (Nat.two_pow_pos _)
      _ = 2 ^ (regionBits.toNat + (12 + stripePageBits.toNat)) := (pow_add 2 _ _).symm
      _ ≤ 2 ^ 64 := Nat.pow_le_pow_right (by omega) (by omega)
  have hone : (oneShl regionBits - 1).toNat = 2 ^ regionBits.toNat - 1 := by
    have e : (1 : Word).toNat = 1 := rfl
    rw [BitVec.toNat_sub, hcount, e]
    omega
  have hwords : ((oneShl regionBits + 64 - 1) / 64).toNat = (2 ^ regionBits.toNat + 63) / 64 := by
    have e : oneShl regionBits + 64 - 1 = oneShl regionBits + 63 := by
      rw [BitVec.sub_eq_add_neg, BitVec.add_assoc]
      rfl
    have e1 : (63 : Word).toNat = 63 := rfl
    have e2 : (64 : Word).toNat = 64 := rfl
    rw [e, BitVec.toNat_udiv, BitVec.toNat_add, hcount, e1, e2]
    omega
  let G : Geometry := ⟨p.dramBase, p.dramSize, stripePageBits.toNat, regionBits.toNat, by omega⟩
  refine ⟨G, ?_⟩
  rw [Platform.globals, Geometry.globals, DramGlobals.mk.injEq]
  refine ⟨rfl, rfl, eq_ofNat_of_toNat hshift, eq_ofNat_of_toNat hstripe,
    eq_ofNat_of_toNat (toNat_stripePageMask (by omega)), eq_ofNat_of_toNat ?_, eq_ofNat_of_toNat ?_,
    eq_ofNat_of_toNat hcount, eq_ofNat_of_toNat ?_, eq_ofNat_of_toNat (toNat_oneShl (by omega)),
    eq_ofNat_of_toNat hwords⟩
  · rw [toNat_sll (by omega), hone, hshift, Nat.mod_eq_of_lt hregionMask]
    rfl
  · have hle : (p.dramSize - 1).toNat / 2 ^ (12 + stripePageBits.toNat + regionBits.toNat) *
        2 ^ (12 + stripePageBits.toNat + regionBits.toNat) ≤ (p.dramSize - 1).toNat := Nat.div_mul_le_self _ _
    rw [toNat_sll (by omega), toNat_srl (by omega), hstripe, Nat.mod_eq_of_lt (lt_of_le_of_lt hle (BitVec.isLt _))]
    rfl
  · rw [toNat_oneShl (by omega), hshift]
    rfl

/-! ### What should be accepted, and what is -/

namespace DramClassification

variable (g : Globals)

/-- `is_dram_address` is right about `a`. -/
def AddressClassified (a : Word) : Prop :=
  isDramAddress g a = true ↔ g.dramBase.toNat ≤ a.toNat ∧ a.toNat < g.dramBase.toNat + g.dramSize.toNat

/-- The start of region `r` is an address in DRAM, and in region `r`. -/
structure RegionClassified (r : Word) : Prop where
  /-- It is taken for an address in DRAM. -/
  accepted : isDramAddress g (dramRegionStart g r) = true
  /-- It is taken for an address in region `r`. -/
  found : dramRegionFor g (dramRegionStart g r) = r

/-- All addresses and the starts of all regions are classified as they should be. -/
structure Classified : Prop where
  /-- All addresses. -/
  address : ∀ a, AddressClassified g a
  /-- All regions. -/
  region : ∀ r, isValidDramRegion g r = true → RegionClassified g r

variable {g}

theorem isDramAddress_iff {a : Word} :
    isDramAddress g a = true ↔ g.dramBase.toNat < a.toNat ∧ a.toNat < g.dramSize.toNat := by
  rw [isDramAddress, Bool.and_eq_true, decide_eq_true_iff, decide_eq_true_iff, BitVec.lt_def, gt_iff_lt,
    BitVec.lt_def, and_comm]

/-- `is_dram_address` is wrong about the base, and about what is in DRAM past `g_dram_size`. -/
theorem addressClassified_iff {a : Word} :
    AddressClassified g a ↔ ¬ (a = g.dramBase ∧ 0 < g.dramSize.toNat) ∧
      ¬ (g.dramSize.toNat ≤ a.toNat ∧ g.dramBase.toNat ≤ a.toNat ∧
        a.toNat < g.dramBase.toNat + g.dramSize.toNat) := by
  rw [AddressClassified, isDramAddress_iff, ← BitVec.toNat_inj]
  omega

/-- Region arithmetic does not look beyond the constants. -/
theorem dramRegionFor_dramRegionStart {G : Geometry} (hG : g.toDramGlobals = G.globals) (hbits : G.regionBits < 58)
    {r : Word} (hr : r.toNat < G.regionCount) :
    (dramRegionStart g r).toNat = r.toNat * G.stripeSize ∧ dramRegionFor g (dramRegionStart g r) = r := by
  have hle : 2 ^ G.regionBits ≤ 2 ^ 57 := Nat.pow_le_pow_right (by omega) (by omega)
  let C : Config := ⟨G, 0, by have e : (0 : Word).toNat = 0 := rfl; rw [e]; omega⟩
  have hC : g.toDramGlobals = C.globals.toDramGlobals := hG.trans (Config.toDramGlobals_globals C).symm
  have hstart : dramRegionStart g r = dramRegionStart C.globals r := by
    rw [dramRegionStart, dramRegionStart, hC]
  have hfor : ∀ a, dramRegionFor g a = dramRegionFor C.globals a := by
    intro a
    rw [dramRegionFor, dramRegionFor, hC]
  rw [hfor, hstart]
  have htoNat := C.toNat_dramRegionStart (r := r) hr
  refine ⟨htoNat, BitVec.eq_of_toNat_eq ?_⟩
  have hpos : 0 < C.stripeSize := Nat.two_pow_pos _
  rw [C.toNat_dramRegionFor, htoNat, Nat.mul_div_cancel _ hpos,
    Nat.mod_eq_of_lt hr]

/-- The base is left out, so a region is classified as it should be only if it starts past
the base. -/
theorem regionClassified_iff {p : Platform} (h : bootInitDramRegions p = some g.toDramGlobals)
    (hfit : ShiftsFit g.toDramGlobals) {r : Word} (hr : isValidDramRegion g r = true) :
    RegionClassified g r ↔ g.dramBase.toNat < r.toNat * g.dramStripeSize.toNat ∧
      r.toNat * g.dramStripeSize.toNat < g.dramSize.toNat := by
  obtain ⟨G, hG⟩ := bootInitDramRegions_geometry h hfit
  have hlt := hfit.lt
  rw [hG] at hlt
  have hstripe : G.globals.dramStripeShift.toNat = G.regionShift + G.regionBits :=
    Nat.mod_eq_of_lt (lt_trans G.regionShift_add_lt (by omega))
  have hr' : r.toNat < G.regionCount := by
    rw [isValidDramRegion, decide_eq_true_iff, BitVec.lt_def, hG, G.toNat_dramRegionCount] at hr
    exact hr
  have hsize : g.dramStripeSize.toNat = G.stripeSize := by
    rw [hG]
    exact Nat.mod_eq_of_lt (Nat.pow_lt_pow_right (by omega) (lt_of_le_of_lt (Nat.le_add_right _ _) G.regionShift_add_lt))
  obtain ⟨hstart, hfound⟩ := dramRegionFor_dramRegionStart hG (by omega) hr'
  rw [hsize, ← hstart]
  exact ⟨fun hc => isDramAddress_iff.mp hc.accepted, fun hb => ⟨isDramAddress_iff.mpr hb, hfound⟩⟩

/-- **DRAM is never classified as it should be**, whatever the platform: region `0` starts at
address `0`, which is above no base. A single address is unless it is the base or lies past
`g_dram_size`, and a region is if it starts past the base and below `g_dram_size`. -/
theorem never_classified {p : Platform} (h : bootInitDramRegions p = some g.toDramGlobals) :
    ¬ Classified g ∧
    (∀ a, AddressClassified g a ↔ ¬ (a = g.dramBase ∧ 0 < g.dramSize.toNat) ∧
      ¬ (g.dramSize.toNat ≤ a.toNat ∧ g.dramBase.toNat ≤ a.toNat ∧
        a.toNat < g.dramBase.toNat + g.dramSize.toNat)) ∧
    (ShiftsFit g.toDramGlobals → ∀ r, isValidDramRegion g r = true →
      (RegionClassified g r ↔ g.dramBase.toNat < r.toNat * g.dramStripeSize.toNat ∧
        r.toNat * g.dramStripeSize.toNat < g.dramSize.toNat)) := by
  refine ⟨fun hc => ?_, fun a => addressClassified_iff, fun hfit r hr => regionClassified_iff h hfit hr⟩
  obtain ⟨regionBits, stripePageBits, hg⟩ := exists_of_bootInitDramRegions h
  have hcount : g.dramRegionCount = oneShl regionBits := by rw [hg]; rfl
  have hzero : isValidDramRegion g 0 = true := by
    rw [isValidDramRegion, decide_eq_true_iff, hcount, BitVec.lt_def]
    exact Nat.pos_of_ne_zero fun h => oneShl_ne_zero regionBits (BitVec.eq_of_toNat_eq h)
  have hstart : dramRegionStart g 0 = 0 := by simp [dramRegionStart, sll]
  have haccepted := (hc.region 0 hzero).accepted
  rw [hstart, isDramAddress_iff] at haccepted
  exact absurd haccepted.1 (by simp)

/-- The constants of the hard-wired platform, with one core. -/
def hardWiredGlobals : Globals := layOutArrays (bootInitMetadata hardWiredGeometry.globals) 1 bootInitMonitorTop

theorem never_classified_hardWired : ¬ Classified hardWiredGlobals ∧ ¬ RegionClassified hardWiredGlobals 1 := by
  have hfit : ShiftsFit hardWiredGlobals.toDramGlobals := ⟨by decide, by decide, by decide⟩
  obtain ⟨hnever, -, hregion⟩ := never_classified (p := hardWiredPlatform) (g := hardWiredGlobals) (by decide +kernel)
  exact ⟨hnever, fun h => absurd ((hregion hfit 1 (by decide)).mp h).1 (by decide)⟩

/-- On the hard-wired platform no address at all is taken for one in DRAM. -/
theorem isDramAddress_hardWired (a : Word) : isDramAddress hardWiredGlobals a = false := by
  rw [← Bool.not_eq_true, isDramAddress_iff]
  have hbase : hardWiredGlobals.dramBase.toNat = 2147483648 := by decide
  have hsize : hardWiredGlobals.dramSize.toNat = 2147483648 := by decide
  omega

/-- There the base is a multiple of the regions' span, and neither the base is accepted nor the
start of a region. -/
theorem not_classified :
    bootInitDramRegions hardWiredPlatform = some hardWiredGlobals.toDramGlobals ∧
    hardWiredGlobals.dramBase.toNat % 2 ^ hardWiredGlobals.dramStripeShift.toNat = 0 ∧
    ¬ AddressClassified hardWiredGlobals 0x80000000 ∧ ¬ Classified hardWiredGlobals := by
  have haddress : ¬ AddressClassified hardWiredGlobals 0x80000000 := by
    intro h
    have haccepted := h.mpr ⟨by decide, by decide⟩
    rw [isDramAddress_hardWired] at haccepted
    nomatch haccepted
  exact ⟨by decide +kernel, by decide, haddress, fun h => haddress (h.address _)⟩

end DramClassification

end Sanctum
