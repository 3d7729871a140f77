import Sanctum.Monitor.BootDramRegions
import Sanctum.Monitor.Metadata

/-!
# The slots of a page map

The entry of a page in the page map is to be at the page's index in its region. The index that
`dram_region_page_for` computes is not scaled by the size of an entry, which has eight bytes; so the
entries of eight consecutive pages share bytes. And the index of the stripe is shifted to the left
by a negative number, which puts it into the highest bits of a word.

## What is proved

* `distinctSlots_iff` — two pages of a region have entries of their own in the map exactly if their stripes
  have numbers that are multiples of the number of regions, and they are eight pages apart in their stripes.
* `slotted_of_index` — a page whose computed index is below `g_metadata_region_pages` has an entry in the map.
* `not_slotsDistinct` — the second and the third page of a region.
-/

namespace Sanctum

namespace MetadataSlots

variable (g : Globals)

/-! ### What is expected -/

/-- How many bits the index of a region has. -/
def regionBits : ℕ := (g.dramStripeShift - g.dramRegionShift).toNat

/-- How many pages a region has. -/
def regionPages : ℕ := g.dramSize.toNat / 2 ^ 12 / 2 ^ regionBits g

/-- The index of a page in its region, as `dram_region_page_for` is described. -/
def pageIndex (a : Word) : ℕ := (dramStripeFor g a).toNat * g.dramStripePages.toNat + (dramStripePageFor g a).toNat

/-- What `init_metadata_region` zeroes. -/
def mapBytes : ℕ := (sll g.metadataRegionStart pageShift).toNat

/-- Pages `a` and `b` have entries of their own in the map. -/
structure DistinctSlots (a b : Word) : Prop where
  /-- They have different indices. -/
  distinct : dramRegionPageFor g a ≠ dramRegionPageFor g b
  /-- The indices are below the number of pages in the region. -/
  below : ∀ c ∈ [a, b], (dramRegionPageFor g c).toNat < regionPages g
  /-- The entries have no byte in common. -/
  apart : Memory.Apart (metadataPageInfoFor g a) 8 (metadataPageInfoFor g b) 8
  /-- They lie in the pages that `init_metadata_region` zeroes. -/
  inMap : ∀ c ∈ [a, b], ∀ x, Memory.Within (metadataPageInfoFor g c) 8 x →
    Memory.Within (dramRegionStart g (dramRegionFor g c)) (mapBytes g) x

/-- A page that may be a metadata page, and has an index below `g_metadata_region_pages`. -/
structure IsPage (a : Word) : Prop where
  /-- It is the address of a page. -/
  aligned : isPageAligned a = true
  /-- The page is in DRAM. -/
  inDram : isDramAddress g a = true
  /-- Its region can be made a metadata region. -/
  dynamic : isDynamicDramRegion g (dramRegionFor g a) = true
  /-- Its index. -/
  index : pageIndex g a < g.metadataRegionPages.toNat

/-- Any two pages of a region have entries of their own in the map. -/
def SlotsDistinct (d : DramGlobals) : Prop :=
  ∀ g : Globals, g.toMetadataGlobals = bootInitMetadata d →
    ∀ a b, IsPage g a → IsPage g b → a ≠ b → dramRegionFor g a = dramRegionFor g b → DistinctSlots g a b

/-- When a page has an entry in the map. -/
structure Slotted (a : Word) : Prop where
  /-- The index of its stripe is a multiple of the number of regions. -/
  stripe : 2 ^ regionBits g ∣ (dramStripeFor g a).toNat
  /-- Its index in the stripe is below the number of pages in the region. -/
  page : (dramStripePageFor g a).toNat < regionPages g
  /-- At this index there are eight bytes left in the map. -/
  room : (dramStripePageFor g a).toNat + 8 ≤ mapBytes g

variable {g} {p : Platform} {d : DramGlobals} {a b : Word}

/-! ### The index -/

theorem toDramGlobals_eq (hg : g.toMetadataGlobals = bootInitMetadata d) : g.toDramGlobals = d := by
  rw [hg, bootInitMetadata]
  split <;> rfl

/-- The constants that matter. -/
theorem regionBits_of_boot (hd : bootInitDramRegions p = some d) (hg : g.toMetadataGlobals = bootInitMetadata d) :
    regionBits g = p.regionBits.toNat ∧ 0 < regionBits g ∧ regionBits g ≤ 48 := by
  obtain ⟨hpos, hle, rfl⟩ := regionBits_of_passes hd
  have hdram := toDramGlobals_eq hg
  have hbits : regionBits g = p.regionBits.toNat := by
    rw [regionBits, hdram]
    change (pageShift + p.stripePageBits + p.regionBits - (pageShift + p.stripePageBits)).toNat = _
    generalize pageShift + p.stripePageBits = x
    rw [BitVec.toNat_sub, BitVec.toNat_add]
    omega
  exact ⟨hbits, by omega, by omega⟩

/-- The amount by which the index of the stripe is shifted is negative. -/
theorem toNat_sll_stripe (hpos : 0 < regionBits g) (hle : regionBits g ≤ 48) (x : Word) :
    (sll x (g.dramRegionShift - g.dramStripeShift)).toNat =
      2 ^ (64 - regionBits g) * (x.toNat % 2 ^ regionBits g) := by
  have hamount : (g.dramRegionShift - g.dramStripeShift).toNat % 64 = 64 - regionBits g := by
    have hbits : (g.dramStripeShift - g.dramRegionShift).toNat = regionBits g := rfl
    rw [BitVec.toNat_sub] at hbits ⊢
    omega
  have hpow : (2 : ℕ) ^ 64 = 2 ^ (64 - regionBits g) * 2 ^ regionBits g := by
    rw [← pow_add]
    congr 1
    omega
  rw [sll, hamount, BitVec.toNat_shiftLeft, Nat.shiftLeft_eq, Nat.mul_comm, hpow, Nat.mul_mod_mul_left]

/-- An index is below the number of pages only if it is that of the page in its stripe. -/
theorem toNat_dramRegionPageFor_lt_iff (hpos : 0 < regionBits g) (hle : regionBits g ≤ 48) {n : ℕ}
    (hn : n ≤ regionPages g) :
    (dramRegionPageFor g a).toNat < n ↔
      2 ^ regionBits g ∣ (dramStripeFor g a).toNat ∧ (dramStripePageFor g a).toNat < n := by
  have hshifted := toNat_sll_stripe hpos hle (dramStripeFor g a)
  rw [dramRegionPageFor, BitVec.toNat_or, hshifted]
  constructor
  · intro h
    have hpages : regionPages g ≤ 2 ^ (64 - regionBits g) := by
      rw [regionPages, Nat.div_div_eq_div_mul]
      refine (Nat.div_lt_of_lt_mul ?_).le
      have hpow : (2 : ℕ) ^ 12 * 2 ^ regionBits g * 2 ^ (64 - regionBits g) = 2 ^ 76 := by
        rw [← pow_add, ← pow_add]
        congr 1
        omega
      omega
    have hstripe : (dramStripeFor g a).toNat % 2 ^ regionBits g = 0 := by
      by_contra hne
      have hone : 2 ^ (64 - regionBits g) ≤ 2 ^ (64 - regionBits g) *
        ((dramStripeFor g a).toNat % 2 ^ regionBits g) :=
        Nat.le_mul_of_pos_right _ (Nat.pos_of_ne_zero hne)
      have hor : _ ≤ _ := Nat.right_le_or (n := (dramStripePageFor g a).toNat)
        (m := 2 ^ (64 - regionBits g) * ((dramStripeFor g a).toNat % 2 ^ regionBits g))
      omega
    rw [hstripe, Nat.mul_zero, Nat.or_zero] at h
    exact ⟨Nat.dvd_of_mod_eq_zero hstripe, h⟩
  · rintro ⟨hstripe, hpage⟩
    rwa [Nat.mod_eq_zero_of_dvd hstripe, Nat.mul_zero, Nat.or_zero]

/-- The index is then that of the page in its stripe. -/
theorem dramRegionPageFor_eq (hpos : 0 < regionBits g) (hle : regionBits g ≤ 48)
    (hstripe : 2 ^ regionBits g ∣ (dramStripeFor g a).toNat) : dramRegionPageFor g a = dramStripePageFor g a := by
  apply BitVec.eq_of_toNat_eq
  rw [dramRegionPageFor, BitVec.toNat_or, toNat_sll_stripe hpos hle, Nat.mod_eq_zero_of_dvd hstripe, Nat.mul_zero,
    Nat.or_zero]

/-! ### The entry -/

/-- The region's start is what the entry's address is computed from. -/
theorem dramRegionStart_dramRegionFor (hd : bootInitDramRegions p = some d)
    (hg : g.toMetadataGlobals = bootInitMetadata d) :
    dramRegionStart g (dramRegionFor g a) = a &&& g.dramRegionMask := by
  obtain ⟨-, -, rfl⟩ := regionBits_of_passes hd
  have hmask : g.dramRegionMask = sll (oneShl p.regionBits - 1) g.dramRegionShift := by rw [toDramGlobals_eq hg]; rfl
  apply BitVec.eq_of_getLsbD_eq
  intro i hi
  rw [dramRegionStart, dramRegionFor, getLsbD_stripeMask _ _ hi, BitVec.getLsbD_and, hmask, sll,
    BitVec.getLsbD_shiftLeft]
  by_cases h : g.dramRegionShift.toNat % 64 ≤ i
  · rw [decide_eq_true h, Bool.true_and]
  · rw [decide_eq_false h, decide_eq_true (not_le.mp h)]
    simp

/-- An entry at index `i` lies in the map if there is room for it. -/
theorem within_map_iff {start i : Word} {n : ℕ} (hi : i.toNat < 2 ^ 63) :
    (∀ x, Memory.Within (start + i) 8 x → Memory.Within start n x) ↔ i.toNat + 8 ≤ n := by
  have hbyte (k : ℕ) (hk : k < 8) : (start + i + BitVec.ofNat 64 k - start).toNat = i.toNat + k := by
    have hsum : start + i + BitVec.ofNat 64 k = start + BitVec.ofNat 64 (i.toNat + k) := by
      rw [BitVec.ofNat_add, BitVec.ofNat_toNat, BitVec.setWidth_eq, BitVec.add_assoc]
    rw [hsum, Memory.toNat_add_sub (by omega)]
  constructor
  · intro h
    have hlast := h (start + i + BitVec.ofNat 64 7) (Memory.within_add (by omega) (by omega))
    rw [Memory.Within, hbyte 7 (by omega)] at hlast
    omega
  · intro h x hx
    obtain ⟨k, hk, rfl⟩ := Memory.exists_of_within hx
    rw [Memory.Within, hbyte k hk]
    omega

/-- Two entries at indices `i` and `j`. -/
theorem apart_slots_iff {start i j : Word} (hi : i.toNat < 2 ^ 63) (hj : j.toNat < 2 ^ 63) :
    Memory.Apart (start + i) 8 (start + j) 8 ↔ i.toNat + 8 ≤ j.toNat ∨ j.toNat + 8 ≤ i.toNat := by
  have hindex (i : Word) : start + i = start + BitVec.ofNat 64 i.toNat := by
    rw [BitVec.ofNat_toNat, BitVec.setWidth_eq]
  constructor
  · -- the first byte of the entry with the higher index would be in both
    intro h
    by_contra hnear
    rw [not_or, not_le, not_le] at hnear
    rw [hindex i, hindex j] at h
    rcases le_total i.toNat j.toNat with hle | hle
    · refine h (start + BitVec.ofNat 64 j.toNat) ?_ (by simpa using Memory.within_add (i := 0) (by omega) (by omega))
      rw [← Nat.add_sub_of_le hle, BitVec.ofNat_add, ← BitVec.add_assoc]
      exact Memory.within_add (by omega) (by omega)
    · refine h (start + BitVec.ofNat 64 i.toNat) (by simpa using Memory.within_add (i := 0) (by omega) (by omega)) ?_
      rw [← Nat.add_sub_of_le hle, BitVec.ofNat_add, ← BitVec.add_assoc]
      exact Memory.within_add (by omega) (by omega)
  · rw [hindex i, hindex j]
    rintro (hle | hle)
    · exact Memory.apart_add hle (by omega)
    · exact (Memory.apart_add hle (by omega)).symm

/-- The map has room for its entries. -/
theorem metadataRegionPages_le (hd : bootInitDramRegions p = some d)
    (hg : g.toMetadataGlobals = bootInitMetadata d) :
    g.metadataRegionPages.toNat ≤ regionPages g ∧ 8 * g.metadataRegionPages.toNat ≤ mapBytes g := by
  obtain ⟨-, hpos, hle⟩ := regionBits_of_boot hd hg
  have h8 : (8 : Word).toNat = 8 := rfl
  have h12 : pageShift.toNat = 12 := rfl
  have hbits : (g.dramStripeShift - g.dramRegionShift).toNat = regionBits g := rfl
  have hpages : (srl g.dramSize (g.dramStripeShift - g.dramRegionShift + pageShift)).toNat = regionPages g := by
    rw [toNat_srl_mod, BitVec.toNat_add, hbits, h12, regionPages, Nat.div_div_eq_div_mul, ← pow_add]
    congr 2
    omega
  have hlt : regionPages g < 2 ^ 52 := by
    have hle : regionPages g ≤ g.dramSize.toNat / 2 ^ 12 := Nat.div_le_self _ _
    omega
  -- what is rounded up to pages is the size of the map
  have hround (x : Word) (hx : x.toNat ≤ 8 * regionPages g) :
    x.toNat ≤ (sll (pagesNeededFor x) pageShift).toNat := by
    rw [toNat_sll_mod, toNat_pagesNeededFor (by omega), h12, show 2 ^ (12 % 64) = 4096 by rfl]
    omega
  have hsize : (srl g.dramSize (g.dramStripeShift - g.dramRegionShift + pageShift) * 8).toNat =
      8 * regionPages g := by
    rw [BitVec.toNat_mul, hpages, h8]
    omega
  rw [toDramGlobals_eq hg] at hpages hsize
  rw [mapBytes, hg, bootInitMetadata]
  split
  · next hlarge =>
    rw [gt_iff_lt, BitVec.lt_def, hsize] at hlarge
    have hmap := hround d.dramStripeSize hlarge.le
    dsimp only
    rw [BitVec.toNat_udiv, h8]
    omega
  · have hmap := hround _ hsize.le
    dsimp only
    omega

/-! ### When slots are distinct -/

theorem regionPages_lt (g : Globals) : regionPages g < 2 ^ 63 := by
  have hle : regionPages g ≤ g.dramSize.toNat / 2 ^ 12 := Nat.div_le_self _ _
  omega

/-- The entries of the second and the third page of region `1` are one byte apart. -/
theorem not_slotsDistinct :
    ¬ ∀ p d, bootInitDramRegions p = some d → SlotsDistinct d := by
  intro h
  have hslots := h _ _ bootInitDramRegions_twoRegionsPlatform twoRegions.globals rfl 0x81000 0x82000
    ⟨by decide, by decide, by decide, by decide⟩ ⟨by decide, by decide, by decide, by decide⟩ (by decide) (by decide)
  exact hslots.apart 0x80002 (by decide) (by decide)

/-- **Slots are distinct** if the pages have entries in the map that are eight pages apart. -/
theorem distinctSlots_iff (hd : bootInitDramRegions p = some d) (hg : g.toMetadataGlobals = bootInitMetadata d)
    (hregion : dramRegionFor g a = dramRegionFor g b) :
    DistinctSlots g a b ↔ Slotted g a ∧ Slotted g b ∧
      ((dramStripePageFor g a).toNat + 8 ≤ (dramStripePageFor g b).toNat ∨
        (dramStripePageFor g b).toNat + 8 ≤ (dramStripePageFor g a).toNat) := by
  obtain ⟨-, hpos, hle⟩ := regionBits_of_boot hd hg
  have hpages := regionPages_lt g
  have hstart (c : Word) : dramRegionStart g (dramRegionFor g c) = c &&& g.dramRegionMask :=
    dramRegionStart_dramRegionFor hd hg
  have hsame : a &&& g.dramRegionMask = b &&& g.dramRegionMask := by rw [← hstart, ← hstart, hregion]
  have hindex (c : Word) := toNat_dramRegionPageFor_lt_iff (g := g) (a := c) hpos hle le_rfl
  constructor
  · intro h
    have hin (c : Word) (hc : c ∈ [a, b]) : Slotted g c := by
      have hbelow := (hindex c).mp (h.below c hc)
      have hmap := h.inMap c hc
      rw [hstart, metadataPageInfoFor, dramRegionPageFor_eq hpos hle hbelow.1, within_map_iff (by omega)] at hmap
      exact ⟨hbelow.1, hbelow.2, hmap⟩
    have ha := hin a (by simp)
    have hb := hin b (by simp)
    have hapart := h.apart
    rw [metadataPageInfoFor, metadataPageInfoFor, dramRegionPageFor_eq hpos hle ha.stripe,
      dramRegionPageFor_eq hpos hle hb.stripe, hsame,
      apart_slots_iff (ha.page.trans hpages) (hb.page.trans hpages)] at hapart
    exact ⟨ha, hb, hapart⟩
  · rintro ⟨ha, hb, hapart⟩
    have hea := dramRegionPageFor_eq hpos hle ha.stripe
    have heb := dramRegionPageFor_eq hpos hle hb.stripe
    have hin (c : Word) (hc : c ∈ [a, b]) : Slotted g c := by
      rcases List.mem_pair.mp hc with rfl | rfl
      · exact ha
      · exact hb
    refine ⟨fun heq => ?_, fun c hc => (hindex c).mpr ⟨(hin c hc).stripe, (hin c hc).page⟩, ?_, fun c hc => ?_⟩
    · rw [← hea, ← heb, heq] at hapart
      omega
    · rw [metadataPageInfoFor, metadataPageInfoFor, hea, heb, hsame]
      exact (apart_slots_iff (ha.page.trans hpages) (hb.page.trans hpages)).mpr hapart
    · have hc := hin c hc
      rw [hstart, metadataPageInfoFor, dramRegionPageFor_eq hpos hle hc.stripe,
        within_map_iff (by have := hc.page; omega)]
      exact hc.room

/-- The second page and the tenth. -/
theorem distinctSlots_iff_twoRegions : DistinctSlots twoRegions.globals 0x81000 0x89000 :=
  (distinctSlots_iff bootInitDramRegions_twoRegionsPlatform rfl (by decide)).mpr
    ⟨⟨by decide, by decide, by decide⟩, ⟨by decide, by decide, by decide⟩, .inl (by decide)⟩

/-- **A page with an index below `g_metadata_region_pages`**, as it is computed, has an entry in the map. -/
theorem slotted_of_index (hd : bootInitDramRegions p = some d) (hg : g.toMetadataGlobals = bootInitMetadata d)
    (hindex : (dramRegionPageFor g a).toNat < g.metadataRegionPages.toNat) : Slotted g a := by
  obtain ⟨-, hpos, hle⟩ := regionBits_of_boot hd hg
  obtain ⟨hpages, hroom⟩ := metadataRegionPages_le hd hg
  obtain ⟨hstripe, hpage⟩ := (toNat_dramRegionPageFor_lt_iff hpos hle hpages).mp hindex
  exact ⟨hstripe, by omega, by omega⟩

end MetadataSlots

end Sanctum
