import Mathlib.Tactic.Ring
import Sanctum.Monitor.Layout
import Sanctum.Monitor.MetadataSpec

/-!
# Where the entries of a page map are

The parts of an address as numbers, and with them the address that
`metadata_page_info_for` computes. It is the start of the page's region plus
`dram_region_page_for` — so the entries, of eight bytes each, are one byte apart — and
`dram_region_page_for` shifts the stripe index to the left by a negative number of bits,
which the machine takes for a large one (`toNat_dramRegionPageFor`).

All that `create_enclave` writes lies above the first stripe (`createdState_mem`): it
writes the entries of the enclave's pages and the `enclave_info_t`, both of a region
other than region `0`.
-/

namespace Sanctum

namespace Config

variable (C : Config)

/-! ### The parts of an address -/

/-- The index of the page in its stripe. -/
def stripePage (a : Word) : ℕ := a.toNat / 4096 % 2 ^ C.stripePageBits

/-- The index of the stripe. -/
def stripe (a : Word) : ℕ := a.toNat / 2 ^ (C.regionShift + C.regionBits)

/-- The region of an address, as a number. -/
def region (a : Word) : ℕ := a.toNat / C.stripeSize % C.regionCount

/-- The stripe of an address ends where memory ends or before. -/
theorem stripe_end_le (a : Word) : C.stripeSize * (a.toNat / C.stripeSize) + C.stripeSize ≤ 2 ^ 64 := by
  have hs := C.regionShift_add_lt
  have hpow : 2 ^ 64 = C.stripeSize * 2 ^ (64 - C.regionShift) := by
    rw [Geometry.stripeSize, ← pow_add, Nat.add_sub_cancel' (by omega)]
  have hlt : a.toNat / C.stripeSize < 2 ^ (64 - C.regionShift) := Nat.div_lt_of_lt_mul (hpow ▸ a.isLt)
  calc C.stripeSize * (a.toNat / C.stripeSize) + C.stripeSize
      = C.stripeSize * (a.toNat / C.stripeSize + 1) := (Nat.mul_succ _ _).symm
    _ ≤ C.stripeSize * 2 ^ (64 - C.regionShift) := Nat.mul_le_mul_left _ hlt
    _ = 2 ^ 64 := hpow.symm

/-- Where a page-aligned address is in its stripe. -/
theorem mod_stripeSize {a : Word} (ha : isPageAligned a = true) :
    a.toNat % C.stripeSize = 4096 * C.stripePage a := by
  rw [isPageAligned_iff] at ha
  rw [C.stripeSize_eq, Nat.mod_mul, ha, Nat.zero_add]
  rfl

/-- A page-aligned address is put together from its parts. -/
theorem toNat_eq_parts {a : Word} (ha : isPageAligned a = true) :
    a.toNat = C.stripe a * (C.regionCount * C.stripeSize) + C.region a * C.stripeSize + 4096 * C.stripePage a := by
  have hpage := C.mod_stripeSize ha
  have hregion : a.toNat / C.stripeSize = C.regionCount * C.stripe a + C.region a := by
    rw [stripe, ← C.regionCount_mul_stripeSize, Nat.mul_comm C.regionCount C.stripeSize, ← Nat.div_div_eq_div_mul]
    exact (Nat.div_add_mod _ _).symm
  have h := Nat.div_add_mod a.toNat C.stripeSize
  rw [hpage, hregion] at h
  rw [← h]
  ring

theorem stripePage_lt (a : Word) : C.stripePage a < 2 ^ C.stripePageBits := Nat.mod_lt _ (Nat.two_pow_pos _)

theorem region_lt (a : Word) : C.region a < C.regionCount := Nat.mod_lt _ C.regionCount_pos

/-- If there is a second region, a region index has bits. -/
theorem regionBits_pos {a : Word} (h : C.region a ≠ 0) : 0 < C.regionBits := by
  by_contra h0
  have hlt := C.region_lt a
  rw [Geometry.regionCount, Nat.eq_zero_of_not_pos h0] at hlt
  omega

theorem toNat_dramStripePageFor (a : Word) : (dramStripePageFor C.globals a).toNat = C.stripePage a := by
  have hs := C.regionShift_add_lt
  have hmask : C.globals.dramStripePageMask.toNat = (2 ^ C.stripePageBits - 1) * 2 ^ 12 := by
    rw [toDramGlobals_globals]
    have hle : (2 ^ C.stripePageBits - 1) * 2 ^ 12 < 2 ^ 64 := by
      calc (2 ^ C.stripePageBits - 1) * 2 ^ 12
          < 2 ^ C.stripePageBits * 2 ^ 12 :=
            Nat.mul_lt_mul_of_pos_right (Nat.sub_lt (Nat.two_pow_pos _) (by omega)) (Nat.two_pow_pos _)
        _ = 2 ^ (C.stripePageBits + 12) := (pow_add 2 _ _).symm
        _ ≤ 2 ^ 64 := Nat.pow_le_pow_right (by omega) (by unfold Geometry.regionShift at hs; omega)
    simp only [Geometry.globals, BitVec.toNat_ofNat]
    exact Nat.mod_eq_of_lt hle
  have e : pageShift.toNat = 12 := rfl
  rw [dramStripePageFor, toNat_srl (by decide), BitVec.toNat_and, hmask, e, Nat.and_div_two_pow,
    Nat.mul_div_cancel _ (Nat.two_pow_pos _), Nat.and_two_pow_sub_one_eq_mod]
  rfl

theorem toNat_dramStripeFor (a : Word) : (dramStripeFor C.globals a).toNat = C.stripe a := by
  have hs := C.regionShift_add_lt
  have hshift : C.globals.dramStripeShift.toNat = C.regionShift + C.regionBits := by
    rw [toDramGlobals_globals]
    exact Nat.mod_eq_of_lt (by omega)
  rw [dramStripeFor, toNat_srl (by omega), hshift]
  rfl

/-- `phys_addr & g_dram_region_mask` is the start of the region. -/
theorem toNat_and_dramRegionMask (a : Word) :
    (a &&& C.globals.dramRegionMask).toNat = C.region a * C.stripeSize := by
  have hregion := C.toNat_dramRegionFor a
  have hs := C.regionShift_add_lt
  have hshift : C.globals.dramRegionShift.toNat = C.regionShift := by simp
  rw [dramRegionFor, toNat_srl (by omega), hshift] at hregion
  -- the low bits of the mask are clear
  have hlow : (a &&& C.globals.dramRegionMask).toNat % 2 ^ C.regionShift = 0 := by
    rw [BitVec.toNat_and, Nat.and_mod_two_pow]
    have hmask : C.globals.dramRegionMask.toNat % 2 ^ C.regionShift = 0 := by
      rw [toDramGlobals_globals]
      simp only [Geometry.globals, BitVec.toNat_ofNat]
      rw [Nat.mod_mod_of_dvd _ (Nat.pow_dvd_pow 2 (by omega))]
      exact Nat.mul_mod_left _ _
    rw [hmask, Nat.and_zero]
  have h := Nat.div_add_mod (a &&& C.globals.dramRegionMask).toNat (2 ^ C.regionShift)
  rw [hregion, hlow, Nat.add_zero, Nat.mul_comm] at h
  exact h.symm

/-- The stripe index goes to the highest `regionBits` bits. -/
theorem toNat_dramRegionPageFor (a : Word) (hbits : 0 < C.regionBits) :
    (dramRegionPageFor C.globals a).toNat =
      C.stripePage a + 2 ^ (64 - C.regionBits) * (C.stripe a % 2 ^ C.regionBits) := by
  have hs := C.regionShift_add_lt
  have hamount : (C.globals.dramRegionShift - C.globals.dramStripeShift).toNat % 64 = 64 - C.regionBits := by
    rw [toDramGlobals_globals]
    simp only [Geometry.globals, BitVec.toNat_sub, BitVec.toNat_ofNat]
    omega
  have hpow : (2 : ℕ) ^ 64 = 2 ^ (64 - C.regionBits) * 2 ^ C.regionBits := by
    rw [← pow_add]
    congr 1
    omega
  have hshifted : (sll (dramStripeFor C.globals a) (C.globals.dramRegionShift - C.globals.dramStripeShift)).toNat =
      2 ^ (64 - C.regionBits) * (C.stripe a % 2 ^ C.regionBits) := by
    rw [sll, hamount, BitVec.toNat_shiftLeft, Nat.shiftLeft_eq, toNat_dramStripeFor, Nat.mul_comm, hpow,
      Nat.mul_mod_mul_left]
  have hlt : C.stripePage a < 2 ^ (64 - C.regionBits) :=
    lt_of_lt_of_le (C.stripePage_lt a)
      (Nat.pow_le_pow_right (by omega) (by unfold Geometry.regionShift at hs; omega))
  rw [dramRegionPageFor, BitVec.toNat_or, toNat_dramStripePageFor, hshifted, Nat.or_comm,
    ← Nat.two_pow_add_eq_or_of_lt hlt, Nat.add_comm]

/-- The entries of a region do not run into those of a stripe above. -/
theorem pageIndex_bound (a : Word) :
    (C.region a + 1) * C.stripeSize + 2 ^ (64 - C.regionBits) * (C.stripe a % 2 ^ C.regionBits) ≤ 2 ^ 64 := by
  have hs := C.regionShift_add_lt
  have hregion : (C.region a + 1) * C.stripeSize ≤ 2 ^ (C.regionShift + C.regionBits) := by
    rw [← C.regionCount_mul_stripeSize]
    exact Nat.mul_le_mul_right _ (C.region_lt a)
  have hmod : C.stripe a % 2 ^ C.regionBits + 1 ≤ 2 ^ C.regionBits := Nat.mod_lt _ (Nat.two_pow_pos _)
  rcases le_or_gt (C.regionShift + C.regionBits) (64 - C.regionBits) with hle | hlt
  · calc (C.region a + 1) * C.stripeSize + 2 ^ (64 - C.regionBits) * (C.stripe a % 2 ^ C.regionBits)
        ≤ 2 ^ (64 - C.regionBits) + 2 ^ (64 - C.regionBits) * (C.stripe a % 2 ^ C.regionBits) :=
          Nat.add_le_add_right (hregion.trans (Nat.pow_le_pow_right (by omega) hle)) _
      _ = 2 ^ (64 - C.regionBits) * (C.stripe a % 2 ^ C.regionBits + 1) := by ring
      _ ≤ 2 ^ (64 - C.regionBits) * 2 ^ C.regionBits := Nat.mul_le_mul_left _ hmod
      _ = 2 ^ 64 := by rw [← pow_add]; congr 1; omega
  · -- there are too few stripes to reach the highest bit
    have hstripe : C.stripe a ≤ 2 ^ (64 - (C.regionShift + C.regionBits)) := by
      refine (Nat.div_lt_of_lt_mul ?_).le
      rw [← pow_add, show C.regionShift + C.regionBits + (64 - (C.regionShift + C.regionBits)) = 64 by omega]
      exact a.isLt
    calc (C.region a + 1) * C.stripeSize + 2 ^ (64 - C.regionBits) * (C.stripe a % 2 ^ C.regionBits)
        ≤ 2 ^ 63 + 2 ^ (64 - C.regionBits) * 2 ^ (64 - (C.regionShift + C.regionBits)) :=
          Nat.add_le_add (hregion.trans (Nat.pow_le_pow_right (by omega) (by omega)))
            (Nat.mul_le_mul_left _ ((Nat.mod_le _ _).trans hstripe))
      _ ≤ 2 ^ 63 + 2 ^ 63 := by
          rw [← pow_add]
          exact Nat.add_le_add_left (Nat.pow_le_pow_right (by omega) (by omega)) _
      _ = 2 ^ 64 := by omega

/-- Where a page's entry is. -/
theorem toNat_metadataPageInfoFor (a : Word) (hbits : 0 < C.regionBits) :
    (metadataPageInfoFor C.globals a).toNat = C.region a * C.stripeSize + (dramRegionPageFor C.globals a).toNat := by
  have hbound := C.pageIndex_bound a
  have hpage := C.stripePage_lt a
  have hsize := C.stripeSize_eq
  rw [metadataPageInfoFor, BitVec.toNat_add, toNat_and_dramRegionMask, C.toNat_dramRegionPageFor a hbits]
  refine Nat.mod_eq_of_lt ?_
  rw [Nat.add_mul, Nat.one_mul] at hbound
  omega

/-- There is room in the map for an entry of each page. -/
theorem eight_mul_pages_le : 8 * C.globals.metadataRegionPages.toNat ≤ C.mapBytes := by
  have hs := C.regionShift_add_lt
  have hle := C.stripeSize_le
  have hsize : C.toGeometry.globals.dramStripeSize.toNat = C.stripeSize := by
    rw [← C.toDramGlobals_globals, C.toNat_dramStripeSize]
  have hpages : ∀ n, (srl C.toGeometry.globals.dramSize
      (C.toGeometry.globals.dramStripeShift - C.toGeometry.globals.dramRegionShift + pageShift)).toNat = n →
      n < 2 ^ 52 := by
    rintro _ rfl
    have hamount : (C.toGeometry.globals.dramStripeShift - C.toGeometry.globals.dramRegionShift + pageShift).toNat =
        C.regionBits + 12 := by
      have e : pageShift.toNat = 12 := rfl
      simp only [Geometry.globals, BitVec.toNat_sub, BitVec.toNat_add, BitVec.toNat_ofNat, e]
      unfold Geometry.regionShift at *
      omega
    unfold Geometry.regionShift at hs
    rw [toNat_srl (by omega), hamount]
    calc C.toGeometry.globals.dramSize.toNat / 2 ^ (C.regionBits + 12)
        ≤ C.toGeometry.globals.dramSize.toNat / 2 ^ 12 :=
          Nat.div_le_div_left (Nat.pow_le_pow_right (by omega) (by omega)) (by omega)
      _ < 2 ^ 52 := by omega
  rw [C.mapBytes_eq.1]
  unfold globals bootInitMetadata
  dsimp only
  split
  · dsimp only
    have e : (8 : Word).toNat = 8 := rfl
    rw [toNat_pagesNeededFor (by omega), BitVec.toNat_udiv, hsize, e]
    omega
  · dsimp only
    generalize hn : srl C.toGeometry.globals.dramSize _ = n
    have hlt := hpages n.toNat (congrArg BitVec.toNat hn)
    have e : (8 : Word).toNat = 8 := rfl
    have hmul : (n * 8).toNat = 8 * n.toNat := by
      rw [BitVec.toNat_mul, e, Nat.mod_eq_of_lt (by omega), Nat.mul_comm]
    rw [toNat_pagesNeededFor (by omega), hmul]
    omega

/-- A page that has an entry is a page of stripe `0`, or of one that is taken for it. -/
theorem stripePage_of_index {a : Word} (hbits : 0 < C.regionBits)
    (h : (dramRegionPageFor C.globals a).toNat < C.globals.metadataRegionPages.toNat) :
    C.stripePage a = (dramRegionPageFor C.globals a).toNat := by
  have hs := C.regionShift_add_lt
  have hpages := C.eight_mul_pages_le.trans C.mapBytes_eq.2
  have hstripe : C.stripeSize ≤ 2 ^ (64 - C.regionBits) := Nat.pow_le_pow_right (by omega) (by omega)
  rw [C.toNat_dramRegionPageFor a hbits] at h ⊢
  have hzero : C.stripe a % 2 ^ C.regionBits = 0 := by
    by_contra hne
    have hone : 2 ^ (64 - C.regionBits) ≤ 2 ^ (64 - C.regionBits) * (C.stripe a % 2 ^ C.regionBits) :=
      Nat.le_mul_of_pos_right _ (Nat.pos_of_ne_zero hne)
    omega
  rw [hzero]
  omega

end Config

/-! ### What `create_enclave` writes -/

section Created

variable {C : Config} {m : Memory} {s : Machine} {e b : Word}

/-- `assign_metadata_pages` writes the entries of its pages, and of one page if there are none. -/
theorem pagesMem_of_not_within {g : Globals} {a pageCount owner type : Word} (hcount : pageCount.toNat ≤ 2 ^ 60)
    (hb : ¬ Memory.Within (metadataPageInfoFor g a) (8 * max 1 pageCount.toNat) b) :
    pagesMem g m a pageCount owner type b = m b := by
  have hfirst : m.store64 (metadataPageInfoFor g a) (metadataPageInfo owner type) b = m b :=
    Memory.store64_of_not_within fun h => hb (h.mono (by omega))
  rw [pagesMem, ← hfirst]
  refine Prog.iterUp_induction
    (P := fun _ (m' : Memory) => m' b = m.store64 (metadataPageInfoFor g a) (metadataPageInfo owner type) b)
    rfl fun j m' _ hj ih => ?_
  rw [← ih]
  exact Memory.store64_of_not_within fun h => hb (h.of_add (by omega) (by omega))

/-- It marks the entry of the first page, and those of the others but the last. -/
theorem pagesMem_mark_ne_zero {g : Globals} {a pageCount owner type : Word} {i : ℕ}
    (hcount : pageCount.toNat < 2 ^ 52) (hinfo : (metadataPageInfo owner type).setWidth 8 ≠ 0)
    (hi : i = 0 ∨ i + 1 < pageCount.toNat) :
    pagesMem g m a pageCount owner type (metadataPageInfoFor g a + BitVec.ofNat 64 (8 * i)) ≠ 0 := by
  have hfirst : ∀ i, i = 0 ∨ i + 1 < 1 → m.store64 (metadataPageInfoFor g a) (metadataPageInfo owner type)
      (metadataPageInfoFor g a + BitVec.ofNat 64 (8 * i)) ≠ 0 := by
    intro i hi
    obtain rfl : i = 0 := by omega
    rw [Nat.mul_zero, BitVec.add_zero, Memory.store64_self]
    exact hinfo
  refine Prog.iterUp_induction (P := fun k (m' : Memory) => ∀ i, i = 0 ∨ i + 1 < k →
    m' (metadataPageInfoFor g a + BitVec.ofNat 64 (8 * i)) ≠ 0) hfirst (fun j m' hj hjn ih i hi => ?_) i (by omega)
  by_cases heq : i = j - 1
  · rw [heq, Memory.store64_self]
    decide
  · rw [Memory.store64_of_not_within]
    · exact ih i (by omega)
    · intro h
      obtain ⟨k, hk, hbyte⟩ := Memory.exists_of_within h
      rw [BitVec.add_assoc, BitVec.add_right_inj, ← BitVec.ofNat_add] at hbyte
      have hnat := congrArg BitVec.toNat hbyte
      rw [BitVec.toNat_ofNat, BitVec.toNat_ofNat] at hnat
      omega

/-- The fields of an `enclave_info_t` lie in it. -/
theorem within_enclaveField {f : EnclaveField} (h : Memory.Within (enclaveField f e) 8 b) :
    Memory.Within e enclaveInfoStructSize.toNat b := by
  have hfield : enclaveField f e = e + BitVec.ofNat 64 f.offset.toNat := by cases f <;> rfl
  have hoffset : f.offset.toNat + 8 ≤ 80 := by cases f <;> decide
  have hsize : enclaveInfoStructSize.toNat = 304 := rfl
  exact (hfield ▸ h).of_add (by omega) (by omega)

theorem within_hashBlock {n : ℕ} (hn : n ≤ hashBlockSize) (h : Memory.Within (enclaveHashBlock e) n b) :
    Memory.Within e enclaveInfoStructSize.toNat b := by
  have hsize : enclaveInfoStructSize.toNat = 304 := rfl
  have hblock : hashBlockSize = 64 := rfl
  exact Memory.Within.of_add (i := 240) h (by omega) (by omega)

theorem within_blockField {f : BlockField} (h : Memory.Within (blockField f e) 8 b) :
    Memory.Within e enclaveInfoStructSize.toNat b := by
  have hindex : f.index ≤ 6 := by cases f <;> decide
  refine within_hashBlock le_rfl (Memory.Within.of_add h ?_ (by decide))
  have hblock : hashBlockSize = 64 := rfl
  omega

/-- `init_enclave_info` writes an `enclave_info_t`. -/
theorem initInfoState_mem_of_not_within {evBase evMask mailboxCount : Word} {debug : Bool}
    (hb : ¬ Memory.Within e enclaveInfoStructSize.toNat b) :
    (initInfoState s e evBase evMask mailboxCount debug).mem b = s.mem b := by
  have hzero : ∀ p ∈ zeroBlockStores e [.ptr1, .ptr2, .size1, .size2], ¬ Memory.Within p.1 8 b := by
    intro p hp h
    obtain ⟨f, -, rfl⟩ := List.mem_map.mp hp
    exact hb (within_blockField h)
  have hblock : ∀ p ∈ initBlockStores e evBase evMask mailboxCount debug, ¬ Memory.Within p.1 8 b := by
    intro p hp h
    have hfield : ∃ f, p.1 = blockField f e := by
      simp only [initBlockStores, List.mem_cons, List.not_mem_nil, or_false] at hp
      rcases hp with rfl | rfl | rfl | rfl | rfl <;> exact ⟨_, rfl⟩
    obtain ⟨f, hf⟩ := hfield
    exact hb (within_blockField (hf ▸ h))
  have hinfo : ∀ p ∈ enclaveInfoStores e evBase evMask mailboxCount debug, ¬ Memory.Within p.1 8 b := by
    intro p hp h
    have hfield : ∃ f, p.1 = enclaveField f e := by
      simp only [enclaveInfoStores, List.mem_cons, List.not_mem_nil, or_false] at hp
      rcases hp with rfl | rfl | rfl | rfl | rfl | rfl | rfl | rfl | rfl <;> exact ⟨_, rfl⟩
    obtain ⟨f, hf⟩ := hfield
    exact hb (within_enclaveField (hf ▸ h))
  unfold initInfoState initHashState
  dsimp only
  rw [Memory.storeAll_of_not_within hzero, Memory.storeAll_of_not_within hblock,
    Memory.zeroed_of_not_within fun h => hb (within_hashBlock le_rfl h), Memory.storeAll_of_not_within hinfo]

/-- `create_enclave` writes the entries of its pages and an `enclave_info_t`. -/
theorem createdState_mem_of_not_within {g : Globals} {evBase evMask mailboxCount : Word} {debug : Bool}
    (hcount : (enclaveInfoPages g mailboxCount).toNat ≤ 2 ^ 60)
    (hentries : ¬ Memory.Within (metadataPageInfoFor g e) (8 * max 1 (enclaveInfoPages g mailboxCount).toNat) b)
    (hinfo : ¬ Memory.Within e enclaveInfoStructSize.toNat b) :
    (createdState g s e evBase evMask mailboxCount debug).mem b = s.mem b := by
  rw [createdState, initInfoState_mem_of_not_within hinfo]
  exact pagesMem_of_not_within hcount hentries

theorem toNat_enclaveInfoPages_lt (g : Globals) (mailboxCount : Word) :
    (enclaveInfoPages g mailboxCount).toNat < 2 ^ 52 := by
  have e : pageShift.toNat = 12 := rfl
  rw [enclaveInfoPages, pagesNeededFor, toNat_srl (by decide), e]
  omega

/-- Pages that `assign_metadata_pages` assigns lie in one stripe. -/
theorem PagesPass.fits_stripe {a pageCount : Word} (h : PagesPass C.globals s a pageCount)
    (hcount : pageCount.toNat < 2 ^ 52) : C.stripePage a + pageCount.toNat ≤ 2 ^ C.stripePageBits := by
  have hs := C.regionShift_add_lt
  unfold Geometry.regionShift at hs
  have hpow : 2 ^ C.stripePageBits ≤ 2 ^ 52 := Nat.pow_le_pow_right (by omega) (by omega)
  have hpages : C.globals.dramStripePages.toNat = 2 ^ C.stripePageBits := by
    rw [C.toDramGlobals_globals]
    exact Nat.mod_eq_of_lt (by omega)
  have hpage := C.stripePage_lt a
  have hfits := h.fits
  rw [gt_iff_lt, BitVec.not_lt, BitVec.le_def, BitVec.toNat_add, C.toNat_dramStripePageFor, hpages] at hfits
  omega

/-- Their entries do not run into those of a stripe above. -/
theorem PagesPass.entries_end {a pageCount : Word} (h : PagesPass C.globals s a pageCount)
    (hcount : pageCount.toNat < 2 ^ 52) (hbits : 0 < C.regionBits) :
    (metadataPageInfoFor C.globals a).toNat + 8 * max 1 pageCount.toNat ≤ 2 ^ 64 := by
  have hbound := C.pageIndex_bound a
  have hfits := h.fits_stripe hcount
  have hpage := C.stripePage_lt a
  have hsize := C.stripeSize_eq
  rw [C.toNat_metadataPageInfoFor a hbits, C.toNat_dramRegionPageFor a hbits]
  rw [Nat.add_mul, Nat.one_mul] at hbound
  omega

/-- **`create_enclave` writes nothing below the second stripe**, unless the enclave is in
region `0`. -/
theorem createdState_mem {unset evBase evMask mailboxCount : Word} {debug : Bool}
    (hpass : CreatePasses C.globals s unset e evBase evMask mailboxCount) (hregion : C.region e ≠ 0)
    (hb : b.toNat < C.stripeSize) :
    (createdState C.globals s e evBase evMask mailboxCount debug).mem b = s.mem b := by
  have hcount := toNat_enclaveInfoPages_lt C.globals mailboxCount
  have hbits := C.regionBits_pos hregion
  have hone : C.stripeSize ≤ C.region e * C.stripeSize := Nat.le_mul_of_pos_left _ (Nat.pos_of_ne_zero hregion)
  refine createdState_mem_of_not_within (by omega) (fun h => ?_) fun h => ?_
  · rw [Memory.within_iff (hpass.toPagesPass.entries_end hcount hbits), C.toNat_metadataPageInfoFor e hbits] at h
    omega
  · have haligned := isPageAligned_iff.mp hpass.aligned
    have hparts := C.toNat_eq_parts hpass.aligned
    have hsize : enclaveInfoStructSize.toNat = 304 := rfl
    have hlt := e.isLt
    rw [Memory.within_iff (by omega)] at h
    omega

end Created

end Sanctum
