import Sanctum.Monitor.MetadataRuns

/-!
# Allocating metadata pages

A metadata structure takes consecutive pages of a metadata region, and
`assign_metadata_pages` is to mark their entries in the region's page map, so that no page
is taken twice. It marks too few: the loop over the inner pages starts at the first entry
once more and so does not reach the last page. Nor does it compare the pages with
`g_metadata_region_start` and `g_metadata_region_pages`.

The entries are eight bytes each and one byte apart, so an entry overlaps those of seven
pages after it, and a page whose own entry is not marked is mostly found taken all the
same. Only a structure of two pages has a page that looks free (`Marked.disjoint`). So the
pages of different structures are disjoint, and all where they should be, in every run
whose enclaves have one page, or three and more, between the two bounds
(`run_wellPlaced`).
-/

namespace Sanctum

namespace MetadataPages

/-! ### Allocations in a run -/

/-- The pages of a structure. -/
structure Allocation where
  /-- The address of the first. -/
  start : Word
  /-- How many there are. -/
  pages : ℕ
  deriving DecidableEq

variable (C : Config)

/-- The pages of the structure that a call establishes if it returns `monitor_ok`. -/
def allocation (e : Event) : Option Allocation :=
  if e.result = 0 then
    match e.call with
    | .createEnclave _ id _ _ mailboxCount _ => some ⟨id, (enclaveInfoPages C.globals mailboxCount).toNat⟩
    | .assignThread _ _ _ threadId => some ⟨threadId, threadMetadataPages.toNat⟩
    | .loadThread _ _ _ threadId _ _ _ _ => some ⟨threadId, threadMetadataPages.toNat⟩
    | _ => none
  else none

/-- The region that a call makes a metadata region if it returns `monitor_ok`. -/
def newRegion (e : Event) : Option Word :=
  if e.result = 0 then
    match e.call with
    | .createMetadataRegion r => some r
    | _ => none
  else none

/-- The allocations after one more step: a new metadata region has none. -/
def track (l : List Allocation) (e : Event) : List Allocation :=
  (allocation C e).toList ++ l.filter fun a => newRegion e ≠ some (dramRegionFor C.globals a.start)

/-- The allocations of a run in each metadata region since it was last created, newest first. -/
def allocations (tr : List (Step Machine Event)) : List Allocation :=
  tr.foldl (fun l st => track C l st.label) []

/-- The index of the first page, as `dram_region_page_for` has it. -/
def Allocation.index (a : Allocation) : ℕ := (dramRegionPageFor C.globals a.start).toNat

/-- The pages are where they should be. -/
structure Placed (s : Machine) (a : Allocation) : Prop where
  /-- They start at the start of a page. -/
  aligned : isPageAligned a.start = true
  /-- They lie in a metadata region. -/
  metadata : C.globals.region s .owner (dramRegionFor C.globals a.start) = metadataEnclaveId
  /-- They lie in one stripe of it. -/
  oneStripe : a.start.toNat % C.stripeSize + 4096 * a.pages ≤ C.stripeSize
  /-- They come after the page map. -/
  afterMap : C.globals.metadataRegionStart.toNat ≤ a.index C
  /-- They have entries in it. -/
  inMap : a.index C + a.pages ≤ C.globals.metadataRegionPages.toNat

/-- All pages are where they should be, and no two structures have a page in common. -/
def WellPlaced (s : Machine) (l : List Allocation) : Prop :=
  (∀ a ∈ l, Placed C s a) ∧
    l.Pairwise fun a b => Memory.Apart a.start (4096 * a.pages) b.start (4096 * b.pages)

/-- The calls that make metadata regions and structures in them. -/
def allocCall : Call → Bool
  | .createMetadataRegion _ | .createEnclave .. | .assignThread .. | .loadThread .. => true
  | _ => false

/-- The pages of an enclave are as many as are safe, and lie between the two bounds. -/
structure Suitable (id : EnclaveId) (pages : ℕ) : Prop where
  /-- There is a page, and there are not two. -/
  count : pages ≠ 0 ∧ pages ≠ 2
  /-- The first is not below `g_metadata_region_start`. -/
  afterMap : C.globals.metadataRegionStart.toNat ≤ (dramRegionPageFor C.globals id).toNat
  /-- The last is below `g_metadata_region_pages`. -/
  inMap : (dramRegionPageFor C.globals id).toNat + pages ≤ C.globals.metadataRegionPages.toNat

/-- If an enclave is created, its pages are suitable. -/
def Careful (st : Step Machine Event) : Prop :=
  ∀ unset id evBase evMask mailboxCount debug,
    st.label.call = .createEnclave unset id evBase evMask mailboxCount debug →
      CreatePasses C.globals st.pre unset id evBase evMask mailboxCount →
        Suitable C id (enclaveInfoPages C.globals mailboxCount).toNat

/-! ### Marks -/

/-- **What marks are good for.** Entries of eight bytes, one byte apart, are marked from `p`
on for `n` pages, but for the last page if there are several. Then `k` pages from `q` on
whose entries are free are others — except that of two pages the second is not seen. -/
theorem disjoint_of_marks {p n q k : ℕ} (hn : n ≠ 0 ∧ n ≠ 2) (hk : k ≠ 0)
    (h : ∀ i, i = 0 ∨ i + 1 < n → ¬ (q ≤ p + 8 * i ∧ p + 8 * i < q + 8 * k)) : p + n ≤ q ∨ q + k ≤ p := by
  by_contra hoverlap
  push Not at hoverlap
  rcases le_or_gt q p with hqp | hpq
  · exact h 0 (.inl rfl) (by omega)
  · -- the first mark from `q` on is in the entry of `q`
    exact h ((q - p + 7) / 8) (.inr (by omega)) (by omega)

/-- The first byte of the entry that is marked for page `i`. -/
def Allocation.mark (a : Allocation) (i : ℕ) : Word :=
  metadataPageInfoFor C.globals a.start + BitVec.ofNat 64 (8 * i)

/-- The entries of all pages but the last are marked, and that of the first. -/
def Marked (m : Memory) (a : Allocation) : Prop := ∀ i, i = 0 ∨ i + 1 < a.pages → m (a.mark C i) ≠ 0

variable {C} {m : Memory} {s s' : Machine} {a : Allocation} {b : Word}

/-- Where the marks are: in the region's page map. -/
theorem Placed.toNat_mark {i : ℕ} (h : Placed C s a) (hregion : C.region a.start ≠ 0) (hpages : a.pages ≠ 0)
    (hi : i = 0 ∨ i + 1 < a.pages) :
    (a.mark C i).toNat = C.region a.start * C.stripeSize + (a.index C + 8 * i) ∧ a.index C + 8 * i < C.mapBytes := by
  have hmap := C.eight_mul_pages_le
  have hlt : a.index C + 8 * i < C.mapBytes := by
    have hin := h.inMap
    omega
  have hend : (C.region a.start + 1) * C.stripeSize ≤ 2 ^ 63 :=
    (Nat.mul_le_mul_right _ (C.region_lt a.start)).trans C.regionCount_mul_stripeSize_le
  have hsize := C.mapBytes_eq.2
  rw [Nat.add_mul, Nat.one_mul] at hend
  refine ⟨?_, hlt⟩
  have hentry := C.toNat_metadataPageInfoFor a.start (C.regionBits_pos hregion)
  change _ = _ + a.index C at hentry
  rw [Allocation.mark, BitVec.toNat_add, hentry, BitVec.toNat_ofNat]
  omega

/-- A new structure's entries are free, so no mark is among them. -/
theorem Marked.not_within_entries {id pageCount : Word} {i : ℕ} (hmarked : Marked C s.mem a)
    (hpass : PagesPass C.globals s id pageCount) (hi : i = 0 ∨ i + 1 < a.pages) :
    ¬ Memory.Within (metadataPageInfoFor C.globals id) (8 * pageCount.toNat) (a.mark C i) := by
  intro hwithin
  refine hmarked i hi ?_
  obtain ⟨j, hj, heq⟩ := Memory.exists_of_within hwithin
  have hload := hpass.empty (j / 8) (by omega)
  refine Memory.eq_zero_of_load64 hload ?_
  have hsplit : metadataPageInfoFor C.globals id + BitVec.ofNat 64 j =
      metadataPageInfoFor C.globals id + BitVec.ofNat 64 (8 * (j / 8)) + BitVec.ofNat 64 (j % 8) := by
    rw [BitVec.add_assoc, ← BitVec.ofNat_add, Nat.div_add_mod]
  rw [heq, hsplit]
  exact Memory.within_add (Nat.mod_lt _ (by decide)) (by decide)

/-- **New pages are others**: those of a new structure have indices that those of an old
structure in the same region do not have. -/
theorem Placed.disjoint {id pageCount : Word} (h : Placed C s a) (hmarked : Marked C s.mem a)
    (hpages : a.pages ≠ 0 ∧ a.pages ≠ 2) (hpass : PagesPass C.globals s id pageCount)
    (hcount : pageCount.toNat < 2 ^ 52) (hcount0 : pageCount.toNat ≠ 0) (hregion : C.region a.start ≠ 0)
    (hsame : C.region id = C.region a.start) :
    a.index C + a.pages ≤ (dramRegionPageFor C.globals id).toNat ∨
      (dramRegionPageFor C.globals id).toNat + pageCount.toNat ≤ a.index C := by
  have hbits := C.regionBits_pos hregion
  refine disjoint_of_marks hpages hcount0 fun i hi hin => hmarked.not_within_entries hpass hi ?_
  have hend := hpass.entries_end hcount hbits
  rw [Memory.within_iff (by omega), (h.toNat_mark hregion hpages.1 hi).1,
    C.toNat_metadataPageInfoFor id hbits, hsame]
  omega

/-! ### Marks stay -/

/-- The marks lie in the part of a stripe that the map takes. -/
theorem Placed.mark_mod_lt {i : ℕ} (h : Placed C s a) (hregion : C.region a.start ≠ 0) (hpages : a.pages ≠ 0)
    (hi : i = 0 ∨ i + 1 < a.pages) : (a.mark C i).toNat % C.stripeSize < C.mapBytes := by
  obtain ⟨heq, hlt⟩ := h.toNat_mark hregion hpages hi
  rw [heq, Nat.mul_add_mod_self_right]
  exact lt_of_le_of_lt (Nat.mod_le _ _) hlt

/-- An `enclave_info_t` after the map does not reach into a map. -/
theorem Suitable.not_within_info {id : EnclaveId} {pages : ℕ} (h : Suitable C id pages) (hregion : C.region id ≠ 0)
    (haligned : isPageAligned id = true) (hb : b.toNat % C.stripeSize < C.mapBytes) :
    ¬ Memory.Within id enclaveInfoStructSize.toNat b := by
  intro hwithin
  have hindex : C.stripePage id = (dramRegionPageFor C.globals id).toNat :=
    C.stripePage_of_index (C.regionBits_pos hregion) (by have := h.inMap; have := h.count; omega)
  have hafter : C.mapBytes ≤ 4096 * C.stripePage id := by
    rw [C.mapBytes_eq.1, hindex]
    exact Nat.mul_le_mul_left _ h.afterMap
  have hstripe := C.stripeSize_eq
  have hpage := C.stripePage_lt id
  have hmod := C.mod_stripeSize haligned
  have hsplit := Nat.div_add_mod id.toNat C.stripeSize
  have hsize : enclaveInfoStructSize.toNat = 304 := rfl
  have haligned' := isPageAligned_iff.mp haligned
  have hlt := id.isLt
  rw [Memory.within_iff (by omega)] at hwithin
  obtain ⟨j, hj⟩ := Nat.exists_eq_add_of_le hwithin.1
  have hbyte : b.toNat % C.stripeSize = 4096 * C.stripePage id + j := by
    rw [hj, ← hsplit, hmod, Nat.add_assoc, Nat.mul_add_mod, Nat.mod_eq_of_lt (by omega)]
  omega

/-- The marks of other structures stay when an enclave is created. -/
theorem Marked.createEnclave {unset id evBase evMask mailboxCount : Word} {debug : Bool} (hmarked : Marked C s.mem a)
    (h : Placed C s a) (hregion : C.region a.start ≠ 0) (hpages : a.pages ≠ 0) (hregion' : C.region id ≠ 0)
    (hpass : CreatePasses C.globals s unset id evBase evMask mailboxCount)
    (hsuitable : Suitable C id (enclaveInfoPages C.globals mailboxCount).toNat) :
    Marked C (createdState C.globals s id evBase evMask mailboxCount debug).mem a := by
  have hcount := toNat_enclaveInfoPages_lt C.globals mailboxCount
  intro i hi
  rw [createdState_mem_of_not_within (by omega)]
  · exact hmarked i hi
  · rw [max_eq_right (Nat.one_le_iff_ne_zero.mpr hsuitable.count.1)]
    exact hmarked.not_within_entries hpass.toPagesPass hi
  · exact hsuitable.not_within_info hregion' hpass.aligned (h.mark_mod_lt hregion hpages hi)

/-- The marks of a new enclave. -/
theorem marked_createdState {id evBase evMask mailboxCount : Word} {debug : Bool}
    (h : Placed C s ⟨id, (enclaveInfoPages C.globals mailboxCount).toNat⟩) (hregion : C.region id ≠ 0)
    (hsuitable : Suitable C id (enclaveInfoPages C.globals mailboxCount).toNat) :
    Marked C (createdState C.globals s id evBase evMask mailboxCount debug).mem
      ⟨id, (enclaveInfoPages C.globals mailboxCount).toNat⟩ := by
  have hinfo : (metadataPageInfo id enclaveMetadataPageType).setWidth 8 ≠ 0 := by
    intro h0
    have hbit := congrArg (fun w : BitVec 8 => w.getLsbD 1) h0
    simp [metadataPageInfo, enclaveMetadataPageType] at hbit
  intro i hi
  have hmod := h.mark_mod_lt hregion hsuitable.count.1 hi
  rw [createdState, initInfoState_mem_of_not_within (hsuitable.not_within_info hregion h.aligned hmod)]
  exact pagesMem_mark_ne_zero (toNat_enclaveInfoPages_lt _ _) hinfo hi

/-- The marks in other regions stay when a metadata region is made. -/
theorem Marked.createMetadata {r : Word} (hmarked : Marked C s.mem a) (h : Placed C s a) (hfits : MonitorFits C)
    (hregion : C.region a.start ≠ 0) (hpages : a.pages ≠ 0) (hr : r.toNat < C.regionCount)
    (hne : C.region a.start ≠ r.toNat) : Marked C (metadataState C.globals s r).mem a := by
  intro i hi
  have hmap := C.mapBytes_eq.2
  obtain ⟨heq, hlt⟩ := h.toNat_mark hregion hpages hi
  have hone : C.stripeSize ≤ C.region a.start * C.stripeSize :=
    Nat.le_mul_of_pos_left _ (Nat.pos_of_ne_zero hregion)
  have hpast : C.arraysEnd ≤ (a.mark C i).toNat := hfits.trans (by omega)
  have hslot : ∀ f, ¬ Memory.Within (C.globals.regionField f r) 8 (a.mark C i) := fun f =>
    Slot.not_within_of_le C (a := .region f r) hr hpast
  have hzeroed : ¬ Memory.Within (dramRegionStart C.globals r) C.mapBytes (a.mark C i) := by
    rw [C.within_map_iff hr, heq]
    rcases Nat.lt_or_gt_of_ne hne with hbelow | habove
    · have := Nat.mul_le_mul_right C.stripeSize hbelow
      rw [Nat.succ_mul] at this
      omega
    · have := Nat.mul_le_mul_right C.stripeSize habove
      rw [Nat.succ_mul] at this
      omega
  have hsame : (metadataState C.globals s r).mem (a.mark C i) = s.mem (a.mark C i) := by
    refine (Memory.zeroed_of_not_within hzeroed).trans ?_
    rw [metadataStores, Memory.store64_of_not_within (hslot _), Memory.store64_of_not_within (hslot _)]
  rw [hsame]
  exact hmarked i hi

/-! ### Runs -/

/-- What is known of the structures in metadata regions. -/
structure Tracked (C : Config) (l : List Allocation) (s : Machine) : Prop where
  /-- The owners are special. -/
  owners : SpecialOwners C s.mem
  /-- The pages are where they should be. -/
  placed : ∀ a ∈ l, Placed C s a
  /-- Their entries are marked. -/
  marked : ∀ a ∈ l, Marked C s.mem a
  /-- They are not two, nor are there none. -/
  count : ∀ a ∈ l, a.pages ≠ 0 ∧ a.pages ≠ 2
  /-- Structures in the same region have different page indices. -/
  indices : l.Pairwise fun a b => C.region a.start = C.region b.start →
    a.index C + a.pages ≤ b.index C ∨ b.index C + b.pages ≤ a.index C

variable {l : List Allocation}

theorem Tracked.region_ne_zero (h : Tracked C l s) (ha : a ∈ l) : C.region a.start ≠ 0 := by
  intro heq
  exact h.owners.ne_zero (h.placed a ha).metadata (by decide)
    (BitVec.eq_of_toNat_eq ((C.toNat_dramRegionFor _).trans heq))

/-- The owner of its region is all that an allocation's place depends on. -/
theorem Placed.congr (h : Placed C s a)
    (howner : C.globals.region s' .owner (dramRegionFor C.globals a.start) =
      C.globals.region s .owner (dramRegionFor C.globals a.start)) : Placed C s' a :=
  { h with metadata := howner.trans h.metadata }

/-- A new metadata region. -/
theorem Tracked.createMetadata {r : Word} (h : Tracked C l s) (hfits : MonitorFits C)
    (hpass : FreeRegion C.globals s r) :
    Tracked C (l.filter fun a => some r ≠ some (dramRegionFor C.globals a.start)) (metadataState C.globals s r) := by
  have hr := C.isValidDramRegion_iff.mp hpass.valid
  have hmem : ∀ a ∈ l.filter (fun a => some r ≠ some (dramRegionFor C.globals a.start)),
      a ∈ l ∧ r ≠ dramRegionFor C.globals a.start := by
    intro a ha
    simpa using List.mem_filter.mp ha
  have hpast : C.arraysEnd ≤ r.toNat * C.stripeSize := by
    have hr0 : r.toNat ≠ 0 := fun h0 => h.owners.ne_zero hpass.free (by decide) (BitVec.eq_of_toNat_eq h0)
    exact hfits.trans (Nat.le_mul_of_pos_left _ (Nat.pos_of_ne_zero hr0))
  refine ⟨h.owners.createMetadata hpass, fun a ha => ?_, fun a ha => ?_, fun a ha => h.count a (hmem a ha).1,
    h.indices.filter _⟩
  · obtain ⟨hl, hne⟩ := hmem a ha
    have hvalid := C.toNat_dramRegionFor_lt a.start
    refine (h.placed a hl).congr ?_
    change Slot.read C _ (.region .owner (dramRegionFor C.globals a.start)) = _
    rw [Slot.read_metadataState (a := .region .owner _) hvalid hr hpast,
      Slot.read_metadataStores (a := .region .owner _) hvalid hr, if_neg (by simp), if_neg (by simp [Ne.symm hne])]
    rfl
  · obtain ⟨hl, hne⟩ := hmem a ha
    refine (h.marked a hl).createMetadata (h.placed a hl) hfits (h.region_ne_zero hl) (h.count a hl).1 hr ?_
    exact fun heq => hne (BitVec.eq_of_toNat_eq ((C.toNat_dramRegionFor _).trans heq).symm)

/-- A new enclave. -/
theorem Tracked.createEnclave {unset id evBase evMask mailboxCount : Word} {debug : Bool} (h : Tracked C l s)
    (hfits : MonitorFits C) (hpass : CreatePasses C.globals s unset id evBase evMask mailboxCount)
    (hsuitable : Suitable C id (enclaveInfoPages C.globals mailboxCount).toNat) :
    Tracked C (⟨id, (enclaveInfoPages C.globals mailboxCount).toNat⟩ :: l)
      (createdState C.globals s id evBase evMask mailboxCount debug) := by
  have hcount := toNat_enclaveInfoPages_lt C.globals mailboxCount
  have hregion := hpass.region_ne_zero h.owners
  have howner : ∀ a : Word, C.globals.region (createdState C.globals s id evBase evMask mailboxCount debug) .owner
      (dramRegionFor C.globals a) = C.globals.region s .owner (dramRegionFor C.globals a) := fun a =>
    Slot.read_createdState (a := .region .owner _) hfits h.owners hpass (C.toNat_dramRegionFor_lt a)
  have hplaced : Placed C s ⟨id, (enclaveInfoPages C.globals mailboxCount).toNat⟩ := by
    refine ⟨hpass.aligned, hpass.metadata, ?_, hsuitable.afterMap, hsuitable.inMap⟩
    have hstripe := C.stripeSize_eq
    have hfit := hpass.toPagesPass.fits_stripe hcount
    rw [C.mod_stripeSize hpass.aligned, hstripe]
    dsimp only
    omega
  refine ⟨h.owners.congr fun r hr => Slot.read_createdState hfits h.owners hpass hr, ?_, ?_, ?_, ?_⟩
  · intro a ha
    rcases List.mem_cons.mp ha with rfl | ha
    · exact hplaced.congr (howner _)
    · exact (h.placed a ha).congr (howner _)
  · intro a ha
    rcases List.mem_cons.mp ha with rfl | ha
    · exact marked_createdState hplaced hregion hsuitable
    · exact (h.marked a ha).createEnclave (h.placed a ha) (h.region_ne_zero ha) (h.count a ha).1 hregion hpass hsuitable
  · intro a ha
    rcases List.mem_cons.mp ha with rfl | ha
    · exact hsuitable.count
    · exact h.count a ha
  · refine List.pairwise_cons.mpr ⟨fun a ha hsame => ?_, h.indices⟩
    exact ((h.placed a ha).disjoint (h.marked a ha) (h.count a ha) hpass.toPagesPass hcount hsuitable.count.1
      (h.region_ne_zero ha) hsame).symm

/-- A call that fails leaves the allocations as they are. -/
theorem track_of_failed {e : Event} (h : e.result ≠ 0) : track C l e = l := by
  rw [track, allocation, newRegion, if_neg h, if_neg h]
  simp

/-- **One step**: what is known stays known. -/
theorem Tracked.step {e : Event} (h : Tracked C l s) (hfits : MonitorFits C) (hstep : Sanctum.step C.globals s e s')
    (hcall : allocCall e.call = true) (hcareful : Careful C ⟨s, e, s'⟩) : Tracked C (track C l e) s' := by
  obtain ⟨c, v⟩ := e
  have hfailed : v ≠ 0 → s' = s → Tracked C (track C l ⟨c, v⟩) s' := by
    rintro hv rfl
    rwa [track_of_failed hv]
  cases c with
  | createMetadataRegion r =>
    rcases (createMetadataRegion_spec C.globals s r).cases_result hstep with ⟨rfl, hpass, rfl⟩ | ⟨hv, -, hs⟩
    · exact h.createMetadata hfits hpass
    · exact hfailed hv hs
  | createEnclave unset id evBase evMask mailboxCount debug =>
    rcases (createEnclave_spec C.globals s unset id evBase evMask mailboxCount debug).cases_result hstep with
      ⟨rfl, hpass, rfl⟩ | ⟨hv, -, hs⟩
    · simpa [track, allocation, newRegion] using h.createEnclave hfits hpass (hcareful _ _ _ _ _ _ rfl hpass)
    · exact hfailed hv hs
  | assignThread lockUnset unset id threadId =>
    rcases (assignThread_fails C.globals s lockUnset unset id threadId).cases_result hstep with ⟨-, hf, -⟩ | ⟨hv, -, hs⟩
    · exact hf.elim
    · exact hfailed hv hs
  | loadThread lockUnset unset id threadId entryPc entryStack faultPc faultStack =>
    have hspec := loadThread_fails C.globals s lockUnset unset id threadId entryPc entryStack faultPc faultStack
    rcases hspec.cases_result hstep with ⟨-, hf, -⟩ | ⟨hv, -, hs⟩
    · exact hf.elim
    · exact hfailed hv hs
  | _ => simp [allocCall] at hcall

/-- Every run from where no structure has been established. -/
theorem run_tracked {tr : List (Step Machine Event)} (hfits : MonitorFits C) (howners : SpecialOwners C s.mem)
    (hrun : Run (Sanctum.step C.globals) s tr s') (hcalls : ∀ st ∈ tr, allocCall st.label.call = true)
    (hcareful : ∀ st ∈ tr, Careful C st) : Tracked C (allocations C tr) s' := by
  refine hrun.history (P := fun tr s' => (∀ st ∈ tr, allocCall st.label.call = true ∧ Careful C st) →
    Tracked C (allocations C tr) s') (fun _ => ?_) (fun tr s l s' _ ih hstep hall => ?_)
    fun st hst => ⟨hcalls st hst, hcareful st hst⟩
  · exact ⟨howners, by simp [allocations], by simp [allocations], by simp [allocations], by simp [allocations]⟩
  · have hlast := hall ⟨s, l, s'⟩ (by simp)
    rw [allocations, List.foldl_append]
    exact (ih fun st hst => hall st (List.mem_append_left _ hst)).step hfits hstep hlast.1 hlast.2

/-- Different page indices are different pages, in whatever stripe they are. -/
theorem Placed.apart {b : Allocation} (ha : Placed C s a) (hb : Placed C s b) (hregion : C.region a.start ≠ 0)
    (hcounta : a.pages ≠ 0) (hcountb : b.pages ≠ 0)
    (hindices : C.region a.start = C.region b.start →
      a.index C + a.pages ≤ b.index C ∨ b.index C + b.pages ≤ a.index C) :
    Memory.Apart a.start (4096 * a.pages) b.start (4096 * b.pages) := by
  have hbits := C.regionBits_pos hregion
  have hmod : ∀ {x : Allocation}, Placed C s x → x.pages ≠ 0 → x.start.toNat % C.stripeSize = 4096 * x.index C := by
    intro x hx hcount
    rw [Allocation.index, ← C.stripePage_of_index hbits (show x.index C < _ by have := hx.inMap; omega)]
    exact C.mod_stripeSize hx.aligned
  have hina := ha.oneStripe
  have hinb := hb.oneStripe
  have hsplita := Nat.div_add_mod a.start.toNat C.stripeSize
  have hsplitb := Nat.div_add_mod b.start.toNat C.stripeSize
  have henda := C.stripe_end_le a.start
  have hendb := C.stripe_end_le b.start
  refine Memory.apart_of_disjoint (by omega) (by omega) ?_
  rcases Nat.lt_trichotomy (a.start.toNat / C.stripeSize) (b.start.toNat / C.stripeSize) with hlt | heq | hgt
  · have hle := Nat.mul_le_mul_left C.stripeSize hlt
    rw [Nat.mul_succ] at hle
    omega
  · -- the same stripe
    have hregions : C.region a.start = C.region b.start := by rw [Config.region, heq, Config.region]
    have hindex := hindices hregions
    rw [hmod ha hcounta] at hsplita
    rw [hmod hb hcountb, ← heq] at hsplitb
    omega
  · have hle := Nat.mul_le_mul_left C.stripeSize hgt
    rw [Nat.mul_succ] at hle
    omega

/-- What is known says what was to be shown. -/
theorem Tracked.wellPlaced (h : Tracked C l s) : WellPlaced C s l := by
  refine ⟨h.placed, h.indices.imp_of_mem fun ha hb hindices => ?_⟩
  exact (h.placed _ ha).apart (h.placed _ hb) (h.region_ne_zero ha) (h.count _ ha).1 (h.count _ hb).1 hindices

/-- **Metadata pages.** Let there be free regions, and none with structures in it, as after
boot and any calls on regions. In every run in which enclaves have suitable pages only, all
metadata pages are where they should be, and no two structures have a page in common. -/
theorem run_wellPlaced {s₀ : Machine} {tr₀ tr : List (Step Machine Event)} (hfits : MonitorFits C)
    (hboot : AfterBoot C s₀) (hregions : Run (Sanctum.step C.globals) s₀ tr₀ s)
    (hcalls₀ : ∀ st ∈ tr₀, SpecialOwners.regionCall st.label.call = true) (hrun : Run (Sanctum.step C.globals) s tr s')
    (hcalls : ∀ st ∈ tr, allocCall st.label.call = true) (hcareful : ∀ st ∈ tr, Careful C st) :
    WellPlaced C s' (allocations C tr) :=
  (run_tracked hfits (.run hboot hregions hcalls₀) hrun hcalls hcareful).wellPlaced

/-- The machine after the OS has given up region `1`. -/
def freedMachine : Machine :=
  afterAll twoRegions.globals (freshMachine twoRegions) [.blockDramRegion 0 1, .freeDramRegion 1]

theorem run_freedMachine : Run (Sanctum.step twoRegions.globals) (freshMachine twoRegions)
    (script twoRegions.globals (freshMachine twoRegions) [.blockDramRegion 0 1, .freeDramRegion 1]) freedMachine :=
  run_script _ (by decide +kernel)

/-- Two enclaves of one page each. -/
def smallEnclaves : List Call :=
  [.createMetadataRegion 1, .createEnclave 1 0x81000 0 0xfff 0 false, .createEnclave 1 0x89000 0 0xfff 0 false]

/-- The first two pages of a metadata region's stripe that are not the map's. -/
theorem wellPlaced_smallEnclaves :
    WellPlaced twoRegions (afterAll twoRegions.globals freedMachine smallEnclaves)
      (allocations twoRegions (script twoRegions.globals freedMachine smallEnclaves)) := by
  refine run_wellPlaced (by decide) (afterBoot_freshMachine _) run_freedMachine (by decide +kernel)
    (run_script _ (by decide +kernel)) (by decide +kernel)
    fun st hst unset id evBase evMask mailboxCount debug hcall _ => ?_
  simp only [script, smallEnclaves, List.mem_cons, List.not_mem_nil, or_false] at hst
  rcases hst with rfl | rfl | rfl
  · simp at hcall
  · obtain ⟨-, rfl, -, -, rfl, -⟩ := Call.createEnclave.inj hcall
    exact ⟨by decide +kernel, by decide +kernel, by decide +kernel⟩
  · obtain ⟨-, rfl, -, -, rfl, -⟩ := Call.createEnclave.inj hcall
    exact ⟨by decide +kernel, by decide +kernel, by decide +kernel⟩

/-- The second page of the first enclave is given to another. -/
theorem not_wellPlaced : ∃ (C : Config) (s₀ s s' : Machine) (tr₀ tr : List (Step Machine Event)),
    MonitorFits C ∧ AfterBoot C s₀ ∧ Run (Sanctum.step C.globals) s₀ tr₀ s ∧
      (∀ st ∈ tr₀, SpecialOwners.regionCall st.label.call = true) ∧ Run (Sanctum.step C.globals) s tr s' ∧
      (∀ st ∈ tr, allocCall st.label.call = true) ∧ ¬ WellPlaced C s' (allocations C tr) := by
  refine ⟨twoRegions, freshMachine twoRegions, freedMachine, _, _, script _ _ [.createMetadataRegion 1,
    .createEnclave 1 0x81000 0 0xfff 13 false, .createEnclave 1 0x82000 0 0xfff 0 false], by decide,
    afterBoot_freshMachine _, run_freedMachine, by decide +kernel, run_script _ (by decide +kernel),
    by decide +kernel, fun h => ?_⟩
  have hallocations : allocations twoRegions (script twoRegions.globals freedMachine [.createMetadataRegion 1,
      .createEnclave 1 0x81000 0 0xfff 13 false, .createEnclave 1 0x82000 0 0xfff 0 false]) =
        [⟨0x82000, 1⟩, ⟨0x81000, 2⟩] := by
    decide +kernel
  rw [hallocations] at h
  exact (List.pairwise_pair.mp h.2) 0x82000 (by decide) (by decide)

end MetadataPages

end Sanctum
