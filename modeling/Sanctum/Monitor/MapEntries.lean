import Sanctum.Monitor.BootInit
import Sanctum.Monitor.MetadataSpec

/-!
# What an allocation does to the page map

`assign_metadata_pages` gives consecutive pages of a metadata region to a structure: it
looks at their entries in the page map, and if they are empty, it marks them. The entry of
the first page is to become `owner | type`, those of the others `owner | inner`.

The loop that marks the inner pages increments its pointer after the store, so it starts
with the first page once more and never gets to the last one; and it leaves the owner out.
So it does what it should for structures of one page only (`effect_iff`).

The loop that looks at the entries does not look at its parameter `free_info`: it takes a
page to be available if its entry is zero, whether pages are reserved anew or accepted by
the enclave that has been given them (`admits_iff`).

The entries are those the code looks at: `page_info[i]`, from `metadata_page_info_for` on.
-/

namespace Sanctum

namespace MapEntries

variable (g : Globals)

/-- `&page_info[i]`. -/
def entry (a : Word) (i : ℕ) : Word := metadataPageInfoFor g a + BitVec.ofNat 64 (8 * i)

/-- The entry of the first page is `owner | type`, those of the others are `owner | inner`, and
nothing else has changed. -/
structure Marked (m m' : Memory) (a pageCount owner type : Word) : Prop where
  /-- The first page. -/
  first : m'.load64 (entry g a 0) = metadataPageInfo owner type
  /-- The following pages. -/
  inner : ∀ i, 1 ≤ i → i < pageCount.toNat → m'.load64 (entry g a i) = metadataPageInfo owner innerMetadataPageType
  /-- Everything else. -/
  others : ∀ b, (∀ i < pageCount.toNat, ¬ Memory.Within (entry g a i) 8 b) → m' b = m b

/-- What `assign_metadata_pages` should do to the map. -/
def Effect (s : Machine) (a pageCount owner type freeInfo : Word) : Prop :=
  ∀ e s', (assignMetadataPages g a pageCount owner type freeInfo).run (exec .code) s = some (e, s') →
    (e = .ok → Marked g s.mem s'.mem a pageCount owner type) ∧ (e ≠ .ok → s' = s)

/-- A call succeeds. -/
def Succeeds (p : Monitor ApiResult) (s : Machine) : Prop := ∃ s', p.run (exec .code) s = some (.ok, s')

/-- `reserve_metadata_pages` and `accept_metadata_pages` succeed on the right pages. -/
structure Admits (s : Machine) (a pageCount owner type : Word) : Prop where
  /-- Pages are reserved if nobody has them. -/
  reserve : Succeeds (reserveMetadataPages g a pageCount owner type) s ↔
    ∀ i < pageCount.toNat, s.mem.load64 (entry g a i) = 0
  /-- Pages are accepted if they have been given to the owner. -/
  accept : Succeeds (acceptMetadataPages g a pageCount owner type) s ↔
    ∀ i < pageCount.toNat, s.mem.load64 (entry g a i) = metadataPageInfo owner emptyMetadataPageType

variable {g} {s : Machine} {m : Memory} {a pageCount owner type freeInfo : Word}

/-! ### The entries -/

theorem entry_zero : entry g a 0 = metadataPageInfoFor g a := by
  rw [entry, Nat.mul_zero, BitVec.add_zero]

/-- The entries are the words of an array. -/
theorem apart_entry {i j : ℕ} (h : entry g a i ≠ entry g a j) : Memory.Apart (entry g a i) 8 (entry g a j) 8 :=
  Memory.apart_words h

/-- Below `2 ^ 61` the entries differ. -/
theorem entry_ne {i j : ℕ} (hi : i < j) (hj : j < 2 ^ 61) : entry g a i ≠ entry g a j := by
  intro h
  have hnat := congrArg BitVec.toNat ((BitVec.add_right_inj _).mp h)
  rw [BitVec.toNat_ofNat, BitVec.toNat_ofNat] at hnat
  omega

/-- From there on they come again. -/
theorem entry_add (i : ℕ) : entry g a (i + 2 ^ 61) = entry g a i := by
  rw [entry, entry, Nat.mul_add, BitVec.ofNat_add]
  exact congrArg (metadataPageInfoFor g a + ·) (BitVec.add_zero _)

/-- The loop marks all pages but the last, the first page included. -/
theorem load64_pagesMem_of_lt {k : ℕ} (hk : k + 1 < pageCount.toNat) :
    (pagesMem g m a pageCount owner type).load64 (entry g a k) = innerMetadataPageType := by
  refine Prog.iterUp_induction (P := fun j (m' : Memory) => ∀ k, k + 1 < j →
    m'.load64 (entry g a k) = innerMetadataPageType) (fun k hk => by omega) (fun j m' hj _ ih k hk => ?_) k (by omega)
  by_cases heq : entry g a k = entry g a (j - 1)
  · rw [heq]
    exact Memory.load64_store64_self _ _ _
  · refine (Memory.load64_store64_of_apart (apart_entry heq)).trans (ih k ?_)
    by_contra hnot
    exact heq (by rw [show k = j - 1 by omega])

/-- With one page, the loop does nothing. -/
theorem pagesMem_one :
    pagesMem g m a 1 owner type = m.store64 (metadataPageInfoFor g a) (metadataPageInfo owner type) :=
  rfl

/-- Bytes that are in none of the entries are spared. -/
theorem pagesMem_of_forall_not_within {b : Word} (hcount : 1 ≤ pageCount.toNat)
    (hb : ∀ i < pageCount.toNat, ¬ Memory.Within (entry g a i) 8 b) : pagesMem g m a pageCount owner type b = m b := by
  have hfirst : m.store64 (metadataPageInfoFor g a) (metadataPageInfo owner type) b = m b :=
    Memory.store64_of_not_within (entry_zero ▸ hb 0 hcount)
  rw [pagesMem, ← hfirst]
  refine Prog.iterUp_induction
    (P := fun _ (m' : Memory) => m' b = m.store64 (metadataPageInfoFor g a) (metadataPageInfo owner type) b)
    rfl fun j m' hj hjn ih => ?_
  rw [← ih]
  exact Memory.store64_of_not_within (hb (j - 1) (by omega))

/-- The last page of several has an entry of its own, which is spared. -/
theorem load64_pagesMem_last (hcount : 2 ≤ pageCount.toNat) (hlt : pageCount.toNat ≤ 2 ^ 61) :
    (pagesMem g m a pageCount owner type).load64 (entry g a (pageCount.toNat - 1)) =
      m.load64 (entry g a (pageCount.toNat - 1)) := by
  have hfirst : (m.store64 (metadataPageInfoFor g a) (metadataPageInfo owner type)).load64
      (entry g a (pageCount.toNat - 1)) = m.load64 (entry g a (pageCount.toNat - 1)) := by
    rw [← entry_zero]
    exact Memory.load64_store64_of_apart (apart_entry (entry_ne (by omega) (by omega)).symm)
  rw [pagesMem, ← hfirst]
  refine Prog.iterUp_induction (P := fun _ (m' : Memory) => m'.load64 (entry g a (pageCount.toNat - 1)) =
    (m.store64 (metadataPageInfoFor g a) (metadataPageInfo owner type)).load64 (entry g a (pageCount.toNat - 1)))
    rfl fun j m' hj hjn ih => ?_
  rw [← ih]
  exact Memory.load64_store64_of_apart (apart_entry (entry_ne (by omega) (by omega)).symm)

/-! ### The effect -/

theorem metadataPageInfo_inner_ne_zero (owner : Word) : metadataPageInfo owner innerMetadataPageType ≠ 0 := by
  intro h
  have hbit := congrArg (fun w : Word => w.getLsbD 0) h
  simp [metadataPageInfo, innerMetadataPageType] at hbit

/-- The map is marked rightly if there is one page; or if there are so many that the entries come
again, and what the loop marks them with happens to be right. -/
theorem marked_iff (hcount : 1 ≤ pageCount.toNat) (hpass : PagesPass g s a pageCount) :
    Marked g s.mem (pagesMem g s.mem a pageCount owner type) a pageCount owner type ↔
      pageCount = 1 ∨ 2 ^ 61 < pageCount.toNat ∧ metadataPageInfo owner type = innerMetadataPageType ∧
        metadataPageInfo owner innerMetadataPageType = innerMetadataPageType := by
  constructor
  · intro h
    rcases Nat.eq_or_lt_of_le hcount with hone | hmore
    · exact .inl (BitVec.eq_of_toNat_eq hone.symm)
    rcases Nat.lt_or_ge (2 ^ 61) pageCount.toNat with hmany | hfew
    · refine .inr ⟨hmany, ?_, ?_⟩
      · rw [← h.first, load64_pagesMem_of_lt (by omega)]
      · rw [← h.inner 1 le_rfl (by omega), load64_pagesMem_of_lt (by omega)]
    · -- the last entry is as it was, which is empty
      have hlast := h.inner (pageCount.toNat - 1) (by omega) (by omega)
      rw [load64_pagesMem_last (by omega) hfew] at hlast
      exact absurd (hlast.symm.trans (hpass.empty _ (by omega))) (metadataPageInfo_inner_ne_zero owner)
  · rintro (rfl | ⟨hmany, htype, howner⟩)
    · refine ⟨?_, fun i h1 h2 => ?_, fun b hb => pagesMem_of_forall_not_within hcount hb⟩
      · rw [pagesMem_one, entry_zero]
        exact Memory.load64_store64_self _ _ _
      · have hone : (1 : Word).toNat = 1 := rfl
        omega
    · refine ⟨?_, fun i _ hi => ?_, fun b hb => pagesMem_of_forall_not_within hcount hb⟩
      · rw [htype, load64_pagesMem_of_lt (by omega)]
      · rw [howner]
        rcases Nat.lt_or_ge (i + 1) pageCount.toNat with hlt | hge
        · exact load64_pagesMem_of_lt hlt
        · -- the last entry is one that has come before
          obtain ⟨k, rfl⟩ := Nat.exists_eq_add_of_le' (show 2 ^ 61 ≤ i by omega)
          rw [entry_add]
          exact load64_pagesMem_of_lt (by omega)

/-- **The effect of `assign_metadata_pages`** is right if it fails, and for structures of one page;
besides, for structures that go round the address space with entries that all are `1`. -/
theorem effect_iff (hcount : 1 ≤ pageCount.toNat) :
    Effect g s a pageCount owner type freeInfo ↔
      (PagesPass g s a pageCount → pageCount = 1 ∨
        2 ^ 61 < pageCount.toNat ∧ metadataPageInfo owner type = innerMetadataPageType ∧
          metadataPageInfo owner innerMetadataPageType = innerMetadataPageType) := by
  have hspec := assignMetadataPages_spec g s a pageCount owner type freeInfo
  constructor
  · intro h hpass
    exact (marked_iff hcount hpass).mp ((h _ _ (hspec.1 hpass)).1 rfl)
  · intro h e s' hrun
    rcases hspec.cases hrun with ⟨he, hpass, rfl⟩ | ⟨he, -, rfl⟩
    · exact ⟨fun _ => (marked_iff hcount hpass).mpr (h hpass), fun hne => absurd he hne⟩
    · exact ⟨fun hok => absurd hok he, fun _ => rfl⟩

/-- One page for an enclave. -/
theorem effect_onePage :
    Effect twoRegions.globals blankMachine 0x81000 1 0x81000 enclaveMetadataPageType emptyMetadataPageType :=
  (effect_iff (by decide)).mpr fun _ => .inl rfl

/-- Two pages: the second is not marked. -/
theorem not_effect :
    ¬ Effect twoRegions.globals blankMachine 0x81000 2 0x81000 enclaveMetadataPageType emptyMetadataPageType := by
  intro h
  have hpass : PagesPass twoRegions.globals blankMachine 0x81000 2 := ⟨by decide, by decide +kernel⟩
  have hmarked := (h _ _ ((assignMetadataPages_spec _ _ _ _ _ _ _).1 hpass)).1 rfl
  exact absurd ((marked_iff (by decide) hpass).mp hmarked) (by decide)

/-! ### Which pages are admitted -/

/-- A guarded call succeeds if its guards pass. -/
theorem succeeds_iff {p : Monitor ApiResult} {P : Prop} {s' : Machine} (h : Guarded (p.run (exec .code) s) P s s') :
    Succeeds p s ↔ P := by
  constructor
  · rintro ⟨t, ht⟩
    rcases h.cases ht with ⟨-, hP, -⟩ | ⟨hne, -⟩
    · exact hP
    · exact absurd rfl hne
  · exact fun hP => ⟨s', h.1 hP⟩

/-- In one stripe, the checks pass if the entries are zero. -/
theorem pagesPass_iff (hfits : (dramStripePageFor g a).toNat + pageCount.toNat ≤ g.dramStripePages.toNat) :
    PagesPass g s a pageCount ↔ ∀ i < pageCount.toNat, s.mem.load64 (entry g a i) = 0 := by
  refine ⟨fun h => h.empty, fun h => ⟨?_, h⟩⟩
  have hlt := g.dramStripePages.isLt
  rw [gt_iff_lt, BitVec.lt_def, BitVec.toNat_add, Nat.mod_eq_of_lt (by omega)]
  omega

/-- **Which pages are admitted**: `reserve_metadata_pages` is right, and `accept_metadata_pages` is
right about pages of which some have been given away, and not all to the owner. -/
theorem admits_iff (hcount : 1 ≤ pageCount.toNat) (howner : owner ≠ nullEnclaveId)
    (hfits : (dramStripePageFor g a).toNat + pageCount.toNat ≤ g.dramStripePages.toNat) :
    Admits g s a pageCount owner type ↔
      (¬ ∀ i < pageCount.toNat, s.mem.load64 (entry g a i) = 0) ∧
        ¬ ∀ i < pageCount.toNat, s.mem.load64 (entry g a i) = metadataPageInfo owner emptyMetadataPageType := by
  have hsucceeds : ∀ freeInfo, Succeeds (assignMetadataPages g a pageCount owner type freeInfo) s ↔
      ∀ i < pageCount.toNat, s.mem.load64 (entry g a i) = 0 := fun freeInfo =>
    (succeeds_iff (assignMetadataPages_spec g s a pageCount owner type freeInfo)).trans (pagesPass_iff hfits)
  have hinfo : metadataPageInfo owner emptyMetadataPageType ≠ 0 := by
    rw [metadataPageInfo, emptyMetadataPageType, show owner ||| (0 : Word) = owner from BitVec.or_zero]
    exact howner
  constructor
  · rintro ⟨-, haccept⟩
    have hiff := (hsucceeds _).symm.trans haccept
    have hzero : ¬ ∀ i < pageCount.toNat, s.mem.load64 (entry g a i) = 0 := fun h =>
      hinfo ((hiff.mp h 0 hcount).symm.trans (h 0 hcount))
    exact ⟨hzero, fun h => hzero (hiff.mpr h)⟩
  · rintro ⟨hzero, hgiven⟩
    exact ⟨hsucceeds _, (hsucceeds _).trans (iff_of_false hzero hgiven)⟩

/-- Region `1` is a metadata region, and its page map is empty. -/
def emptyMap : Machine :=
  { blankMachine with mem := blankMachine.mem.store64 (twoRegions.globals.regionField .owner 1) metadataEnclaveId }

theorem metadataPage_emptyMap : MetadataPage twoRegions.globals emptyMap 0x82000 :=
  ⟨by decide, by decide, by decide +kernel, Memory.load64_store64_self ..⟩

/-- The page `0x82000` of it has been given to another enclave. -/
def givenAway : Machine :=
  { emptyMap with mem := emptyMap.mem.store64 (metadataPageInfoFor twoRegions.globals 0x82000) 0x83000 }

theorem load64_givenAway : givenAway.mem.load64 (entry twoRegions.globals 0x82000 0) = 0x83000 := by
  rw [entry_zero]
  exact Memory.load64_store64_self ..

/-- A page that belongs to another enclave is not admitted. -/
theorem admits_givenAway :
    givenAway.mem.load64 (twoRegions.globals.regionField .owner (dramRegionFor twoRegions.globals 0x82000)) =
      metadataEnclaveId ∧
    Admits twoRegions.globals givenAway 0x82000 1 0x81000 threadMetadataPageType := by
  refine ⟨?_, (admits_iff (by decide) (by decide) (by decide)).mpr ⟨fun h => ?_, fun h => ?_⟩⟩
  · exact (Memory.load64_store64_of_apart (Memory.apart_of_le (by decide) (by decide))).trans
      metadataPage_emptyMap.metadata
  · exact absurd (load64_givenAway.symm.trans (h 0 (by decide))) (by decide)
  · exact absurd (load64_givenAway.symm.trans (h 0 (by decide))) (by decide)

/-- A page that belongs to nobody is accepted. -/
theorem not_admits : MetadataPage twoRegions.globals emptyMap 0x82000 ∧
    ¬ Admits twoRegions.globals emptyMap 0x82000 1 0x81000 threadMetadataPageType := by
  refine ⟨metadataPage_emptyMap, fun h => ?_⟩
  have hpass : PagesPass twoRegions.globals emptyMap 0x82000 1 := ⟨by decide, by decide +kernel⟩
  have haccepted := h.accept.mp ⟨_, (assignMetadataPages_spec _ _ _ _ _ _ _).1 hpass⟩ 0 (by decide)
  exact absurd ((hpass.empty 0 (by decide)).symm.trans haccepted) (by decide)

end MapEntries

end Sanctum
