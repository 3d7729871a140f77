import Sanctum.Monitor.DramRegions

/-!
# What the DRAM region calls do

One lemma for each call of `Sanctum.Monitor.DramRegions`, with locks read as the
code has them. `Guarded` says that a call returns `monitor_ok` in a given state if
its guards pass, and otherwise an error, with the machine as it was. The guards of
a call that can succeed are a structure of its own (`BlockPasses`, `AssignPasses`,
..), and so is the state it leaves (`blockedState`, `assignedState`, ..).

What these lemmas say is all that a call can do: no later proof looks into a call.
-/

namespace Sanctum

/-! ### Guarded calls -/

/-- The outcome `x` of a call from `s` is `monitor_ok` in `s'` if `P`, and otherwise an
error in `s`. -/
def Guarded (x : Option (ApiResult × Machine)) (P : Prop) (s s' : Machine) : Prop :=
  (P → x = some (.ok, s')) ∧ (¬ P → ∃ e, e ≠ .ok ∧ x = some (e, s))

namespace Guarded

variable {x : Option (ApiResult × Machine)} {P Q : Prop} {s s' : Machine}

theorem ok : Guarded (some (.ok, s')) True s s' := ⟨fun _ => rfl, fun h => absurd trivial h⟩

theorem error {e : ApiResult} (he : e ≠ .ok := by decide) : Guarded (some (e, s)) False s s' :=
  ⟨False.elim, fun _ => ⟨e, he, rfl⟩⟩

/-- One more check in front. -/
theorem check {c : Prop} [Decidable c] {e : ApiResult} (h : Guarded x P s s')
    (he : e ≠ .ok := by decide) : Guarded (if c then some (e, s) else x) (¬ c ∧ P) s s' := by
  by_cases hc : c
  · rw [if_pos hc]
    exact ⟨fun hP => absurd hc hP.1, fun _ => ⟨e, he, rfl⟩⟩
  · rw [if_neg hc]
    exact ⟨fun hP => h.1 hP.2, fun hP => h.2 fun hP' => hP ⟨hc, hP'⟩⟩

/-- Two ways on. -/
theorem either {c : Prop} [Decidable c] {y : Option (ApiResult × Machine)} (h : Guarded x P s s')
    (h' : Guarded y Q s s') : Guarded (if c then x else y) (c ∧ P ∨ ¬ c ∧ Q) s s' := by
  by_cases hc : c
  · rw [if_pos hc]
    exact ⟨fun hP => h.1 (by tauto), fun hP => h.2 (by tauto)⟩
  · rw [if_neg hc]
    exact ⟨fun hP => h'.1 (by tauto), fun hP => h'.2 (by tauto)⟩

/-- A guarded call, and what is done after it if it succeeds. -/
theorem seq {p rest : Monitor ApiResult} {error : ApiResult → Monitor ApiResult} {t : Machine}
    (h : Guarded (p.run (exec .code) s) P s t) (herror : ∀ e, (error e).run (exec .code) s = some (e, s))
    (hrest : P → Guarded (rest.run (exec .code) t) Q s s') :
    Guarded ((p >>= fun e => if e ≠ .ok then error e else rest).run (exec .code) s) (P ∧ Q) s s' := by
  rw [Prog.run_bind]
  by_cases hP : P
  · rw [h.1 hP, Option.bind_some, if_neg (fun h => h rfl)]
    exact ⟨fun hPQ => (hrest hP).1 hPQ.2, fun hPQ => (hrest hP).2 fun hQ => hPQ ⟨hP, hQ⟩⟩
  · obtain ⟨e, he, hx⟩ := h.2 hP
    rw [hx, Option.bind_some, if_pos he]
    exact ⟨fun hPQ => absurd hPQ.1 hP, fun _ => ⟨e, he, herror e⟩⟩

theorem congr (h : Guarded x P s s') (hPQ : P ↔ Q) : Guarded x Q s s' := propext hPQ ▸ h

/-- What a guarded call did. -/
theorem cases (h : Guarded x P s s') {e : ApiResult} {t : Machine} (hx : x = some (e, t)) :
    (e = .ok ∧ P ∧ t = s') ∨ (e ≠ .ok ∧ ¬ P ∧ t = s) := by
  by_cases hP : P
  · rw [h.1 hP, Option.some.injEq, Prod.mk.injEq] at hx
    exact .inl ⟨hx.1.symm, hP, hx.2.symm⟩
  · obtain ⟨e', he', hx'⟩ := h.2 hP
    rw [hx', Option.some.injEq, Prod.mk.injEq] at hx
    obtain ⟨rfl, rfl⟩ := hx
    exact .inr ⟨he', hP, rfl⟩

end Guarded

section Spec

variable (g : Globals) (s : Machine)

/-! ### Helpers -/

@[simp] theorem run_andThen (l : LockReading) (c : Bool) (p : Monitor Bool) :
    (andThen c p).run (exec l) s = if c then p.run (exec l) s else some (false, s) := by
  cases c <;> rfl

@[simp] theorem ite_some_false (c b : Bool) :
    (if c = true then some (b, s) else some (false, s)) = some (c && b, s) := by
  cases c <;> rfl

@[simp] theorem run_testAndSetDramRegionLock_code (r : Word) :
    (testAndSetDramRegionLock g r).run (exec .code) s = some (g.regionLocked s r, s) := rfl

@[simp] theorem run_clearDramRegionLock_code (r : Word) :
    (clearDramRegionLock g r).run (exec .code) s = some ((), s) := rfl

@[simp] theorem run_readDramRegionOwner (l : LockReading) (r : Word) :
    (readDramRegionOwner g r).run (exec l) s = some (g.region s .owner r, s) := rfl

@[simp] theorem run_currentEnclave (l : LockReading) (core : Word) :
    (currentEnclave g core).run (exec l) s = some (g.coreInfo s .enclaveId core, s) := rfl

/-- `is_valid_enclave_id` of a state. -/
def Globals.validEnclaveId (id : EnclaveId) : Bool := g.region s .owner (clampedDramRegionFor g id) == id

@[simp] theorem run_isValidEnclaveId (l : LockReading) (id : EnclaveId) :
    (isValidEnclaveId g id).run (exec l) s = some (g.validEnclaveId s id, s) := rfl

/-- The bitmap that `set_enclave_region_bitmap_bit` takes to be an enclave's. -/
def Globals.bitmapOf (id : EnclaveId) : Word :=
  if id = nullEnclaveId then g.osRegionBitmap else enclaveRegionBitmap id

@[simp] theorem run_setEnclaveRegionBitmapBit (l : LockReading) (id r : Word) (v : Bool) :
    (setEnclaveRegionBitmapBit g id r v).run (exec l) s =
      some ((), { s with mem := s.mem.setBit (g.bitmapOf id) r v }) := by
  unfold setEnclaveRegionBitmapBit Globals.bitmapOf
  split <;> simp

/-! ### `block_dram_region` -/

/-- The checks of `block_dram_region(r)` on core `core` pass. -/
structure BlockPasses (core r : Word) : Prop where
  /-- The region is not the first, and there is such a region. -/
  dynamic : isDynamicDramRegion g r = true
  /-- Its lock flag is clear. -/
  unlocked : g.regionLocked s r = false
  /-- The caller owns it. -/
  owned : g.region s .owner r = g.coreInfo s .enclaveId core
  /-- An enclave has no pinned pages in it. -/
  unpinned : g.region s .owner r = nullEnclaveId ∨ g.region s .pinnedPages r = 0
  /-- The lock flag of the owner's region is clear. -/
  ownerUnlocked : g.regionLocked s (dramRegionFor g (g.region s .owner r)) = false
  /-- The DMA range does not cross the region's first stripe. -/
  noDma : dramRegionFor g (g.region s .owner r) = 0 →
    dmaRangeCrossed g s.dmaRangeStart s.dmaRangeEnd r = false

/-- Memory after the stores of `block_dram_region` to region `r` and the clock. -/
def blockStores (m : Memory) (r owner : Word) : Memory :=
  let m := m.store64 (g.regionField .previousOwner r) owner
  let m := m.store64 (g.regionField .owner r) blockedEnclaveId
  let blockClock := m.load64 g.dramRegions
  let m := m.store64 g.dramRegions (blockClock + 1)
  m.store64 (g.regionField .blockedAt r) blockClock

/-- Memory after region `r` of `owner` has been blocked. -/
def blockedMem (m : Memory) (r owner : Word) : Memory :=
  (blockStores g m r owner).setBit (g.bitmapOf owner) r false

/-- The machine after region `r` has been blocked. -/
def blockedState (r : Word) : Machine :=
  let owner := g.region s .owner r
  let m := blockedMem g s.mem r owner
  { s with
    mem := m
    csr := Function.update s.csr (if owner = nullEnclaveId then .drbMap else .edrbMap) (m.load64 (g.bitmapOf owner)) }

theorem run_blockRegion (l : LockReading) (r : Word) :
    (blockRegion g (g.region s .owner r) r).run (exec l) s = some ((), blockedState g s r) := by
  unfold blockRegion blockedState blockedMem blockStores
  by_cases h : g.region s .owner r = nullEnclaveId
  · simp [h, Globals.bitmapOf]
  · simp [h, Globals.bitmapOf]

theorem blockDramRegion_spec (core r : Word) :
    Guarded ((blockDramRegion g core r).run (exec .code) s) (BlockPasses g s core r) s (blockedState g s r) := by
  simp only [blockDramRegion, Prog.run_bind, Prog.run_ite, Prog.run_pure, Option.bind_some,
    run_testAndSetDramRegionLock_code, run_clearDramRegionLock_code, run_readDramRegionOwner,
    run_currentEnclave, run_andThen, run_load64, run_readDmaRange, ite_some_false, run_blockRegion]
  refine Guarded.congr (.check <| .check <| .check <| .check <| .check <| .check .ok) ?_
  simp
  constructor
  · rintro ⟨h1, h2, h3, h4, h5, h6⟩
    exact ⟨h1, h2, h3, by grind [Globals.region], h5, h6⟩
  · rintro ⟨h1, h2, h3, h4, h5, h6⟩
    exact ⟨h1, h2, h3, by grind [Globals.region], h5, h6⟩

/-! ### `create_metadata_region` -/

/-- The checks that `create_metadata_region(r)` and `assign_dram_region(r, ..)` begin
with: a free region that nobody has locked. -/
structure FreeRegion (r : Word) : Prop where
  /-- There is such a region. -/
  valid : isValidDramRegion g r = true
  /-- Its lock flag is clear. -/
  unlocked : g.regionLocked s r = false
  /-- It is free. -/
  free : g.region s .owner r = freeEnclaveId

/-- Memory after the stores of `init_metadata_region` to region `r`. -/
def metadataStores (m : Memory) (r : Word) : Memory :=
  (m.store64 (g.regionField .owner r) metadataEnclaveId).store64 (g.regionField .pinnedPages r) 0

/-- The machine after region `r` has become a metadata region. -/
def metadataState (r : Word) : Machine :=
  { s with
    mem := (metadataStores g s.mem r).zeroed (dramRegionStart g r) (sll g.metadataRegionStart pageShift).toNat }

theorem createMetadataRegion_spec (r : Word) :
    Guarded ((createMetadataRegion g r).run (exec .code) s) (FreeRegion g s r) s (metadataState g s r) := by
  simp only [createMetadataRegion, initMetadataRegion, Prog.run_bind, Prog.run_ite, Prog.run_pure,
    Option.bind_some, run_testAndSetDramRegionLock_code, run_clearDramRegionLock_code,
    run_readDramRegionOwner, run_store64, run_bzero]
  refine Guarded.congr (.check <| .check <| .check .ok) ?_
  simp
  constructor
  · rintro ⟨h1, h2, h3⟩
    exact ⟨h1, h2, h3⟩
  · rintro ⟨h1, h2, h3⟩
    exact ⟨h1, h2, h3⟩

/-! ### `assign_dram_region` -/

/-- The checks of `assign_dram_region(r, newOwner)` pass. -/
structure AssignPasses (r : Word) (newOwner : EnclaveId) : Prop extends FreeRegion g s r where
  /-- The lock flag of the new owner's region is clear. -/
  ownerUnlocked : g.regionLocked s (dramRegionFor g newOwner) = false
  /-- `is_valid_enclave_id`. -/
  ownerValid : g.validEnclaveId s newOwner = true

/-- The machine after region `r` has been assigned to `newOwner`. -/
def assignedState (r : Word) (newOwner : EnclaveId) : Machine :=
  let m := (s.mem.store64 (g.regionField .owner r) newOwner).setBit (g.bitmapOf newOwner) r true
  { s with
    mem := m
    csr := if newOwner = 0 then Function.update s.csr .drbMap (m.load64 g.osRegionBitmap) else s.csr }

theorem run_assignRegion (l : LockReading) (r : Word) (newOwner : EnclaveId) :
    (assignRegion g r newOwner).run (exec l) s = some ((), assignedState g s r newOwner) := by
  unfold assignRegion assignedState
  simp only [Prog.run_bind, run_store64, Option.bind_some, run_setEnclaveRegionBitmapBit, Prog.run_ite,
    run_setDrbMap, Prog.run_pure]
  split <;> rfl

theorem assignDramRegion_spec (r : Word) (newOwner : EnclaveId) :
    Guarded ((assignDramRegion g r newOwner).run (exec .code) s) (AssignPasses g s r newOwner) s
      (assignedState g s r newOwner) := by
  simp only [assignDramRegion, Prog.run_bind, Prog.run_ite, Prog.run_pure, Option.bind_some,
    run_testAndSetDramRegionLock_code, run_clearDramRegionLock_code, run_readDramRegionOwner,
    run_isValidEnclaveId, run_assignRegion]
  refine Guarded.congr (.check <| .check <| .check <| .check <| .either .ok .error) ?_
  simp
  constructor
  · rintro ⟨h1, h2, h3, h4, h5⟩
    exact ⟨⟨h1, h2, h3⟩, h4, h5⟩
  · rintro ⟨⟨h1, h2, h3⟩, h4, h5⟩
    exact ⟨h1, h2, h3, h4, h5⟩

/-! ### `free_dram_region` -/

/-- The checks of `free_dram_region(r)` pass. -/
structure FreePasses (r : Word) : Prop where
  /-- There is such a region. -/
  valid : isValidDramRegion g r = true
  /-- Its lock flag is clear. -/
  unlocked : g.regionLocked s r = false
  /-- It is blocked, and no core's stamp is below its own; or it is a metadata region
  without pinned pages. -/
  releasable :
    g.region s .owner r = blockedEnclaveId ∧
      (∀ i < g.coreCount.toNat, ¬ g.coreInfo s .flushedAt (BitVec.ofNat 64 i) < g.region s .blockedAt r) ∨
    g.region s .owner r = metadataEnclaveId ∧ g.region s .pinnedPages r = 0

/-- The machine after region `r` has become free. -/
def freedState (r : Word) : Machine :=
  { s with mem := s.mem.store64 (g.regionField .owner r) freeEnclaveId }

/-- The core loop only looks. -/
theorem run_someCoreNotFlushed (l : LockReading) (blockedAt : Word) :
    (someCoreNotFlushed g blockedAt).run (exec l) s =
      some (Prog.firstUp (fun i => if g.coreInfo s .flushedAt (BitVec.ofNat 64 i) < blockedAt then some ()
        else none) g.coreCount.toNat 0, s) :=
  Prog.run_findUp _ (fun _ => rfl) _ _

theorem freeDramRegion_spec (r : Word) :
    Guarded ((freeDramRegion g r).run (exec .code) s) (FreePasses g s r) s (freedState g s r) := by
  simp only [freeDramRegion, Prog.run_bind, Prog.run_ite, Prog.run_pure, Option.bind_some,
    run_testAndSetDramRegionLock_code, run_clearDramRegionLock_code, run_readDramRegionOwner,
    run_load64, run_store64, run_someCoreNotFlushed]
  refine Guarded.congr
    (.check <| .check <| .either (.either .ok .error) (.either (.either .ok .error) .error)) ?_
  simp only [Option.isNone_iff_eq_none, Prog.firstUp_eq_none_iff]
  simp
  constructor
  · rintro ⟨h1, h2, h3⟩
    refine ⟨h1, h2, ?_⟩
    rcases h3 with ⟨h3, h4⟩ | ⟨h3, h4, h5⟩
    · exact .inl ⟨h3, fun i hi => BitVec.not_lt.mpr (h4 i hi)⟩
    · exact .inr ⟨h4, h5⟩
  · rintro ⟨h1, h2, h3⟩
    refine ⟨h1, h2, ?_⟩
    rcases h3 with ⟨h3, h4⟩ | ⟨h3, h4⟩
    · exact .inl ⟨h3, fun i hi => BitVec.not_lt.mp (h4 i hi)⟩
    · exact .inr ⟨by rw [h3]; decide, h3, h4⟩

/-! ### `flush_cached_dram_regions` -/

/-- The machine after the TLBs of core `core` have been flushed: the clock has gone to
the address that the core's `flushed_at` holds. -/
def flushedState (core : Word) : Machine :=
  { s with
    mem := s.mem.store64 (g.coreInfo s .flushedAt core) (g.blockClock s)
    tlbFlushes := Function.update s.tlbFlushes core (s.tlbFlushes core + 1) }

theorem run_flushCachedDramRegions (l : LockReading) (core : Word) :
    (flushCachedDramRegions g core).run (exec l) s = some (.ok, flushedState g s core) := rfl

/-! ### `set_dma_range` -/

/-- The checks of `set_dma_range(base, mask)`. -/
structure DmaChecks (base mask : Word) : Prop where
  /-- A power of two of bytes, aligned to its size. -/
  validRange : isValidRange base mask = true
  /-- Its last byte is in DRAM. -/
  lastInDram : isDramAddress g (base ||| mask) = true
  /-- The lock flag of region `0` is clear. -/
  unlocked : g.regionLocked s 0 = false
  /-- So are those of the regions of the stripes that the loop gets to. -/
  stripesUnlocked : ∀ n : ℕ, (∀ i ≤ n, base + BitVec.ofNat 64 i * g.dramStripeSize < (base ||| mask) + 1) →
    g.regionLocked s (dramRegionFor g (base + BitVec.ofNat 64 n * g.dramStripeSize)) = false

/-- The machine with a new DMA range. -/
def dmaState (base mask : Word) : Machine :=
  { s with dmaRangeStart := base, dmaRangeEnd := (base ||| mask) + 1 }

/-- The stripe loop only looks. -/
theorem setDmaRangeStripes_reads (base rangeEnd : Word) :
    Prog.Post (exec .code) (setDmaRangeStripes g base rangeEnd) s fun _ s' => s' = s := by
  refine Prog.Post.whileSome rfl fun b s' hs' => ?_
  subst hs'
  intro a s'' hrun
  simp only [Prog.run_ite, Prog.run_bind, run_andThen, testAndSetDramRegionLock, run_testAndSet_code,
    ite_some_false, Option.bind_some, Prog.run_pure, run_readDramRegionOwner,
    run_clearDramRegionLock_code] at hrun
  split_ifs at hrun <;> simp only [Option.some.injEq, Prod.mk.injEq] at hrun <;> exact hrun.2.symm

/-- It comes to its end only if it finds no lock flag set. -/
theorem setDmaRangeStripes_unlocked (base rangeEnd : Word) (h0 : g.regionLocked s 0 = false) :
    Prog.Post (exec .code) (setDmaRangeStripes g base rangeEnd) s fun x _ => ∀ owned, x = some (some owned) →
      ∀ n : ℕ, (∀ i ≤ n, base + BitVec.ofNat 64 i * g.dramStripeSize < rangeEnd) →
        g.regionLocked s (dramRegionFor g (base + BitVec.ofNat 64 n * g.dramStripeSize)) = false := by
  -- the stripes that the loop has passed
  refine (Prog.Post.whileSome_inv (P := fun (b : Word × Bool) s' => s' = s ∧ ∃ k : ℕ,
      b.1 = base + BitVec.ofNat 64 k * g.dramStripeSize ∧
        ∀ n < k, g.regionLocked s (dramRegionFor g (base + BitVec.ofNat 64 n * g.dramStripeSize)) = false)
    (Q := fun (c : Option Bool) _ => ∀ owned, c = some owned → ∀ n : ℕ,
      (∀ i ≤ n, base + BitVec.ofNat 64 i * g.dramStripeSize < rangeEnd) →
        g.regionLocked s (dramRegionFor g (base + BitVec.ofNat 64 n * g.dramStripeSize)) = false)
    ⟨rfl, 0, by simp, fun n hn => absurd hn (Nat.not_lt_zero n)⟩ fun (b, owned) s' ⟨hs', k, hb, hpassed⟩ => ?_).mono
      fun x s' hx owned howned => hx _ howned owned rfl
  subst hs'
  dsimp only at hb
  have hnext (hunlocked : g.regionLocked s' (dramRegionFor g b) = false) :
      ∃ k', b + g.dramStripeSize = base + BitVec.ofNat 64 k' * g.dramStripeSize ∧
        ∀ n < k', g.regionLocked s' (dramRegionFor g (base + BitVec.ofNat 64 n * g.dramStripeSize)) = false := by
    refine ⟨k + 1, ?_, fun n hn => ?_⟩
    · rw [hb, BitVec.ofNat_add, BitVec.add_mul, BitVec.add_assoc]
      congr 2
      exact (BitVec.one_mul _).symm
    · rcases Nat.lt_succ_iff_lt_or_eq.mp hn with hlt | rfl
      · exact hpassed n hlt
      · rwa [← hb]
  intro c s'' hrun
  dsimp only at hrun
  simp only [Prog.run_ite, Prog.run_bind, run_andThen, testAndSetDramRegionLock, run_testAndSet_code,
    ite_some_false, Option.bind_some, Prog.run_pure, run_readDramRegionOwner,
    run_clearDramRegionLock_code] at hrun
  split_ifs at hrun with hlt hlocked hother
  · obtain ⟨rfl, rfl⟩ := Prod.mk.inj (Option.some.inj hrun)
    exact nofun
  · obtain ⟨rfl, rfl⟩ := Prod.mk.inj (Option.some.inj hrun)
    refine ⟨rfl, hnext ?_⟩
    simp only [bne_iff_ne, ne_eq, Bool.and_eq_true, not_and, not_not] at hlocked
    simpa [Globals.regionLocked] using hlocked hother
  · obtain ⟨rfl, rfl⟩ := Prod.mk.inj (Option.some.inj hrun)
    refine ⟨rfl, hnext ?_⟩
    rwa [not_not.mp hother]
  · obtain ⟨rfl, rfl⟩ := Prod.mk.inj (Option.some.inj hrun)
    intro _ _ n hvisited
    rcases Nat.lt_or_ge n k with hn | hn
    · exact hpassed n hn
    · exact absurd (hb ▸ hvisited k hn) hlt

/-- What `set_dma_range` does if it returns. -/
theorem setDmaRange_cases {base mask : Word} {e : ApiResult} {s' : Machine}
    (h : (setDmaRange g base mask).run (exec .code) s = some (e, s')) :
    (e = .ok ∧ DmaChecks g s base mask ∧ s' = dmaState s base mask) ∨ (e ≠ .ok ∧ s' = s) := by
  simp only [setDmaRange, Prog.run_bind, Prog.run_ite, Prog.run_pure, run_testAndSetDramRegionLock_code,
    Option.bind_some] at h
  split_ifs at h with h1 h2 h3
  · simp only [Option.some.injEq, Prod.mk.injEq] at h
    exact .inr ⟨by rw [← h.1]; decide, h.2.symm⟩
  · simp only [Option.some.injEq, Prod.mk.injEq] at h
    exact .inr ⟨by rw [← h.1]; decide, h.2.symm⟩
  · simp only [Option.some.injEq, Prod.mk.injEq] at h
    exact .inr ⟨by rw [← h.1]; decide, h.2.symm⟩
  · obtain ⟨⟨res, t⟩, hloop, h⟩ := Option.bind_eq_some_iff.mp h
    obtain rfl := setDmaRangeStripes_reads g s _ _ _ _ hloop
    have hstripes := setDmaRangeStripes_unlocked g t _ _ (by simpa using h3) _ _ hloop
    match res with
    | none => simp at h
    | some none =>
      simp only [Prog.run_bind, run_clearDramRegionLock_code, Option.bind_some, Prog.run_pure,
        Option.some.injEq, Prod.mk.injEq] at h
      exact .inr ⟨by rw [← h.1]; decide, h.2.symm⟩
    | some (some b) =>
      simp only [Prog.run_bind, run_clearDramRegionLock_code, run_writeDmaRange, Option.bind_some,
        Prog.run_pure, Option.some.injEq, Prod.mk.injEq] at h
      exact .inl ⟨h.1.symm, ⟨by simpa using h1, by simpa using h2, by simpa using h3, hstripes b rfl⟩, h.2.symm⟩

end Spec

end Sanctum
