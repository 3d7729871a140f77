import Sanctum.Monitor.MapEntries
import Sanctum.Monitor.MetadataLocks

/-!
# Threads

A thread's `thread_info_t` gets its pages in two ways. `load_thread` and `assign_thread` are
calls of the OS that take them from a metadata region; `accept_thread` is a call of the
enclave, for pages it has been given.

`load_thread` and `assign_thread` ask for the pages of the enclave instead of those of the
thread. These are taken, since there is an enclave, so the calls never succeed
(`never_allocates`), whatever the locks are.

`accept_thread` makes sure that the caller owns the region of `thread_info_addr`, but of
`thread_id` it asks only that the entries in the page map, where it takes them to be, are
empty; not that they say that the pages are the caller's, nor that there is a page map. What
it should do it does if it fails, and if the null enclave calls it with the address of a page
of a metadata region (`touchesOwn_iff`).
-/

namespace Sanctum

namespace ThreadAllocation

open MapEntries

variable (g : Globals)

/-! ### `load_thread` and `assign_thread` -/

/-- `metadata_page_type_mask`. -/
def metadataPageTypeMask : Word := 3

/-- The enclave that an entry of the page map says has the page. -/
def entryOwner (info : Word) : EnclaveId := info &&& ~~~metadataPageTypeMask

/-- The pages from `threadId` on have been allocated to the enclave: they are its own in the map, it
has one more thread, and nothing outside these pages, their entries and the enclave's structure
has changed. -/
structure Allocated (m m' : Memory) (id : EnclaveId) (threadId : Word) : Prop where
  /-- The pages are the enclave's. -/
  owned : ∀ i < threadMetadataPages.toNat, entryOwner (m'.load64 (entry g threadId i)) = id
  /-- There is one more thread. -/
  threadCount : m'.load64 (enclaveField .threadCount id) = m.load64 (enclaveField .threadCount id) + 1
  /-- The metadata of other enclaves and pages is as it was. -/
  others : ∀ b, (∀ i < threadMetadataPages.toNat, ¬ Memory.Within (entry g threadId i) 8 b) →
    ¬ Memory.Within threadId (4096 * threadMetadataPages.toNat) b →
    ¬ Memory.Within id enclaveInfoStructSize.toNat b → m' b = m b

/-- `assign_thread` returns `monitor_ok` and has allocated the pages. -/
def Assigns (m : Machine) (others : Word → Bool) (lockUnset unset : Word) (id : EnclaveId) (threadId : Word) :
    Prop :=
  ∃ s', (assignThread g lockUnset unset id threadId).run lockExec (entered m others) = some (.ok, s') ∧
    Allocated g m.mem s'.machine.mem id threadId

/-- `load_thread` returns `monitor_ok`, has allocated the pages, and has filled in the structure. -/
def Loads (m : Machine) (others : Word → Bool) (lockUnset unset : Word) (id : EnclaveId)
    (threadId entryPc entryStack faultPc faultStack : Word) : Prop :=
  ∃ s', (loadThread g lockUnset unset id threadId entryPc entryStack faultPc faultStack).run lockExec
      (entered m others) = some (.ok, s') ∧
    Allocated g m.mem s'.machine.mem id threadId ∧
    s'.machine.mem.load64 (threadField .entryPc threadId) = entryPc ∧
    s'.machine.mem.load64 (threadField .entryStack threadId) = entryStack ∧
    s'.machine.mem.load64 (threadField .faultPc threadId) = faultPc ∧
    s'.machine.mem.load64 (threadField .faultStack threadId) = faultStack ∧
    s'.machine.mem.load64 (threadField .eptbr threadId) = m.mem.load64 (enclaveField .loadEptbr id)

/-- A thread can be allocated: `lock_enclave` accepts the enclave, and the thread's pages are
available, no lock being held. -/
structure Available (m : Machine) (others : Word → Bool) (id : EnclaveId) (threadId : Word) : Prop where
  /-- `lock_enclave` succeeds. -/
  enclave : MetadataLocks.FindsEnclave g m others id
  /-- The thread's pages are in a metadata region that can be locked. -/
  thread : MetadataLocks.LocksRegion g m others threadId
  /-- They are in one stripe. -/
  fits : (dramStripePageFor g threadId).toNat + threadMetadataPages.toNat ≤ g.dramStripePages.toNat
  /-- Nobody has them. -/
  empty : ∀ i < threadMetadataPages.toNat, m.mem.load64 (entry g threadId i) = 0

variable {g} {m : Machine} {others : Word → Bool} {lockUnset unset : Word} {id : EnclaveId} {threadId : Word}

/-- `lock_metadata_region_for` only looks. -/
theorem looks_lockMetadataRegionFor (a : Word) : Looks (lockMetadataRegionFor g a) := by
  refine .ite (fun _ => .pure _) fun _ => .bind (looks_testAndSet _) fun _ => .ite (fun _ => .pure _) fun _ => ?_
  exact .bind (looks_load64 _) fun _ => .ite (fun _ => .bind (looks_clear _) fun _ => .pure _) fun _ => .pure _

/-- What comes out is an error. -/
abbrev Fails (p : Monitor ApiResult) (t : LockedMachine) : Prop := Prog.Post lockExec p t fun e _ => e ≠ .ok

/-- The pages that `assign_thread` and `load_thread` ask for are taken: they are the enclave's own. -/
theorem fails_reserve {t : LockedMachine} {c : Prop} [Decidable c] (owner type : Word)
    (hentry : MetadataLocks.EnclaveEntry g t.machine id) :
    Fails (if c then reserveMetadataPages g id threadMetadataPages owner type else pure .invalidState) t := by
  refine .ite (fun _ e u hrun => ?_) fun _ => .pure (by decide)
  have hspec := assignMetadataPages_spec g t.machine id threadMetadataPages owner type emptyMetadataPageType
  obtain ⟨e', he', hfails⟩ := hspec.2 (MetadataLocks.not_pagesPass hentry)
  have hlock := run_plain (s := t) (MetadataLocks.plain_assignMetadataPages (g := g) id threadMetadataPages owner type
    emptyMetadataPageType)
  rw [hfails] at hlock
  obtain ⟨rfl, -⟩ := Prod.mk.inj (Option.some.inj (hlock.symm.trans hrun))
  exact he'

/-- What both calls do until they reserve the pages. -/
theorem fails_threadCall {rest : Monitor ApiResult}
    (hrest : MetadataLocks.EnclaveEntry g m id → ∀ t : LockedMachine, t.machine = m → Fails rest t) :
    Fails (lockEnclave g lockUnset id >>= fun result => if result ≠ .ok then pure result else
      lockMetadataRegionFor g threadId >>= fun result => if result ≠ .ok then
        unlockEnclave id >>= fun _ => pure result else rest) (entered m others) := by
  refine Prog.Post.bind (Q := fun e t => e = .ok → t.machine = m ∧ MetadataLocks.EnclaveEntry g m id)
    (fun e t hrun he => ?_) fun e t ht => .ite (fun he => .pure he) fun he => ?_
  · subst he
    obtain ⟨hfinds, rfl⟩ := MetadataLocks.run_lockEnclave hrun
    exact ⟨rfl, hfinds.entry⟩
  · obtain ⟨hmachine, hentry⟩ := ht (not_not.mp he)
    refine Prog.Post.bind (looks_lockMetadataRegionFor threadId).post fun e' u hu => ?_
    refine .ite (fun he' => .after fun _ _ => .pure he') fun _ => hrest hentry u (hu.trans hmachine)

/-- After an error both locks are cleared. -/
theorem fails_bind_reserve (unset : Word) (id : EnclaveId) {p q : Monitor ApiResult} {t : LockedMachine}
    (hp : Fails p t) :
    Fails (p >>= fun result => if result ≠ .ok then
      clearDramRegionLock g unset >>= fun _ => unlockEnclave id >>= fun _ => pure result else q) t :=
  Prog.Post.bind hp fun e _ he => by
    rw [if_pos he]
    exact .after fun _ _ => .after fun _ _ => .pure he

/-- `assign_thread` fails. -/
theorem fails_assignThread : Fails (assignThread g lockUnset unset id threadId) (entered m others) := by
  refine fails_threadCall fun hentry t ht => ?_
  refine Prog.Post.bind (looks_load64 (enclaveField .isInitialized id)).post fun isInitialized u hu => ?_
  have hreserve := fails_bind_reserve (g := g) unset id (q := do
    let threadCount ← load64 (enclaveField .threadCount id)
    store64 (enclaveField .threadCount id) (threadCount + 1)
    clearDramRegionLock g unset
    unlockEnclave id
    return .ok) (fails_reserve (t := u) (c := isInitialized ≠ 0) id threadMetadataPageType
      (by rwa [hu, ht]))
  rw [Prog.ite_bind] at hreserve
  exact hreserve

/-- `load_thread` fails. -/
theorem fails_loadThread {entryPc entryStack faultPc faultStack : Word} :
    Fails (loadThread g lockUnset unset id threadId entryPc entryStack faultPc faultStack) (entered m others) := by
  refine fails_threadCall fun hentry t ht => ?_
  refine Prog.Post.bind (looks_load64 (enclaveField .isInitialized id)).post fun isInitialized u hu => ?_
  have hlooks : Looks (andThen (isInitialized == 0) (do return (← load64 (enclaveField .loadEptbr id)) != 0)) :=
    .and (.bind (looks_load64 _) fun _ => .pure _)
  refine Prog.Post.bind hlooks.post fun unloaded v hv => ?_
  have hreserve := fails_bind_reserve (g := g) unset id (q := do
    initThread id threadId entryPc entryStack faultPc faultStack
    clearDramRegionLock g unset
    unlockEnclave id
    return .ok) (fails_reserve (t := v) (c := unloaded = true) id threadMetadataPageType
      (by rwa [hv, hu, ht]))
  rw [Prog.ite_bind] at hreserve
  exact hreserve

variable (g) in
/-- **Threads are never allocated**: neither call ever succeeds. -/
theorem never_allocates (m : Machine) (others : Word → Bool) (lockUnset unset : Word) (id : EnclaveId)
    (threadId : Word) :
    ¬ Assigns g m others lockUnset unset id threadId ∧
      ∀ entryPc entryStack faultPc faultStack,
        ¬ Loads g m others lockUnset unset id threadId entryPc entryStack faultPc faultStack :=
  ⟨fun ⟨_, hrun, _⟩ => fails_assignThread _ _ hrun rfl, fun _ _ _ _ ⟨_, hrun, _⟩ => fails_loadThread _ _ hrun rfl⟩

/-- A machine with an enclave at `0x81000`, which has been initialized. -/
def enclaveMachine : Machine :=
  let s := afterAll twoRegions.globals MetadataLocks.metadataMachine [.createEnclave 1 0x81000 0 0xfff 0 false]
  { s with mem := s.mem.store64 (enclaveField .isInitialized 0x81000) 1 }

/-- The page `0x89000` is available, and the two variables that are not set have the right values by
chance, but the enclave does not get the page. -/
theorem not_assigns :
    Available twoRegions.globals enclaveMachine (fun _ => false) 0x81000 0x89000 ∧
      enclaveMachine.mem.load64 (enclaveField .isInitialized 0x81000) = 1 ∧
      ¬ Assigns twoRegions.globals enclaveMachine (fun _ => false) 1 1 0x81000 0x89000 := by
  refine ⟨⟨⟨⟨by decide, by decide, rfl, by decide +kernel⟩, ?_, rfl, by decide⟩,
    ⟨by decide, by decide, rfl, by decide +kernel⟩, by decide, by decide +kernel⟩, by decide +kernel, ?_⟩
  · rw [MetadataLocks.EnclaveEntry]
    decide +kernel
  · rintro ⟨_, hrun, -⟩
    exact fails_assignThread _ _ hrun rfl

/-! ### `accept_thread` -/

/-- The thread's pages are in a metadata region and have been given to the caller, and the caller owns
the region of `threadInfoAddr`. -/
structure Own (g : Globals) (s : Machine) (caller threadId threadInfoAddr : Word) : Prop where
  /-- `is_page_aligned`. -/
  aligned : isPageAligned threadId = true
  /-- `is_dram_address`. -/
  inDram : isDramAddress g threadId = true
  /-- The region of `threadId` is a metadata region. -/
  metadata : g.region s .owner (dramRegionFor g threadId) = metadataEnclaveId
  /-- The pages have been given to the caller. -/
  given : ∀ i < threadMetadataPages.toNat,
    s.mem.load64 (entry g threadId i) = metadataPageInfo caller emptyMetadataPageType
  /-- The caller owns the region of `threadInfoAddr`. -/
  owned : g.region s .owner (dramRegionFor g threadInfoAddr) = caller

/-- On success `accept_thread` has changed nothing but the caller's own pages and their entries; and if
they are not its own, it fails and changes nothing. -/
def TouchesOwn (g : Globals) (s : Machine) (core threadId threadInfoAddr : Word) : Prop :=
  ∀ e s', (acceptThread g core threadId threadInfoAddr).run (exec .code) s = some (e, s') →
    (e = .ok → Own g s (g.coreInfo s .enclaveId core) threadId threadInfoAddr ∧
      ∀ b, (∀ i < threadMetadataPages.toNat, ¬ Memory.Within (entry g threadId i) 8 b) →
        ¬ Memory.Within threadId (4096 * threadMetadataPages.toNat) b → s'.mem b = s.mem b) ∧
    (¬ Own g s (g.coreInfo s .enclaveId core) threadId threadInfoAddr → e ≠ .ok ∧ s' = s)

section Accept

variable {s : Machine} {core threadInfoAddr b : Word}

/-- The fields of a thread's structure are in its page. -/
theorem within_threadField {f : ThreadField} (h : Memory.Within (threadField f threadId) 8 b) :
    Memory.Within threadId 4096 b := by
  have hfield : threadField f threadId = threadId + BitVec.ofNat 64 f.offset.toNat := by cases f <;> rfl
  have hoffset : f.offset.toNat ≤ 40 := by cases f <;> decide
  exact (hfield ▸ h).of_add (by omega) (by omega)

/-- `accept_thread` writes to the thread's page and its entry only. -/
theorem acceptedState_of_not_within (hentry : ∀ i < threadMetadataPages.toNat, ¬ Memory.Within (entry g threadId i) 8 b)
    (hpage : ¬ Memory.Within threadId (4096 * threadMetadataPages.toNat) b) :
    (acceptedState g s core threadId threadInfoAddr).mem b = s.mem b := by
  rw [acceptedState]
  refine Eq.trans (Memory.storeAll_of_not_within fun p hp h => ?_)
    (pagesMem_of_forall_not_within (by decide) hentry)
  obtain ⟨f, -, rfl⟩ := List.mem_map.mp hp
  exact hpage (within_threadField h)

/-- **`accept_thread` touches the caller's own pages only** if it fails, and if the caller is the null
enclave and `threadId` a page of a metadata region. -/
theorem touchesOwn_iff :
    TouchesOwn g s core threadId threadInfoAddr ↔
      (AcceptPasses g s core threadId threadInfoAddr →
        g.coreInfo s .enclaveId core = nullEnclaveId ∧ isPageAligned threadId = true ∧
          isDramAddress g threadId = true ∧ g.region s .owner (dramRegionFor g threadId) = metadataEnclaveId) := by
  have hspec := acceptThread_spec g s core threadId threadInfoAddr
  have hinfo : ∀ e : EnclaveId, metadataPageInfo e emptyMetadataPageType = e := fun e => BitVec.or_zero
  constructor
  · intro h hpass
    obtain ⟨hown, -⟩ := (h _ _ (hspec.1 hpass)).1 rfl
    refine ⟨?_, hown.aligned, hown.inDram, hown.metadata⟩
    rw [← hinfo (g.coreInfo s .enclaveId core), ← hown.given 0 (by decide)]
    exact hpass.empty 0 (by decide)
  · intro h e s' hrun
    rcases hspec.cases hrun with ⟨rfl, hpass, rfl⟩ | ⟨he, -, rfl⟩
    · obtain ⟨hnull, haligned, hdram, hmetadata⟩ := h hpass
      have hown : Own g s (g.coreInfo s .enclaveId core) threadId threadInfoAddr := by
        refine ⟨haligned, hdram, hmetadata, fun i hi => ?_, hpass.owned⟩
        rw [hinfo, hnull]
        exact hpass.empty i hi
      exact ⟨fun _ => ⟨hown, fun b => acceptedState_of_not_within⟩, fun hnot => absurd hown hnot⟩
    · exact ⟨fun hok => absurd hok he, fun _ => ⟨he, rfl⟩⟩

end Accept

/-- The machine on which an enclave runs on core `0` and has region `1`. -/
def runningMachine : Machine :=
  { blankMachine with
    mem := (blankMachine.mem.store64 (twoRegions.globals.coreField .enclaveId 0) 0x81000).store64
      (twoRegions.globals.regionField .owner 1) 0x81000 }

/-- The enclave passes an address in region `0`, which is not a metadata region, and the call writes
there. -/
theorem not_touchesOwn : ¬ TouchesOwn twoRegions.globals runningMachine 0 0x40001 0x82000 := by
  intro h
  have hpass : AcceptPasses twoRegions.globals runningMachine 0 0x40001 0x82000 :=
    ⟨⟨by decide, by decide +kernel⟩, by decide, by decide, by decide +kernel, by decide +kernel, by decide +kernel⟩
  obtain ⟨hown, -⟩ := (h _ _ ((acceptThread_spec _ _ _ _ _).1 hpass)).1 rfl
  exact absurd hown.aligned (by decide)

end ThreadAllocation

end Sanctum
