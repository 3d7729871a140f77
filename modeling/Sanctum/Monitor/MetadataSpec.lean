import Sanctum.Monitor.DramRegionsSpec
import Sanctum.Monitor.Enclave

/-!
# What the metadata calls do

One lemma for each call of `Sanctum.Monitor.Metadata`, as `Sanctum.Monitor.DramRegionsSpec`
has them for the DRAM region calls. Of the calls that begin with `is_valid_enclave_id`
(`validated`), what is proved is that they fail and change nothing if the ID is null or
not valid.
-/

namespace Sanctum

section Spec

variable (g : Globals) (s : Machine)

/-! ### Metadata pages -/

/-- The checks of `lock_metadata_region_for` pass. -/
structure MetadataPage (a : Word) : Prop where
  /-- `is_page_aligned`. -/
  aligned : isPageAligned a = true
  /-- `is_dram_address`. -/
  inDram : isDramAddress g a = true
  /-- The lock flag of its region is clear. -/
  unlocked : g.regionLocked s (dramRegionFor g a) = false
  /-- Its region is a metadata region. -/
  metadata : g.region s .owner (dramRegionFor g a) = metadataEnclaveId

theorem lockMetadataRegionFor_spec (a : Word) :
    Guarded ((lockMetadataRegionFor g a).run (exec .code) s) (MetadataPage g s a) s s := by
  simp only [lockMetadataRegionFor, Prog.run_bind, Prog.run_ite, Prog.run_pure, Option.bind_some,
    run_testAndSetDramRegionLock_code, run_clearDramRegionLock_code, run_load64]
  refine Guarded.congr (.check <| .check <| .check .ok) ?_
  simp
  constructor
  · rintro ⟨⟨h1, h2⟩, h3, h4⟩
    exact ⟨h1, h2, h3, h4⟩
  · rintro ⟨h1, h2, h3, h4⟩
    exact ⟨⟨h1, h2⟩, h3, h4⟩

/-- The checks of `assign_metadata_pages` pass. -/
structure PagesPass (a pageCount : Word) : Prop where
  /-- The pages do not go past the end of the stripe. -/
  fits : ¬ dramStripePageFor g a + pageCount > g.dramStripePages
  /-- The entries it looks at are empty. -/
  empty : ∀ i < pageCount.toNat, s.mem.load64 (metadataPageInfoFor g a + BitVec.ofNat 64 (8 * i)) = 0

/-- Memory after `assign_metadata_pages`. -/
def pagesMem (m : Memory) (a pageCount owner type : Word) : Memory :=
  Prog.iterUp (fun i m => m.store64 (metadataPageInfoFor g a + BitVec.ofNat 64 (8 * (i - 1))) innerMetadataPageType)
    (pageCount.toNat - 1) 1 (m.store64 (metadataPageInfoFor g a) (metadataPageInfo owner type))

theorem run_markInnerEntries (l : LockReading) (pageInfo pageCount : Word) :
    (markInnerEntries pageInfo pageCount).run (exec l) s =
      some ((), { s with
        mem := Prog.iterUp (fun i m => m.store64 (pageInfo + BitVec.ofNat 64 (8 * (i - 1))) innerMetadataPageType)
          (pageCount.toNat - 1) 1 s.mem }) :=
  run_forUp_mem l s (fun _ _ => rfl) _ _

theorem run_someEntryTaken (l : LockReading) (pageInfo pageCount : Word) :
    (someEntryTaken pageInfo pageCount).run (exec l) s =
      some (Prog.firstUp (fun i => if s.mem.load64 (pageInfo + BitVec.ofNat 64 (8 * i)) ≠ 0 then some () else none)
        pageCount.toNat 0, s) :=
  Prog.run_findUp _ (fun _ => rfl) _ _

theorem assignMetadataPages_spec (a pageCount owner type freeInfo : Word) :
    Guarded ((assignMetadataPages g a pageCount owner type freeInfo).run (exec .code) s) (PagesPass g s a pageCount) s
      { s with mem := pagesMem g s.mem a pageCount owner type } := by
  simp only [assignMetadataPages, Prog.run_bind, Prog.run_ite, Prog.run_pure, Option.bind_some, run_store64,
    run_someEntryTaken, run_markInnerEntries]
  refine Guarded.congr (.check <| .check .ok) ?_
  simp only [Option.not_isSome_iff_eq_none, Prog.firstUp_eq_none_iff, and_true]
  constructor
  · rintro ⟨h1, h2⟩
    exact ⟨h1, fun i hi => by simpa using h2 i (Nat.zero_le _) (by omega)⟩
  · rintro ⟨h1, h2⟩
    exact ⟨h1, fun i _ hi => by simpa using h2 i (by omega)⟩

/-! ### `lock_enclave` -/

/-- `lock_enclave` takes the ID to be that of an enclave. -/
structure EnclavePage (id : EnclaveId) : Prop extends MetadataPage g s id where
  /-- The page's entry says that an enclave starts there. -/
  entry : s.mem.load64 (metadataPageInfoFor g id) = metadataPageInfo id enclaveMetadataPageType

/-- The lock flag of the enclave is set. -/
def enclaveLocked (id : EnclaveId) : Bool := s.mem.load32 (enclaveLock id) != 0

theorem lockEnclave_spec (unset : Word) (id : EnclaveId) :
    Guarded ((lockEnclave g unset id).run (exec .code) s) (EnclavePage g s id ∧ enclaveLocked s id = false) s s := by
  rw [lockEnclave, Prog.run_ite]
  refine Guarded.congr (P := _ ∧ MetadataPage g s id ∧
      s.mem.load64 (metadataPageInfoFor g id) = metadataPageInfo id enclaveMetadataPageType ∧
      enclaveLocked s id = false)
    (.check <| .seq (lockMetadataRegionFor_spec g s id) (fun _ => rfl) fun _ => ?_) ?_
  · simp only [Prog.run_bind, Prog.run_ite, Prog.run_pure, Option.bind_some,
      run_clearDramRegionLock_code, run_load64, run_testAndSet_code]
    exact Guarded.congr (.check <| .check .ok) (by simp [enclaveLocked])
  · simp
    constructor
    · rintro ⟨-, h1, h2, h3⟩
      exact ⟨⟨h1, h2⟩, h3⟩
    · rintro ⟨⟨h1, h2⟩, h3⟩
      exact ⟨⟨h1.inDram, h1.aligned⟩, h1, h2, h3⟩

/-! ### `create_enclave` -/

/-- The stores of `init_enclave_info` to the fields of the structure. -/
def enclaveInfoStores (e evBase evMask mailboxCount : Word) (debug : Bool) : List (Word × Word) :=
  [(enclaveField .mailboxCount e, mailboxCount), (enclaveField .isInitialized e, 0),
    (enclaveField .isDebug e, boolWord debug), (enclaveField .evBase e, evBase),
    (enclaveField .evMask e, evMask), (enclaveField .loadEptbr e, 0), (enclaveField .lastLoadAddr e, 0),
    (enclaveField .threadCount e, 0), (enclaveField .dramRegionCount e, 0)]

/-- The stores of `init_enclave_hash` to the hash block before it is hashed. -/
def initBlockStores (e evBase evMask mailboxCount : Word) (debug : Bool) : List (Word × Word) :=
  [(blockField .opcode e, enclaveInitOpcode), (blockField .ptr1 e, evBase), (blockField .ptr2 e, evMask),
    (blockField .size1 e, mailboxCount), (blockField .size2 e, boolWord debug)]

/-- The stores that zero fields of the hash block. -/
def zeroBlockStores (e : Word) (fs : List BlockField) : List (Word × Word) := fs.map fun f => (blockField f e, 0)

/-- The machine after `init_enclave_hash`. -/
def initHashState (e evBase evMask mailboxCount : Word) (debug : Bool) : Machine :=
  let m := (s.mem.zeroed (enclaveHashBlock e) hashBlockSize).storeAll (initBlockStores e evBase evMask mailboxCount debug)
  let hash := Function.update s.hash (enclaveHash e) ⟨[], false⟩
  let st := hash (enclaveHash e)
  { s with
    mem := m.storeAll (zeroBlockStores e [.ptr1, .ptr2, .size1, .size2])
    hash := Function.update hash (enclaveHash e) ⟨st.blocks ++ [m.hashBlock (enclaveHashBlock e)], st.finalized⟩ }

/-- The machine after `init_enclave_info`. -/
def initInfoState (e evBase evMask mailboxCount : Word) (debug : Bool) : Machine :=
  initHashState { s with mem := s.mem.storeAll (enclaveInfoStores e evBase evMask mailboxCount debug) }
    e evBase evMask mailboxCount debug

theorem run_initEnclaveInfo (e evBase evMask mailboxCount : Word) (debug : Bool) :
    (initEnclaveInfo e evBase evMask mailboxCount debug).run (exec .code) s =
      some ((), initInfoState s e evBase evMask mailboxCount debug) := rfl

/-- The checks of `create_enclave` pass. -/
structure CreatePasses (unset : Word) (id : EnclaveId) (evBase evMask mailboxCount : Word) : Prop
    extends MetadataPage g s id, PagesPass g s id (enclaveInfoPages g mailboxCount) where
  /-- `is_valid_range`. -/
  validRange : isValidRange evBase evMask = true
  /-- The range has a page. -/
  hasPage : ¬ evMask + 1 < pageSize
  /-- The second check of the owner, of the region that was never set. -/
  unsetMetadata : g.region s .owner unset = metadataEnclaveId

/-- The machine after `create_enclave`. -/
def createdState (id : EnclaveId) (evBase evMask mailboxCount : Word) (debug : Bool) : Machine :=
  initInfoState { s with mem := pagesMem g s.mem id (enclaveInfoPages g mailboxCount) id enclaveMetadataPageType }
    id evBase evMask mailboxCount debug

theorem createEnclave_spec (unset : Word) (id : EnclaveId) (evBase evMask mailboxCount : Word) (debug : Bool) :
    Guarded ((createEnclave g unset id evBase evMask mailboxCount debug).run (exec .code) s)
      (CreatePasses g s unset id evBase evMask mailboxCount) s
      (createdState g s id evBase evMask mailboxCount debug) := by
  rw [createEnclave, Prog.run_ite, Prog.run_ite]
  refine Guarded.congr (P := _ ∧ _ ∧ MetadataPage g s id ∧ g.region s .owner unset = metadataEnclaveId ∧
      PagesPass g s id (enclaveInfoPages g mailboxCount))
    (.check <| .check <| .seq (lockMetadataRegionFor_spec g s id) (fun _ => rfl) fun _ => ?_) ?_
  · rw [Prog.run_bind, run_load64, Option.bind_some, Prog.run_ite]
    refine Guarded.congr
      (.check <| .seq (Q := True) (assignMetadataPages_spec g s id _ id _ _) (fun _ => rfl) fun _ => ?_)
      (by simp [Globals.region])
    simp only [Prog.run_bind, run_initEnclaveInfo, Option.bind_some, run_clearDramRegionLock_code, Prog.run_pure]
    exact .ok
  · simp
    constructor
    · rintro ⟨h1, h2, h3, h4, h5⟩
      exact ⟨h3, h5, h1, by simpa using h2, h4⟩
    · rintro ⟨h1, h2, h3, h4, h5⟩
      exact ⟨h3, by simpa using h4, h1, h5, h2⟩

/-! ### `assign_thread` and `load_thread` -/

theorem metadataPageInfo_enclave_ne_zero (id : EnclaveId) : metadataPageInfo id enclaveMetadataPageType ≠ 0 := by
  intro h
  have h2 := congrArg (fun w : Word => w.getLsbD 1) h
  simp [metadataPageInfo, enclaveMetadataPageType] at h2

/-- The pages that `assign_thread` and `load_thread` reserve begin with the enclave's own,
which is taken. -/
theorem reserve_threadPages_fails {id : EnclaveId} (h : EnclavePage g s id) (type : Word) :
    Guarded ((reserveMetadataPages g id threadMetadataPages id type).run (exec .code) s) False s s := by
  refine Guarded.congr (P := False) ?_ Iff.rfl
  have hspec := assignMetadataPages_spec g s id threadMetadataPages id type emptyMetadataPageType
  refine ⟨False.elim, fun _ => hspec.2 fun hpass => ?_⟩
  have h0 := hpass.empty 0 (by decide)
  simp only [Nat.mul_zero, BitVec.ofNat_eq_ofNat, BitVec.add_zero] at h0
  exact metadataPageInfo_enclave_ne_zero id (h.entry.symm.trans h0)

/-- `assign_thread` never succeeds. -/
theorem assignThread_fails (lockUnset unset : Word) (id : EnclaveId) (threadId : Word) :
    Guarded ((assignThread g lockUnset unset id threadId).run (exec .code) s) False s s := by
  rw [assignThread]
  refine Guarded.congr (.seq (Q := _ ∧ False) (lockEnclave_spec g s lockUnset id) (fun _ => rfl) fun hid =>
    .seq (lockMetadataRegionFor_spec g s threadId) (fun _ => rfl) fun _ => ?_) (by tauto)
  dsimp only
  rw [Prog.run_bind, run_load64, Option.bind_some, Prog.run_ite]
  refine Guarded.congr (Q := False) (.either (Q := False)
    (.seq (Q := False) (reserve_threadPages_fails g s hid.1 _) (fun _ => rfl) False.elim) ?_) (by tauto)
  exact .error

/-- `load_thread` never succeeds. -/
theorem loadThread_fails (lockUnset unset : Word) (id : EnclaveId)
    (threadId entryPc entryStack faultPc faultStack : Word) :
    Guarded ((loadThread g lockUnset unset id threadId entryPc entryStack faultPc faultStack).run (exec .code) s)
      False s s := by
  rw [loadThread]
  refine Guarded.congr (.seq (Q := _ ∧ False) (lockEnclave_spec g s lockUnset id) (fun _ => rfl) fun hid =>
    .seq (lockMetadataRegionFor_spec g s threadId) (fun _ => rfl) fun _ => ?_) (by tauto)
  dsimp only
  have hcheck : ∀ c, (andThen c (do
      return (← load64 (enclaveField .loadEptbr id)) != 0)).run (exec .code) s =
      some (c && s.mem.load64 (enclaveField .loadEptbr id) != 0, s) := by
    simp only [run_andThen, Prog.run_bind, run_load64, Option.bind_some, Prog.run_pure, ite_some_false, implies_true]
  rw [Prog.run_bind, run_load64, Option.bind_some, Prog.run_bind, hcheck, Option.bind_some, Prog.run_ite]
  refine Guarded.congr (Q := False) (.either (Q := False)
    (.seq (Q := False) (reserve_threadPages_fails g s hid.1 _) (fun _ => rfl) False.elim) ?_) (by tauto)
  exact .error

/-! ### Calls that begin with `is_valid_enclave_id` -/

/-- A call on an ID that is null or not valid fails. -/
theorem validated_fails {id : EnclaveId} (body : Monitor ApiResult)
    (h : id = nullEnclaveId ∨ g.validEnclaveId s id = false) :
    Guarded ((validated g id body).run (exec .code) s) False s s := by
  have hcheck : (if id = nullEnclaveId then pure true else do
      return !(← isValidEnclaveId g id) : Monitor Bool).run (exec .code) s = some (true, s) := by
    rw [Prog.run_ite]
    split
    · rfl
    · next hid =>
      rw [Prog.run_bind, run_isValidEnclaveId, Option.bind_some, h.resolve_left hid, Prog.run_pure]
      rfl
  rw [validated]
  rw [Prog.run_bind, run_testAndSetDramRegionLock_code, Option.bind_some, Prog.run_ite]
  refine Guarded.congr (.check (P := False) ?_) (by tauto)
  rw [Prog.run_bind, hcheck, Option.bind_some, Prog.run_ite, if_pos rfl]
  exact .error

/-! ### `accept_thread` -/

/-- The thread fields in the order they are copied in. -/
def threadFields : List ThreadField := [.entryPc, .entryStack, .faultPc, .faultStack, .eptbr]

/-- The stores of `accept_thread` to the thread's structure. -/
def acceptStores (m : Memory) (threadId threadInfoAddr : Word) : List (Word × Word) :=
  threadFields.map fun f => (threadField f threadId, m.load64 (threadInitField f threadInfoAddr))

/-- The checks of `accept_thread` on core `core` pass. -/
structure AcceptPasses (core threadId threadInfoAddr : Word) : Prop
    extends PagesPass g s threadId threadMetadataPages where
  /-- `is_dram_address`. -/
  inDram : isDramAddress g threadInfoAddr = true
  /-- `is_page_aligned`. -/
  aligned : isPageAligned threadInfoAddr = true
  /-- The lock flag of the region with the number `threadInfoAddr` is clear. -/
  unlocked : g.regionLocked s threadInfoAddr = false
  /-- The caller owns the region of `threadInfoAddr`. -/
  owned : g.region s .owner (dramRegionFor g threadInfoAddr) = g.coreInfo s .enclaveId core
  /-- The lock flag of the caller's region is clear. -/
  ownerUnlocked : g.regionLocked s (dramRegionFor g (g.coreInfo s .enclaveId core)) = false

/-- The machine after `accept_thread`. -/
def acceptedState (core threadId threadInfoAddr : Word) : Machine :=
  let m := pagesMem g s.mem threadId threadMetadataPages (g.coreInfo s .enclaveId core) threadMetadataPageType
  { s with mem := m.storeAll (acceptStores m threadId threadInfoAddr) }

theorem acceptThread_spec (core threadId threadInfoAddr : Word) :
    Guarded ((acceptThread g core threadId threadInfoAddr).run (exec .code) s)
      (AcceptPasses g s core threadId threadInfoAddr) s (acceptedState g s core threadId threadInfoAddr) := by
  rw [acceptThread, Prog.run_ite]
  refine Guarded.congr (P := _ ∧ g.regionLocked s threadInfoAddr = false ∧
      g.region s .owner (dramRegionFor g threadInfoAddr) = g.coreInfo s .enclaveId core ∧
      g.regionLocked s (dramRegionFor g (g.coreInfo s .enclaveId core)) = false ∧
      PagesPass g s threadId threadMetadataPages) (.check ?_) ?_
  · rw [Prog.run_bind, run_currentEnclave, Option.bind_some]
    dsimp only
    rw [Prog.run_bind, run_testAndSetDramRegionLock_code, Option.bind_some, Prog.run_ite]
    refine Guarded.congr (P := _ ∧ _) (.check ?_) (and_congr (by simp) Iff.rfl)
    rw [Prog.run_bind, run_readDramRegionOwner, Option.bind_some, Prog.run_ite]
    refine Guarded.congr (P := _ ∧ _) (.check ?_) (and_congr (by simp) Iff.rfl)
    rw [Prog.run_bind, run_testAndSetDramRegionLock_code, Option.bind_some, Prog.run_ite]
    refine Guarded.congr (P := _ ∧ _) (.check ?_) (and_congr (by simp) Iff.rfl)
    exact Guarded.congr (.seq (assignMetadataPages_spec g s threadId threadMetadataPages _ _ _)
      (fun _ => rfl) fun _ => .ok) (by tauto)
  · simp
    constructor
    · rintro ⟨⟨h1, h2⟩, h3, h4, h5, h6⟩
      exact ⟨h6, h1, h2, h3, h4, h5⟩
    · rintro ⟨h6, h1, h2, h3, h4, h5⟩
      exact ⟨⟨h1, h2⟩, h3, h4, h5, h6⟩

/-! ### `copy_debug_enclave_page` -/

/-- The checks of `copy_debug_enclave_page` pass. -/
structure CopyPasses (id : EnclaveId) (enclaveAddr osAddr : Word) : Prop where
  /-- `is_page_aligned`. -/
  aligned : isPageAligned enclaveAddr = true ∧ isPageAligned osAddr = true
  /-- `is_dram_address`. -/
  inDram : isDramAddress g enclaveAddr = true ∧ isDramAddress g osAddr = true
  /-- The lock flag of the enclave's region is clear. -/
  unlocked : g.regionLocked s (clampedDramRegionFor g id) = false
  /-- The lock flag of `osAddr`'s region is clear. -/
  osUnlocked : g.regionLocked s (dramRegionFor g osAddr) = false
  /-- `is_valid_enclave_id`. -/
  valid : g.validEnclaveId s id = true
  /-- The OS owns `osAddr`'s region. -/
  osOwned : g.region s .owner (dramRegionFor g osAddr) = nullEnclaveId
  /-- The enclave has `enclaveAddr`'s region. -/
  hasRegion : s.mem.getBit (g.bitmapOf id) (dramRegionFor g enclaveAddr) = true
  /-- The enclave is a debug enclave. -/
  debug : s.mem.load64 (enclaveField .isDebug id) ≠ 0

/-- Memory after a page has been copied. -/
def copiedMem (m : Memory) (source target : Word) : Memory :=
  Prog.iterUp (fun i m => m.store64 (target + BitVec.ofNat 64 (8 * i)) (m.load64 (source + BitVec.ofNat 64 (8 * i))))
    (pageSize.toNat / 8) 0 m

theorem run_copyPage (l : LockReading) (source target : Word) :
    (copyPage source target).run (exec l) s = some ((), { s with mem := copiedMem s.mem source target }) :=
  run_forUp_mem l s (fun _ _ => rfl) _ _

/-- Nothing changes outside of the target page. -/
theorem copiedMem_of_not_within {m : Memory} {source target b : Word}
    (hb : ¬ Memory.Within target pageSize.toNat b) :
    copiedMem m source target b = m b := by
  have hsize : pageSize.toNat = 4096 := by rw [pageSize_eq]; rfl
  have hcount : pageSize.toNat / 8 = 512 := by omega
  unfold copiedMem
  generalize pageSize.toNat / 8 = n at *
  refine Prog.iterUp_induction (P := fun _ (m' : Memory) => m' b = m b) rfl fun j m' _ hj ih => ?_
  rw [← ih]
  exact Memory.store64_of_not_within fun h => hb (h.of_add (by omega) (by omega))

/-- The machine after `copy_debug_enclave_page`. -/
def copiedState (enclaveAddr osAddr : Word) (readFromEnclave : Bool) : Machine :=
  { s with
    mem := if readFromEnclave then copiedMem s.mem enclaveAddr osAddr else copiedMem s.mem osAddr enclaveAddr }

@[simp] theorem run_readEnclaveRegionBitmapBit (l : LockReading) (id : EnclaveId) (r : Word) :
    (readEnclaveRegionBitmapBit g id r).run (exec l) s = some (s.mem.getBit (g.bitmapOf id) r, s) := by
  unfold readEnclaveRegionBitmapBit Globals.bitmapOf
  split <;> rfl

theorem copyDebugResult_eq_ok {id enclaveOwner osOwner : EnclaveId} {hasRegion : Bool} {isDebug : Word} :
    copyDebugResult id enclaveOwner osOwner hasRegion isDebug = .ok ↔
      isDebug ≠ 0 ∧ enclaveOwner = id ∧ osOwner = nullEnclaveId ∧ hasRegion = true := by
  unfold copyDebugResult
  split_ifs with h1 h2
  · simp only [false_iff]; tauto
  · simp only [false_iff]
    rcases h2 with h2 | h2 | h2 <;> simp [h2]
  · simp only [true_iff]
    push Not at h2
    exact ⟨h1, h2.1, h2.2.1, by simpa using h2.2.2⟩

theorem copyDebugEnclavePage_spec (id : EnclaveId) (enclaveAddr osAddr : Word) (readFromEnclave : Bool) :
    Guarded ((copyDebugEnclavePage g id enclaveAddr osAddr readFromEnclave).run (exec .code) s)
      (CopyPasses g s id enclaveAddr osAddr) s (copiedState s enclaveAddr osAddr readFromEnclave) := by
  rw [copyDebugEnclavePage, Prog.run_ite, Prog.run_ite]
  dsimp only
  refine Guarded.congr (P := _ ∧ _ ∧ g.regionLocked s (clampedDramRegionFor g id) = false ∧
      g.regionLocked s (dramRegionFor g osAddr) = false ∧
      copyDebugResult id (g.region s .owner (clampedDramRegionFor g id)) (g.region s .owner (dramRegionFor g osAddr))
        (s.mem.getBit (g.bitmapOf id) (dramRegionFor g enclaveAddr))
        (s.mem.load64 (enclaveField .isDebug id)) = .ok) (.check <| .check ?_) ?_
  · rw [Prog.run_bind, run_testAndSetDramRegionLock_code, Option.bind_some, Prog.run_ite]
    refine Guarded.congr (P := _ ∧ _) (.check ?_) (and_congr (by simp) Iff.rfl)
    rw [Prog.run_bind, run_testAndSetDramRegionLock_code, Option.bind_some, Prog.run_ite]
    refine Guarded.congr (P := _ ∧ _) (.check ?_) (and_congr (by simp) Iff.rfl)
    rw [Prog.run_bind, run_readDramRegionOwner, Option.bind_some, Prog.run_bind, run_readDramRegionOwner,
      Option.bind_some, Prog.run_bind, run_readEnclaveRegionBitmapBit, Option.bind_some, Prog.run_bind, run_load64,
      Option.bind_some]
    generalize copyDebugResult id _ _ _ _ = result
    by_cases hok : result = .ok
    · subst hok
      rw [Prog.run_ite, if_pos rfl, Prog.run_ite, Prog.run_bind, Prog.run_bind, run_copyPage, run_copyPage]
      cases readFromEnclave <;>
        simp only [copiedState, if_true, Bool.false_eq_true, if_false, Option.bind_some, Prog.run_bind,
          run_clearDramRegionLock_code, Prog.run_pure]
      · exact .ok
      · exact .ok
    · rw [Prog.run_ite, if_neg hok]
      exact Guarded.congr (P := False) (.error hok) (by simp [hok])
  · simp only [copyDebugResult_eq_ok]
    simp
    constructor
    · rintro ⟨h1, h2, h3, h4, h5, h6, h7, h8⟩
      exact ⟨h1, h2, h3, h4, by simpa [Globals.validEnclaveId] using h6, h7, h8, h5⟩
    · rintro ⟨h1, h2, h3, h4, h6, h7, h8, h5⟩
      exact ⟨h1, h2, h3, h4, h5, by simpa [Globals.validEnclaveId] using h6, h7, h8⟩

end Spec

end Sanctum
