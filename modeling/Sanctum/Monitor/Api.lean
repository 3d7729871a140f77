import Sanctum.Machine.Run
import Sanctum.Monitor.MetadataSpec

/-!
# The monitor as a transition system

The calls that `ecall_from_s_trap` and `ecall_from_enclave_trap` dispatch to
(`Call`), each with its arguments, the core it is made on where the code asks for it,
and the content of the local variable that `create_enclave` and its like never set.
A call runs to its end before the next one begins: a `Step` of the monitor is a call
with the number it returns.

`get_attestation_key`, `accept_message`, `read_message` and `send_message` have no body
in the source and are left out.

## What is proved

`step_cases` says what a step can do: the machine is as it was, or the call has
returned `monitor_ok` and has had its `Effect`. Every invariant of the monitor is
proved by going through the effects.
-/

namespace Sanctum

/-- A call of the monitor's API. -/
inductive Call where
  /-- `set_dma_range`. -/
  | setDmaRange (base mask : Word)
  /-- `dram_region_state`. -/
  | dramRegionState (dramRegion : Word)
  /-- `dram_region_owner`. -/
  | dramRegionOwner (dramRegion : Word)
  /-- `assign_dram_region`. -/
  | assignDramRegion (dramRegion : Word) (newOwner : EnclaveId)
  /-- `free_dram_region`. -/
  | freeDramRegion (dramRegion : Word)
  /-- `flush_cached_dram_regions`. -/
  | flushCachedDramRegions (core : Word)
  /-- `create_metadata_region`. -/
  | createMetadataRegion (dramRegion : Word)
  /-- `metadata_region_pages`. -/
  | metadataRegionPages
  /-- `metadata_region_start`. -/
  | metadataRegionStart
  /-- `thread_metadata_pages`. -/
  | threadMetadataPages
  /-- `enclave_metadata_pages`. -/
  | enclaveMetadataPages (mailboxCount : Word)
  /-- `create_enclave`. -/
  | createEnclave (unset : Word) (enclaveId : EnclaveId) (evBase evMask mailboxCount : Word) (debug : Bool)
  /-- `load_page_table`. -/
  | loadPageTable (enclaveId : EnclaveId) (physAddr virtualAddr level acl : Word)
  /-- `load_page`. -/
  | loadPage (enclaveId : EnclaveId) (physAddr virtualAddr osAddr acl : Word)
  /-- `load_thread`. -/
  | loadThread (lockUnset unset : Word) (enclaveId : EnclaveId) (threadId entryPc entryStack faultPc faultStack : Word)
  /-- `assign_thread`. -/
  | assignThread (lockUnset unset : Word) (enclaveId : EnclaveId) (threadId : Word)
  /-- `init_enclave`. -/
  | initEnclave (enclaveId : EnclaveId)
  /-- `enter_enclave`. -/
  | enterEnclave (enclaveId : EnclaveId) (threadId : Word)
  /-- `delete_thread`. -/
  | deleteThread (core threadId : Word)
  /-- `delete_enclave`. -/
  | deleteEnclave (enclaveId : EnclaveId)
  /-- `copy_debug_enclave_page`. -/
  | copyDebugEnclavePage (enclaveId : EnclaveId) (enclaveAddr osAddr : Word) (readFromEnclave : Bool)
  /-- `block_dram_region`. -/
  | blockDramRegion (core dramRegion : Word)
  /-- `dram_region_check_ownership`. -/
  | dramRegionCheckOwnership (core dramRegion : Word)
  /-- `accept_thread`. -/
  | acceptThread (core threadId threadInfoAddr : Word)
  /-- `exit_enclave`. -/
  | exitEnclave (core : Word)
  deriving DecidableEq

/-- The number of an API result. -/
def resultOf (p : Monitor ApiResult) : Monitor Word := do return (← p).code

section Code

variable (g : Globals)

/-- The code of a call, with the number it returns. -/
def Call.code : Call → Monitor Word
  | setDmaRange base mask => resultOf (Sanctum.setDmaRange g base mask)
  | dramRegionState r => do return (← Sanctum.dramRegionState g r).code
  | dramRegionOwner r => Sanctum.dramRegionOwner g r
  | assignDramRegion r newOwner => resultOf (Sanctum.assignDramRegion g r newOwner)
  | freeDramRegion r => resultOf (Sanctum.freeDramRegion g r)
  | flushCachedDramRegions core => resultOf (Sanctum.flushCachedDramRegions g core)
  | createMetadataRegion r => resultOf (Sanctum.createMetadataRegion g r)
  | metadataRegionPages => return g.metadataRegionPages
  | metadataRegionStart => return g.metadataRegionStart
  | threadMetadataPages => return Sanctum.threadMetadataPages
  | enclaveMetadataPages mailboxCount => return enclaveInfoPages g mailboxCount
  | createEnclave unset id evBase evMask mailboxCount debug =>
    resultOf (Sanctum.createEnclave g unset id evBase evMask mailboxCount debug)
  | loadPageTable id physAddr virtualAddr level acl =>
    resultOf (Sanctum.loadPageTable g id physAddr virtualAddr level acl)
  | loadPage id physAddr virtualAddr osAddr acl => resultOf (Sanctum.loadPage g id physAddr virtualAddr osAddr acl)
  | loadThread lockUnset unset id threadId entryPc entryStack faultPc faultStack =>
    resultOf (Sanctum.loadThread g lockUnset unset id threadId entryPc entryStack faultPc faultStack)
  | assignThread lockUnset unset id threadId => resultOf (Sanctum.assignThread g lockUnset unset id threadId)
  | initEnclave id => resultOf (Sanctum.initEnclave g id)
  | enterEnclave id threadId => resultOf (Sanctum.enterEnclave g id threadId)
  | deleteThread core threadId => resultOf (Sanctum.deleteThread g core threadId)
  | deleteEnclave id => resultOf (Sanctum.deleteEnclave g id)
  | copyDebugEnclavePage id enclaveAddr osAddr readFromEnclave =>
    resultOf (Sanctum.copyDebugEnclavePage g id enclaveAddr osAddr readFromEnclave)
  | blockDramRegion core r => resultOf (Sanctum.blockDramRegion g core r)
  | dramRegionCheckOwnership core r => resultOf (Sanctum.dramRegionCheckOwnership g core r)
  | acceptThread core threadId threadInfoAddr => resultOf (Sanctum.acceptThread g core threadId threadInfoAddr)
  | exitEnclave core => resultOf (Sanctum.exitEnclave g core)

/-- A call, and the number it has returned. -/
structure Event where
  /-- The call. -/
  call : Call
  /-- The number. -/
  result : Word

/-- A step of the monitor: a call from beginning to end. -/
def step (s : Machine) (e : Event) (s' : Machine) : Prop :=
  (e.call.code g).run (exec .code) s = some (e.result, s')

/-- What calls that have returned `monitor_ok` have done. For the calls on an enclave that
`is_valid_enclave_id` accepts it is left open. -/
inductive Effect (s : Machine) : Call → Machine → Prop where
  | setDmaRange {base mask : Word} (h : DmaChecks g s base mask) :
    Effect s (.setDmaRange base mask) (dmaState s base mask)
  | assignDramRegion {r newOwner : Word} (h : AssignPasses g s r newOwner) :
    Effect s (.assignDramRegion r newOwner) (assignedState g s r newOwner)
  | freeDramRegion {r : Word} (h : FreePasses g s r) : Effect s (.freeDramRegion r) (freedState g s r)
  | flushCachedDramRegions {core : Word} : Effect s (.flushCachedDramRegions core) (flushedState g s core)
  | createMetadataRegion {r : Word} (h : FreeRegion g s r) :
    Effect s (.createMetadataRegion r) (metadataState g s r)
  | createEnclave {unset id evBase evMask mailboxCount : Word} {debug : Bool}
    (h : CreatePasses g s unset id evBase evMask mailboxCount) :
    Effect s (.createEnclave unset id evBase evMask mailboxCount debug)
      (createdState g s id evBase evMask mailboxCount debug)
  | initEnclave {id : EnclaveId} {s' : Machine} (hid : id ≠ nullEnclaveId) (h : g.validEnclaveId s id = true) :
    Effect s (.initEnclave id) s'
  | deleteEnclave {id : EnclaveId} {s' : Machine} (hid : id ≠ nullEnclaveId) (h : g.validEnclaveId s id = true) :
    Effect s (.deleteEnclave id) s'
  | copyDebugEnclavePage {id enclaveAddr osAddr : Word} {readFromEnclave : Bool}
    (h : CopyPasses g s id enclaveAddr osAddr) :
    Effect s (.copyDebugEnclavePage id enclaveAddr osAddr readFromEnclave)
      (copiedState s enclaveAddr osAddr readFromEnclave)
  | blockDramRegion {core r : Word} (h : BlockPasses g s core r) :
    Effect s (.blockDramRegion core r) (blockedState g s r)
  | acceptThread {core threadId threadInfoAddr : Word} (h : AcceptPasses g s core threadId threadInfoAddr) :
    Effect s (.acceptThread core threadId threadInfoAddr) (acceptedState g s core threadId threadInfoAddr)

/-- The checks of a call pass: it can have an effect. -/
def Call.Passes (s : Machine) (c : Call) : Prop := ∃ s', Effect g s c s'

end Code

/-! ### What a step can do -/

section Cases

variable {g : Globals} {s s' : Machine}

theorem code_eq_zero {e : ApiResult} : e.code = 0 ↔ e = .ok := by cases e <;> decide

theorem run_resultOf {l : LockReading} {p : Monitor ApiResult} {v : Word}
    (h : (resultOf p).run (exec l) s = some (v, s')) :
    ∃ e, p.run (exec l) s = some (e, s') ∧ v = e.code := by
  rw [resultOf, Prog.run_bind] at h
  obtain ⟨⟨e, t⟩, he, h⟩ := Option.bind_eq_some_iff.mp h
  rw [Prog.run_pure, Option.some.injEq, Prod.mk.injEq] at h
  obtain ⟨rfl, rfl⟩ := h
  exact ⟨e, he, rfl⟩

/-- The outcome of a guarded call as a number. -/
theorem Guarded.cases_result {p : Monitor ApiResult} {P : Prop} {t : Machine} {v : Word}
    (h : Guarded (p.run (exec .code) s) P s t) (hrun : (resultOf p).run (exec .code) s = some (v, s')) :
    (v = 0 ∧ P ∧ s' = t) ∨ (v ≠ 0 ∧ ¬ P ∧ s' = s) := by
  obtain ⟨e, he, rfl⟩ := run_resultOf hrun
  rw [Ne, code_eq_zero]
  exact h.cases he

/-! #### Calls that only look -/

/-- The program returns and has changed nothing. -/
def OnlyLooks {α : Type} (p : Monitor α) : Prop := ∀ s, ∃ a, p.run (exec .code) s = some (a, s)

theorem OnlyLooks.unchanged {α : Type} {p : Monitor α} (h : OnlyLooks p) {a : α}
    (hrun : p.run (exec .code) s = some (a, s')) : s' = s := by
  obtain ⟨b, hb⟩ := h s
  rw [hb, Option.some.injEq, Prod.mk.injEq] at hrun
  exact hrun.2.symm

theorem OnlyLooks.bind {α β : Type} {p : Monitor α} {f : α → Monitor β} (hp : OnlyLooks p)
    (hf : ∀ a, OnlyLooks (f a)) : OnlyLooks (p >>= f) := by
  intro s
  obtain ⟨a, ha⟩ := hp s
  obtain ⟨b, hb⟩ := hf a s
  exact ⟨b, by rw [Prog.run_bind, ha, Option.bind_some, hb]⟩

theorem OnlyLooks.pure {α : Type} (a : α) : OnlyLooks (pure a : Monitor α) := fun _ => ⟨a, rfl⟩

theorem OnlyLooks.resultOf {p : Monitor ApiResult} (h : OnlyLooks p) : OnlyLooks (resultOf p) :=
  h.bind fun _ => .pure _

theorem onlyLooks_load64 (a : Word) : OnlyLooks (load64 a) := fun _ => ⟨_, rfl⟩

theorem OnlyLooks.ite {α : Type} {c : Prop} [Decidable c] {p q : Monitor α} (hp : OnlyLooks p) (hq : OnlyLooks q) :
    OnlyLooks (if c then p else q) := by
  split
  · exact hp
  · exact hq

theorem onlyLooks_testAndSet (a : Word) : OnlyLooks (testAndSet a) := fun _ => ⟨_, rfl⟩

theorem onlyLooks_clear (a : Word) : OnlyLooks (clear a) := fun _ => ⟨_, rfl⟩

theorem onlyLooks_dramRegionState (r : Word) : OnlyLooks (dramRegionState g r) :=
  .ite (.pure _) <| (onlyLooks_testAndSet _).bind fun _ => .ite (.pure _) <|
    (onlyLooks_load64 _).bind fun _ => (onlyLooks_clear _).bind fun _ => .pure _

theorem onlyLooks_dramRegionOwner (r : Word) : OnlyLooks (dramRegionOwner g r) :=
  .ite (.pure _) <| (onlyLooks_testAndSet _).bind fun _ => .ite (.pure _) <|
    (onlyLooks_load64 _).bind fun _ => (onlyLooks_clear _).bind fun _ => .pure _

theorem onlyLooks_dramRegionCheckOwnership (core r : Word) : OnlyLooks (dramRegionCheckOwnership g core r) :=
  .ite (.pure _) <| (onlyLooks_testAndSet _).bind fun _ => .ite (.pure _) <|
    (onlyLooks_load64 _).bind fun _ => (onlyLooks_load64 _).bind fun _ => (onlyLooks_clear _).bind fun _ => .pure _

/-- A validated call whose body only looks. -/
theorem OnlyLooks.validated {id : EnclaveId} {body : Monitor ApiResult} (h : OnlyLooks body) :
    OnlyLooks (validated g id body) :=
  (onlyLooks_testAndSet _).bind fun _ => .ite (.pure _) <|
    (OnlyLooks.ite (.pure _) ((onlyLooks_load64 _).bind fun _ => .pure _)).bind fun _ =>
      .ite ((onlyLooks_clear _).bind fun _ => .pure _) <| h.bind fun _ => (onlyLooks_clear _).bind fun _ => .pure _

theorem onlyLooks_isEnclaveVirtualAddress (virtualAddr : Word) (id : EnclaveId) :
    OnlyLooks (isEnclaveVirtualAddress virtualAddr id) :=
  (onlyLooks_load64 _).bind fun _ => (onlyLooks_load64 _).bind fun _ => .pure _

theorem onlyLooks_loadPageTable (id : EnclaveId) (physAddr virtualAddr level acl : Word) :
    OnlyLooks (loadPageTable g id physAddr virtualAddr level acl) :=
  .ite (.pure _) <| .ite (.pure _) <| .ite (.pure _) <| .validated <|
    (onlyLooks_load64 _).bind fun _ => .ite (.pure _) <| (onlyLooks_load64 _).bind fun _ => .ite (.pure _) <|
      (OnlyLooks.ite ((onlyLooks_isEnclaveVirtualAddress _ _).bind fun _ => .pure _) (.pure _)).bind fun _ =>
        .ite (.pure _) (.pure _)

theorem onlyLooks_loadPage (id : EnclaveId) (physAddr virtualAddr osAddr acl : Word) :
    OnlyLooks (loadPage g id physAddr virtualAddr osAddr acl) :=
  .ite (.pure _) <| .ite (.pure _) <| .validated <|
    (onlyLooks_load64 _).bind fun _ => .ite (.pure _) <| (onlyLooks_load64 _).bind fun _ => .ite (.pure _) <|
      (onlyLooks_isEnclaveVirtualAddress _ _).bind fun _ => .ite (.pure _) (.pure _)

theorem onlyLooks_enterEnclave (id : EnclaveId) (threadId : Word) : OnlyLooks (enterEnclave g id threadId) :=
  .validated <| (onlyLooks_load64 _).bind fun _ => .ite (.pure _) (.pure _)

theorem onlyLooks_deleteThread (core threadId : Word) : OnlyLooks (deleteThread g core threadId) :=
  (onlyLooks_load64 _).bind fun _ => (onlyLooks_testAndSet _).bind fun _ => .ite (.pure _) <|
    (onlyLooks_clear _).bind fun _ => .pure _

theorem onlyLooks_exitEnclave (core : Word) : OnlyLooks (exitEnclave g core) :=
  (onlyLooks_load64 _).bind fun _ => (onlyLooks_load64 _).bind fun _ => (onlyLooks_load64 _).bind fun _ => .pure _

/-- A call that fails or has its effect. -/
theorem Guarded.effect {p : Monitor ApiResult} {P : Prop} {t : Machine} {v : Word} {c : Call}
    (h : Guarded (p.run (exec .code) s) P s t) (heffect : P → Effect g s c t)
    (hrun : (Sanctum.resultOf p).run (exec .code) s = some (v, s')) :
    s' = s ∨ Effect g s c s' := by
  rcases h.cases_result hrun with ⟨-, hP, rfl⟩ | ⟨-, -, rfl⟩
  · exact .inr (heffect hP)
  · exact .inl rfl

/-- A call on an enclave: it fails, or `is_valid_enclave_id` has accepted the ID. -/
theorem validated_effect {id : EnclaveId} {body : Monitor ApiResult} {v : Word}
    (hrun : (resultOf (validated g id body)).run (exec .code) s = some (v, s')) :
    s' = s ∨ id ≠ nullEnclaveId ∧ g.validEnclaveId s id = true := by
  by_cases hid : id = nullEnclaveId ∨ g.validEnclaveId s id = false
  · rcases (validated_fails g s body hid).cases_result hrun with ⟨-, h, -⟩ | ⟨-, -, rfl⟩
    · exact h.elim
    · exact .inl rfl
  · push Not at hid
    exact .inr ⟨hid.1, by simpa using hid.2⟩

/-- **What a step can do**: nothing, or the effect of its call. -/
theorem step_cases {e : Event} (h : step g s e s') : s' = s ∨ Effect g s e.call s' := by
  obtain ⟨c, v⟩ := e
  cases c with
  | setDmaRange base mask =>
    obtain ⟨e, he, -⟩ := run_resultOf h
    rcases setDmaRange_cases g s he with ⟨-, hpass, rfl⟩ | ⟨-, rfl⟩
    · exact .inr (.setDmaRange hpass)
    · exact .inl rfl
  | dramRegionState r => exact .inl (((onlyLooks_dramRegionState r).bind fun _ => .pure _).unchanged h)
  | dramRegionOwner r => exact .inl ((onlyLooks_dramRegionOwner r).unchanged h)
  | assignDramRegion r newOwner => exact (assignDramRegion_spec g s r newOwner).effect .assignDramRegion h
  | freeDramRegion r => exact (freeDramRegion_spec g s r).effect .freeDramRegion h
  | flushCachedDramRegions core =>
    obtain ⟨e, he, -⟩ := run_resultOf h
    rw [run_flushCachedDramRegions, Option.some.injEq, Prod.mk.injEq] at he
    exact .inr (he.2 ▸ .flushCachedDramRegions)
  | createMetadataRegion r => exact (createMetadataRegion_spec g s r).effect .createMetadataRegion h
  | metadataRegionPages => exact .inl ((OnlyLooks.pure _).unchanged h)
  | metadataRegionStart => exact .inl ((OnlyLooks.pure _).unchanged h)
  | threadMetadataPages => exact .inl ((OnlyLooks.pure _).unchanged h)
  | enclaveMetadataPages mailboxCount => exact .inl ((OnlyLooks.pure _).unchanged h)
  | createEnclave unset id evBase evMask mailboxCount debug =>
    exact (createEnclave_spec g s unset id evBase evMask mailboxCount debug).effect .createEnclave h
  | loadPageTable id physAddr virtualAddr level acl =>
    exact .inl ((onlyLooks_loadPageTable _ _ _ _ _).resultOf.unchanged h)
  | loadPage id physAddr virtualAddr osAddr acl => exact .inl ((onlyLooks_loadPage _ _ _ _ _).resultOf.unchanged h)
  | loadThread lockUnset unset id threadId entryPc entryStack faultPc faultStack =>
    exact (loadThread_fails g s lockUnset unset id threadId entryPc entryStack faultPc faultStack).effect False.elim h
  | assignThread lockUnset unset id threadId =>
    exact (assignThread_fails g s lockUnset unset id threadId).effect False.elim h
  | initEnclave id => exact (validated_effect h).imp_right fun hid => .initEnclave hid.1 hid.2
  | enterEnclave id threadId => exact .inl ((onlyLooks_enterEnclave _ _).resultOf.unchanged h)
  | deleteThread core threadId => exact .inl ((onlyLooks_deleteThread _ _).resultOf.unchanged h)
  | deleteEnclave id => exact (validated_effect h).imp_right fun hid => .deleteEnclave hid.1 hid.2
  | copyDebugEnclavePage id enclaveAddr osAddr readFromEnclave =>
    exact (copyDebugEnclavePage_spec g s id enclaveAddr osAddr readFromEnclave).effect .copyDebugEnclavePage h
  | blockDramRegion core r => exact (blockDramRegion_spec g s core r).effect .blockDramRegion h
  | dramRegionCheckOwnership core r => exact .inl ((onlyLooks_dramRegionCheckOwnership _ _).resultOf.unchanged h)
  | acceptThread core threadId threadInfoAddr =>
    exact (acceptThread_spec g s core threadId threadInfoAddr).effect .acceptThread h
  | exitEnclave core => exact .inl ((onlyLooks_exitEnclave _).resultOf.unchanged h)

end Cases

/-! ### Calls one after the other -/

section Script

variable (g : Globals)

/-- The machine after a call, or as it was if the call does not return. -/
def Call.after (s : Machine) (c : Call) : Machine := ((c.code g).run (exec .code) s).elim s Prod.snd

/-- The machine after calls one after the other. -/
def afterAll (s : Machine) (cs : List Call) : Machine := cs.foldl (Call.after g) s

/-- The steps of calls one after the other. -/
def script : Machine → List Call → List (Step Machine Event)
  | _, [] => []
  | s, c :: cs => ⟨s, ⟨c, ((c.code g).run (exec .code) s).elim 0 Prod.fst⟩, c.after g s⟩ :: script (c.after g s) cs

theorem map_call_script (s : Machine) (cs : List Call) : ((script g s cs).map fun st => st.label.call) = cs := by
  induction cs generalizing s with
  | nil => rfl
  | cons c cs ih => rw [script, List.map_cons, ih]

/-- All the calls return. -/
def allReturn : Machine → List Call → Bool
  | _, [] => true
  | s, c :: cs => ((c.code g).run (exec .code) s).isSome && allReturn (c.after g s) cs

theorem run_script {s : Machine} {cs : List Call} (h : allReturn g s cs = true) :
    Run (step g) s (script g s cs) (afterAll g s cs) := by
  induction cs generalizing s with
  | nil => exact .nil
  | cons c cs ih =>
    rw [allReturn, Bool.and_eq_true] at h
    obtain ⟨x, hx⟩ := Option.isSome_iff_exists.mp h.1
    have hstep : step g s ⟨c, ((c.code g).run (exec .code) s).elim 0 Prod.fst⟩ (c.after g s) := by
      simp only [step, Call.after, hx, Option.elim_some]
    exact Run.append (.snoc .nil hstep) (ih h.2)

/-- The OS gives up region `1`, makes a metadata region of it, and creates an enclave in the
page at `0x81000`. -/
def oneEnclaveCalls : List Call :=
  [.blockDramRegion 0 1, .freeDramRegion 1, .createMetadataRegion 1, .createEnclave 1 0x81000 0 0xfff 0 false]

end Script

end Sanctum
