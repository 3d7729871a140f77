import Sanctum.Monitor.Api
import Sanctum.Monitor.BootInit
import Sanctum.Trap.Vector

/-!
# The calls of the OS

`ecall_from_s_trap` takes an environment call of the OS apart: the number is in `a7`, the arguments
are in `a0`, `a1` and so on, and the result goes to `a0`. The monitor's header gives the numbers
(`OsCall.number`), and the API the arguments of each call (`OsCall.call`). The dispatcher is to
make that call and no other (`Implements`).

Two calls come out wrong. `block_dram_region` has a number but no case, and is answered as
an unknown call is; and the last argument of `load_thread` is taken from `a6` instead of `a5`.
Everything else is as the header says (`implements_iff`).

The saved registers are an array of their own, next to the machine, as are the local variables of
the calls. The services of the standard interface (console, timer, interrupts) are a parameter.
-/

namespace Sanctum

namespace Trap

namespace Dispatch

/-! ### Numbers -/

/-- The monitor's calls from the OS, by the names of their numbers. -/
inductive OsCall where
  /-- `SBI_SM_OS_BLOCK_DRAM_REGION`. -/
  | blockDramRegion
  /-- `SBI_SM_OS_SET_DMA_RANGE`. -/
  | setDmaRange
  /-- `SBI_SM_OS_DRAM_REGION_STATE`. -/
  | dramRegionState
  /-- `SBI_SM_OS_DRAM_REGION_OWNER`. -/
  | dramRegionOwner
  /-- `SBI_SM_OS_ASSIGN_DRAM_REGION`. -/
  | assignDramRegion
  /-- `SBI_SM_OS_FREE_DRAM_REGION`. -/
  | freeDramRegion
  /-- `SBI_SM_OS_FLUSH_CACHED_DRAM_REGIONS`. -/
  | flushCachedDramRegions
  /-- `SBI_SM_OS_CREATE_METADATA_REGION`. -/
  | createMetadataRegion
  /-- `SBI_SM_OS_METADATA_REGION_PAGES`. -/
  | metadataRegionPages
  /-- `SBI_SM_OS_METADATA_REGION_START`. -/
  | metadataRegionStart
  /-- `SBI_SM_OS_THREAD_METADATA_PAGES`. -/
  | threadMetadataPages
  /-- `SBI_SM_OS_ENCLAVE_METADATA_PAGES`. -/
  | enclaveMetadataPages
  /-- `SBI_SM_OS_CREATE_ENCLAVE`. -/
  | createEnclave
  /-- `SBI_SM_OS_LOAD_PAGE_TABLE`. -/
  | loadPageTable
  /-- `SBI_SM_OS_LOAD_PAGE`. -/
  | loadPage
  /-- `SBI_SM_OS_LOAD_THREAD`. -/
  | loadThread
  /-- `SBI_SM_OS_ASSIGN_THREAD`. -/
  | assignThread
  /-- `SBI_SM_OS_INIT_ENCLAVE`. -/
  | initEnclave
  /-- `SBI_SM_OS_ENTER_ENCLAVE`. -/
  | enterEnclave
  /-- `SBI_SM_OS_DELETE_THREAD`. -/
  | deleteThread
  /-- `SBI_SM_OS_DELETE_ENCLAVE`. -/
  | deleteEnclave
  /-- `SBI_SM_OS_COPY_DEBUG_ENCLAVE_PAGE`. -/
  | copyDebugEnclavePage
  deriving DecidableEq

/-- The standard calls from the OS. -/
inductive SbiCall where
  /-- `SBI_SET_TIMER`. -/
  | setTimer
  /-- `SBI_CONSOLE_PUTCHAR`. -/
  | consolePutchar
  /-- `SBI_CONSOLE_GETCHAR`. -/
  | consoleGetchar
  /-- `SBI_CLEAR_IPI`. -/
  | clearIpi
  /-- `SBI_SEND_IPI`. -/
  | sendIpi
  /-- `SBI_REMOTE_FENCE_I`. -/
  | remoteFenceI
  /-- `SBI_REMOTE_SFENCE_VMA`. -/
  | remoteSfenceVma
  /-- `SBI_REMOTE_SFENCE_VMA_ASID`. -/
  | remoteSfenceVmaAsid
  /-- `SBI_SHUTDOWN`. -/
  | shutdown
  deriving DecidableEq

/-- The numbers of the monitor's calls, as in `mcall.h`. -/
def OsCall.number : OsCall → Word
  | blockDramRegion => 2000
  | setDmaRange => 2001
  | dramRegionState => 2002
  | dramRegionOwner => 2003
  | assignDramRegion => 2004
  | freeDramRegion => 2005
  | flushCachedDramRegions => 2006
  | createMetadataRegion => 2007
  | metadataRegionPages => 2008
  | metadataRegionStart => 2009
  | threadMetadataPages => 2010
  | enclaveMetadataPages => 2011
  | createEnclave => 2012
  | loadPageTable => 2013
  | loadPage => 2014
  | loadThread => 2015
  | assignThread => 2016
  | initEnclave => 2017
  | enterEnclave => 2018
  | deleteThread => 2019
  | deleteEnclave => 2020
  | copyDebugEnclavePage => 2021

/-- The numbers of the standard calls, as in `mcall.h`. -/
def SbiCall.number : SbiCall → Word
  | setTimer => 0
  | consolePutchar => 1
  | consoleGetchar => 2
  | clearIpi => 3
  | sendIpi => 4
  | remoteFenceI => 5
  | remoteSfenceVma => 6
  | remoteSfenceVmaAsid => 7
  | shutdown => 8

/-- What a call finds besides its arguments. -/
structure Surroundings where
  /-- The core. -/
  core : Word
  /-- The content of a local variable that `lock_enclave` does not set. -/
  lockUnset : Word
  /-- The content of a local variable that the call itself does not set. -/
  unset : Word
  /-- `ENOSYS`. -/
  enosys : Word

/-! ### The dispatcher -/

/-- What the standard calls come down to. -/
inductive Service where
  /-- `mcall_console_putchar`. -/
  | consolePutchar (ch : Byte)
  /-- `mcall_console_getchar`. -/
  | consoleGetchar
  /-- `send_ipi_many`. -/
  | sendIpiMany (pmask ipiType : Word)
  /-- `mcall_clear_ipi`. -/
  | clearIpi
  /-- `mcall_shutdown`. -/
  | shutdown
  /-- `mcall_set_timer`. -/
  | setTimer (when : Word)

/-- What the dispatcher asks. -/
inductive DispatchOp where
  /-- Read `regs[i]`. -/
  | readReg (i : Fin 32)
  /-- Write `regs[i]`. -/
  | writeReg (i : Fin 32) (v : Word)
  /-- Write `mepc`. -/
  | writeMepc (v : Word)
  /-- Call a function of the API. -/
  | api (c : Call)
  /-- Call a service. -/
  | service (c : Service)

/-- The kind of answer each question gets. -/
def DispatchOp.Answer : DispatchOp → Type
  | readReg _ | api _ | service _ => Word
  | writeReg _ _ | writeMepc _ => Unit

/-- The interface between the dispatcher and the rest. -/
@[reducible] def dispatch : Interface := ⟨DispatchOp, DispatchOp.Answer⟩

/-- `regs[i]`. -/
def readReg (i : Fin 32) : Prog dispatch Word := Prog.request (I := dispatch) (.readReg i)

/-- `regs[i] = v`. -/
def writeReg (i : Fin 32) (v : Word) : Prog dispatch Unit := Prog.request (I := dispatch) (.writeReg i v)

/-- `write_csr(mepc, v)`. -/
def writeMepc (v : Word) : Prog dispatch Unit := Prog.request (I := dispatch) (.writeMepc v)

/-- Call a function of the API. -/
def api (c : Call) : Prog dispatch Word := Prog.request (I := dispatch) (.api c)

/-- Call a service. -/
def service (c : Service) : Prog dispatch Word := Prog.request (I := dispatch) (.service c)

/-- `send_ipi`, the label that three cases lead to. -/
def sendIpi (arg0 ipiType : Word) : Prog dispatch Word := do
  let _ ← service (.sendIpiMany arg0 ipiType)
  return 0

/-- The `switch` over the number `n` of the call. -/
def retval (E : Surroundings) (n arg0 arg1 : Word) : Prog dispatch Word :=
  if n = OsCall.setDmaRange.number then api (.setDmaRange arg0 arg1)
  else if n = OsCall.dramRegionState.number then api (.dramRegionState arg0)
  else if n = OsCall.dramRegionOwner.number then api (.dramRegionOwner arg0)
  else if n = OsCall.assignDramRegion.number then api (.assignDramRegion arg0 arg1)
  else if n = OsCall.freeDramRegion.number then api (.freeDramRegion arg0)
  else if n = OsCall.flushCachedDramRegions.number then api (.flushCachedDramRegions E.core)
  else if n = OsCall.createMetadataRegion.number then api (.createMetadataRegion arg0)
  else if n = OsCall.metadataRegionPages.number then api .metadataRegionPages
  else if n = OsCall.metadataRegionStart.number then api .metadataRegionStart
  else if n = OsCall.threadMetadataPages.number then api .threadMetadataPages
  else if n = OsCall.enclaveMetadataPages.number then api (.enclaveMetadataPages arg0)
  else if n = OsCall.createEnclave.number then do
    let arg2 ← readReg 12
    let arg3 ← readReg 13
    let arg4 ← readReg 14
    api (.createEnclave E.unset arg0 arg1 arg2 arg3 (arg4 != 0))
  else if n = OsCall.loadPageTable.number then do
    let arg2 ← readReg 12
    let arg3 ← readReg 13
    let arg4 ← readReg 14
    api (.loadPageTable arg0 arg1 arg2 arg3 arg4)
  else if n = OsCall.loadPage.number then do
    let arg2 ← readReg 12
    let arg3 ← readReg 13
    let arg4 ← readReg 14
    api (.loadPage arg0 arg1 arg2 arg3 arg4)
  else if n = OsCall.loadThread.number then do
    let arg2 ← readReg 12
    let arg3 ← readReg 13
    let arg4 ← readReg 14
    -- a sixth argument is in `regs[15]`
    let arg5 ← readReg 16
    api (.loadThread E.lockUnset E.unset arg0 arg1 arg2 arg3 arg4 arg5)
  else if n = OsCall.assignThread.number then api (.assignThread E.lockUnset E.unset arg0 arg1)
  else if n = OsCall.initEnclave.number then api (.initEnclave arg0)
  else if n = OsCall.enterEnclave.number then api (.enterEnclave arg0 arg1)
  else if n = OsCall.deleteThread.number then api (.deleteThread E.core arg0)
  else if n = OsCall.deleteEnclave.number then api (.deleteEnclave arg0)
  else if n = OsCall.copyDebugEnclavePage.number then do
    let arg2 ← readReg 12
    let arg3 ← readReg 13
    api (.copyDebugEnclavePage arg0 arg1 arg2 (arg3 != 0))
  else if n = SbiCall.consolePutchar.number then service (.consolePutchar (arg0.setWidth 8))
  else if n = SbiCall.consoleGetchar.number then service .consoleGetchar
  else if n = SbiCall.sendIpi.number then sendIpi arg0 ipiSoft
  else if n = SbiCall.remoteSfenceVma.number ∨ n = SbiCall.remoteSfenceVmaAsid.number then sendIpi arg0 ipiSfenceVma
  else if n = SbiCall.remoteFenceI.number then sendIpi arg0 ipiFenceI
  else if n = SbiCall.clearIpi.number then service .clearIpi
  else if n = SbiCall.shutdown.number then service .shutdown
  else if n = SbiCall.setTimer.number then service (.setTimer arg0)
  else return -E.enosys

/-- `ecall_from_s_trap`. -/
def ecallFromSTrap (E : Surroundings) (mepc : Word) : Prog dispatch Unit := do
  writeMepc (mepc + 4)
  let n ← readReg 17
  let arg0 ← readReg 10
  let arg1 ← readReg 11
  let v ← retval E n arg0 arg1
  writeReg 10 v

/-! ### Running -/

/-- The saved registers, `mepc`, the machine, and the functions of the API that have been called. -/
@[ext]
structure Frame where
  /-- The saved registers. -/
  regs : Fin 32 → Word
  /-- `mepc`. -/
  mepc : Word
  /-- The machine. -/
  machine : Machine
  /-- The calls. -/
  calls : List Call

variable (g : Globals) (services : Service → Machine → Option (Word × Machine)) (E : Surroundings)

/-- What each question does. -/
def dispatchExec : Handler dispatch Frame
  | .readReg i, s => some (s.regs i, s)
  | .writeReg i v, s => some ((), { s with regs := Function.update s.regs i v })
  | .writeMepc v, s => some ((), { s with mepc := v })
  | .api c, s => ((c.code g).run (exec .code) s.machine).map fun x =>
    (x.1, { s with machine := x.2, calls := s.calls ++ [c] })
  | .service c, s => (services c s.machine).map fun x => (x.1, { s with machine := x.2 })

/-- The dispatcher has made the calls `cs`, has `v` as the result, and goes on after the instruction. -/
def Frame.returned (s : Frame) (mepc : Word) (cs : List Call) (v : Word) (m : Machine) : Frame where
  regs := Function.update s.regs 10 v
  mepc := mepc + 4
  machine := m
  calls := s.calls ++ cs

/-! ### What the numbers stand for -/

/-- Argument `i`, which is in the `i`-th of the registers `a0`, `a1` and so on. -/
def Frame.arg (s : Frame) (i : Fin 6) : Word := s.regs ⟨10 + i, by omega⟩

/-- The function of the API with its arguments. -/
def OsCall.call (a : Fin 6 → Word) : OsCall → Call
  | blockDramRegion => .blockDramRegion E.core (a 0)
  | setDmaRange => .setDmaRange (a 0) (a 1)
  | dramRegionState => .dramRegionState (a 0)
  | dramRegionOwner => .dramRegionOwner (a 0)
  | assignDramRegion => .assignDramRegion (a 0) (a 1)
  | freeDramRegion => .freeDramRegion (a 0)
  | flushCachedDramRegions => .flushCachedDramRegions E.core
  | createMetadataRegion => .createMetadataRegion (a 0)
  | metadataRegionPages => .metadataRegionPages
  | metadataRegionStart => .metadataRegionStart
  | threadMetadataPages => .threadMetadataPages
  | enclaveMetadataPages => .enclaveMetadataPages (a 0)
  | createEnclave => .createEnclave E.unset (a 0) (a 1) (a 2) (a 3) (a 4 != 0)
  | loadPageTable => .loadPageTable (a 0) (a 1) (a 2) (a 3) (a 4)
  | loadPage => .loadPage (a 0) (a 1) (a 2) (a 3) (a 4)
  | loadThread => .loadThread E.lockUnset E.unset (a 0) (a 1) (a 2) (a 3) (a 4) (a 5)
  | assignThread => .assignThread E.lockUnset E.unset (a 0) (a 1)
  | initEnclave => .initEnclave (a 0)
  | enterEnclave => .enterEnclave (a 0) (a 1)
  | deleteThread => .deleteThread E.core (a 0)
  | deleteEnclave => .deleteEnclave (a 0)
  | copyDebugEnclavePage => .copyDebugEnclavePage (a 0) (a 1) (a 2) (a 3 != 0)

/-- The dispatcher implements the interface on these registers: for the number of a call of the
monitor it makes that call, with the arguments in `a0`, `a1` and so on, and no other; its result goes to `a0`,
and the OS goes on after the instruction. A number of no call is answered by `-ENOSYS`. -/
structure Implements (s : Frame) (mepc : Word) : Prop where
  /-- The calls of the monitor. -/
  osCall : ∀ k : OsCall, s.regs 17 = k.number →
    (ecallFromSTrap E mepc).run (dispatchExec g services) s =
      (((k.call E s.arg).code g).run (exec .code) s.machine).map fun x =>
        ((), s.returned mepc [k.call E s.arg] x.1 x.2)
  /-- The numbers of no call. -/
  unknown : (∀ k : OsCall, s.regs 17 ≠ k.number) → (∀ k : SbiCall, s.regs 17 ≠ k.number) →
    (ecallFromSTrap E mepc).run (dispatchExec g services) s =
      some ((), s.returned mepc [] (-E.enosys) s.machine)

variable {g services E} {s : Frame} {mepc : Word}

/-- After the `switch`, the result goes to `a0`. -/
theorem run_ecallFromSTrap :
    (ecallFromSTrap E mepc).run (dispatchExec g services) s =
      ((retval E (s.regs 17) (s.regs 10) (s.regs 11)).run (dispatchExec g services)
        { s with mepc := mepc + 4 }).map fun x => ((), { x.2 with regs := Function.update x.2.regs 10 x.1 }) := by
  unfold ecallFromSTrap
  rw [Prog.run_bind, show (writeMepc (mepc + 4)).run (dispatchExec g services) s =
    some ((), { s with mepc := mepc + 4 }) from rfl, Option.bind_some]
  have hread : ∀ (i : Fin 32) (u : Frame), (readReg i).run (dispatchExec g services) u = some (u.regs i, u) :=
    fun _ _ => rfl
  simp only [Prog.run_bind, hread, Option.bind_some]
  generalize (retval E (s.regs 17) (s.regs 10) (s.regs 11)).run (dispatchExec g services) { s with mepc := mepc + 4 } = x
  cases x with
  | none => rfl
  | some x => rfl

theorem run_api (c : Call) (u : Frame) :
    (api c).run (dispatchExec g services) u =
      ((c.code g).run (exec .code) u.machine).map fun x =>
        (x.1, { u with machine := x.2, calls := u.calls ++ [c] }) :=
  Prog.run_request (dispatchExec g services) (.api c) u

/-- The dispatcher makes the call `c`. -/
theorem run_ecallFromSTrap_of_api {c : Call}
    (h : (retval E (s.regs 17) (s.regs 10) (s.regs 11)).run (dispatchExec g services) { s with mepc := mepc + 4 } =
      (api c).run (dispatchExec g services) { s with mepc := mepc + 4 }) :
    (ecallFromSTrap E mepc).run (dispatchExec g services) s =
      ((c.code g).run (exec .code) s.machine).map fun x => ((), s.returned mepc [c] x.1 x.2) := by
  rw [run_ecallFromSTrap, h, run_api, Option.map_map]
  rfl

/-- The dispatcher answers that there is no such call. -/
theorem run_ecallFromSTrap_of_unknown
    (h : (retval E (s.regs 17) (s.regs 10) (s.regs 11)).run (dispatchExec g services) { s with mepc := mepc + 4 } =
      some (-E.enosys, { s with mepc := mepc + 4 })) :
    (ecallFromSTrap E mepc).run (dispatchExec g services) s =
      some ((), s.returned mepc [] (-E.enosys) s.machine) := by
  rw [run_ecallFromSTrap, h, Option.map_some, Frame.returned, List.append_nil]

/-! ### The cases -/

/-- The cases of the `switch` for the calls of the monitor but two. -/
theorem retval_osCall {k : OsCall} (hblock : k ≠ .blockDramRegion) (hload : k ≠ .loadThread) :
    (retval E k.number (s.regs 10) (s.regs 11)).run (dispatchExec g services) s =
      (api (k.call E s.arg)).run (dispatchExec g services) s := by
  cases k with
  | blockDramRegion => exact absurd rfl hblock
  | loadThread => exact absurd rfl hload
  | _ => rfl

/-- The function that is called for `load_thread`, with the sixth argument from `a6`. -/
def loadThreadCall (E : Surroundings) (s : Frame) : Call :=
  .loadThread E.lockUnset E.unset (s.arg 0) (s.arg 1) (s.arg 2) (s.arg 3) (s.arg 4) (s.regs 16)

/-- `load_thread` has a case. -/
theorem retval_loadThread :
    (retval E OsCall.loadThread.number (s.regs 10) (s.regs 11)).run (dispatchExec g services) s =
      (api (loadThreadCall E s)).run (dispatchExec g services) s := rfl

/-- `block_dram_region` has none. -/
theorem retval_blockDramRegion :
    (retval E OsCall.blockDramRegion.number (s.regs 10) (s.regs 11)).run (dispatchExec g services) s =
      some (-E.enosys, s) := rfl

/-- A number of no call has none. -/
theorem retval_unknown {n arg0 arg1 : Word} (hos : ∀ k : OsCall, n ≠ k.number) (hsbi : ∀ k : SbiCall, n ≠ k.number) :
    retval E n arg0 arg1 = pure (-E.enosys) := by
  simp only [retval, hos, hsbi, if_false, or_self]

/-- With `a5` and `a6` equal, the call is the right one. -/
theorem loadThreadCall_eq (h : s.regs 15 = s.regs 16) : loadThreadCall E s = OsCall.loadThread.call E s.arg := by
  rw [loadThreadCall, ← h]
  rfl

/-- A guarded call returns. -/
theorem returns_of_guarded {p : Monitor ApiResult} {P : Prop} {m m' : Machine}
    (h : Guarded (p.run (exec .code) m) P m m') : ∃ x, (resultOf p).run (exec .code) m = some x := by
  obtain ⟨x, hx⟩ : ∃ x, p.run (exec .code) m = some x := by
    by_cases hP : P
    · exact ⟨_, h.1 hP⟩
    · obtain ⟨e, -, he⟩ := h.2 hP
      exact ⟨_, he⟩
  exact ⟨(x.1.code, x.2), by rw [resultOf, Prog.run_bind, hx]; rfl⟩

/-! ### The other registers -/

/-- The question is none of writing a register or `mepc`. -/
def DispatchOp.keeps : DispatchOp → Bool
  | writeReg _ _ | writeMepc _ => false
  | _ => true

/-- No case of the `switch` writes a register. -/
theorem keeps_retval (n arg0 arg1 : Word) : (retval E n arg0 arg1).Only fun o : DispatchOp => o.keeps = true := by
  have hapi : ∀ c, (api c).Only fun o : DispatchOp => o.keeps = true := fun _ => .request rfl
  have hread : ∀ {i : Fin 32} {f : Word → Prog dispatch Word}, (∀ x, (f x).Only fun o : DispatchOp => o.keeps = true) →
      (readReg i >>= f).Only fun o : DispatchOp => o.keeps = true := fun hf => .bind (.request rfl) hf
  have hservice : ∀ c, (service c).Only fun o : DispatchOp => o.keeps = true := fun _ => .request rfl
  have hipi : ∀ ipiType, (sendIpi arg0 ipiType).Only fun o : DispatchOp => o.keeps = true := fun _ =>
    .bind (hservice _) fun _ => .pure _
  unfold retval
  repeat' refine .ite (fun _ => ?_) fun _ => ?_
  all_goals first
    | exact hapi _
    | exact hservice _
    | exact hipi _
    | exact .pure _
    | exact hread fun _ => hread fun _ => hapi _
    | exact hread fun _ => hread fun _ => hread fun _ => hapi _
    | exact hread fun _ => hread fun _ => hread fun _ => hread fun _ => hapi _

/-- Whatever the number, the saved registers but `a0` stay as they are, and the OS goes on after the instruction. -/
theorem post_ecallFromSTrap :
    Prog.Post (dispatchExec g services) (ecallFromSTrap E mepc) s fun _ t =>
      t.mepc = mepc + 4 ∧ ∀ i, i ≠ 10 → t.regs i = s.regs i := by
  intro _ t hrun
  rw [run_ecallFromSTrap] at hrun
  obtain ⟨⟨v, u⟩, hv, hu⟩ := Option.map_eq_some_iff.mp hrun
  obtain rfl := (Prod.mk.inj hu).2
  have hkept : u.mepc = mepc + 4 ∧ u.regs = s.regs :=
    Prog.Only.post (P := fun u => u.mepc = mepc + 4 ∧ u.regs = s.regs) (keeps_retval _ _ _) ⟨rfl, rfl⟩
      (fun o w x w' ho hw h => by
        cases o with
        | readReg i => rw [← (Prod.mk.inj (Option.some.inj h)).2]; exact hw
        | api c => obtain ⟨y, -, hy⟩ := Option.map_eq_some_iff.mp h; rw [← (Prod.mk.inj hy).2]; exact hw
        | service c => obtain ⟨y, -, hy⟩ := Option.map_eq_some_iff.mp h; rw [← (Prod.mk.inj hy).2]; exact hw
        | writeReg i v => cases ho
        | writeMepc v => cases ho) v u hv
  refine ⟨hkept.1, fun i hi => ?_⟩
  rw [← hkept.2]
  exact Function.update_of_ne hi _ _

/-! ### When the dispatcher implements the interface -/

/-- **The dispatcher implements the interface but for two slips**: exactly if the number is not that of
`block_dram_region`, and, if it is that of `load_thread`, the registers `a5` and `a6` are equal. -/
theorem implements_iff (g : Globals) (services : Service → Machine → Option (Word × Machine)) (E : Surroundings)
    (s : Frame) (mepc : Word) :
    Implements g services E s mepc ↔
      s.regs 17 ≠ OsCall.blockDramRegion.number ∧ (s.regs 17 = OsCall.loadThread.number → s.regs 15 = s.regs 16) := by
  constructor
  · intro h
    refine ⟨fun hn => ?_, fun hn => ?_⟩
    · have hrun := h.osCall .blockDramRegion hn
      rw [run_ecallFromSTrap_of_unknown (by rw [hn]; exact retval_blockDramRegion)] at hrun
      obtain ⟨x, hx⟩ := returns_of_guarded (blockDramRegion_spec g s.machine E.core (s.arg 0))
      change _ = ((resultOf (blockDramRegion g E.core (s.arg 0))).run (exec .code) s.machine).map _ at hrun
      rw [hx] at hrun
      have hcalls := congrArg Frame.calls (Prod.mk.inj (Option.some.inj hrun)).2
      exact absurd hcalls (by simp [Frame.returned])
    · have hrun := h.osCall .loadThread hn
      rw [run_ecallFromSTrap_of_api (c := loadThreadCall E s) (by rw [hn]; rfl)] at hrun
      obtain ⟨x, hx⟩ := returns_of_guarded (loadThread_fails g s.machine E.lockUnset E.unset (s.arg 0) (s.arg 1)
        (s.arg 2) (s.arg 3) (s.arg 4) (s.regs 16))
      rw [show ((loadThreadCall E s).code g).run (exec .code) s.machine = some x from hx] at hrun
      obtain ⟨y, -, hy⟩ := Option.map_eq_some_iff.mp hrun.symm
      have hcalls := congrArg Frame.calls (Prod.mk.inj hy).2
      have hcall := List.singleton_injective (List.append_cancel_left hcalls)
      exact (Call.loadThread.inj hcall).2.2.2.2.2.2.2
  · rintro ⟨hblock, hload⟩
    refine ⟨fun k hk => ?_, fun hos hsbi => ?_⟩
    · refine run_ecallFromSTrap_of_api ?_
      rw [hk]
      by_cases hkload : k = .loadThread
      · subst hkload
        rw [← loadThreadCall_eq (hload hk)]
        exact retval_loadThread (s := { s with mepc := mepc + 4 })
      · exact retval_osCall (s := { s with mepc := mepc + 4 }) (fun h => hblock (h ▸ hk)) hkload
    · exact run_ecallFromSTrap_of_unknown (by rw [retval_unknown hos hsbi]; rfl)

/-- The OS asks for the call with the number `n`, the register `a5` being `1` and the others `0`. -/
def asking (n : Word) : Frame where
  regs i := if i = 17 then n else if i = 15 then 1 else 0
  mepc := 0
  machine := freshMachine twoRegions
  calls := []

/-- The dispatcher makes no call for the number of `block_dram_region`, and calls `load_thread` with a
sixth argument of `0` instead of `1`. -/
theorem not_implements :
    ¬ Implements twoRegions.globals (fun _ _ => none) ⟨0, 0, 0, 88⟩ (asking OsCall.blockDramRegion.number) 0x80200000 ∧
      ¬ Implements twoRegions.globals (fun _ _ => none) ⟨0, 0, 0, 88⟩ (asking OsCall.loadThread.number) 0x80200000 := by
  refine ⟨fun h => ?_, fun h => ?_⟩
  · have hcalls := congrArg (Option.map fun x => x.2.calls) (h.osCall .blockDramRegion rfl)
    exact absurd hcalls (by decide +kernel)
  · have hcalls := congrArg (Option.map fun x => x.2.calls) (h.osCall .loadThread rfl)
    exact absurd hcalls (by decide +kernel)

end Dispatch

end Trap

end Sanctum
