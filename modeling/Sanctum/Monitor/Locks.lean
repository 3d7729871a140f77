import Sanctum.Machine.MutualExclusion
import Sanctum.Monitor.BootInit
import Sanctum.Monitor.Api

/-!
# The locks

The monitor has a lock for each DRAM region and one for each enclave. Both are a flag
in memory, which `atomic_flag_test_and_set` is to set and `atomic_flag_clear` to clear.
Both functions take the flag by value, so that the flag in memory never changes
(`Lock.run_attempt`), and a lock answers for ever what it answered first.

That is mutual exclusion only for callers who never try twice (`exclusive_iff`). Read as
their comments have it, the two functions make a region's flag a lock
(`exclusive_documented`).
-/

namespace Sanctum

/-- The monitor's locks. -/
inductive Lock where
  /-- The lock of a DRAM region. -/
  | region (r : Word)
  /-- The lock of an enclave. -/
  | enclave (id : EnclaveId)

namespace Lock

variable (g : Globals)

/-- A caller tries to take the lock; whether it is held already. `unset` is what the
local variable of `lock_enclave` that is never assigned to holds. -/
def attempt (unset : Word) : Lock → Monitor Bool
  | region r => testAndSetDramRegionLock g r
  | enclave id => do return (← lockEnclave g unset id) != .ok

/-- A caller gives the lock back. -/
def release : Lock → Monitor Unit
  | region r => clearDramRegionLock g r
  | enclave id => unlockEnclave id

/-- The lock's flag is set. -/
def held (s : Machine) : Lock → Bool
  | region r => g.regionLocked s r
  | enclave id => enclaveLocked s id

/-- What `lock_enclave` checks before it looks at the flag. -/
def Exists (s : Machine) : Lock → Prop
  | region _ => True
  | enclave id => EnclavePage g s id

/-- An attempt or a release, by any caller. -/
def step (l : LockReading) (L : Lock) (s : Machine) (e : LockEvent) (s' : Machine) : Prop :=
  match e with
  | .attempt b => ∃ unset, (L.attempt g unset).run (exec l) s = some (b, s')
  | .release => (L.release g).run (exec l) s = some ((), s')

variable {g} {L : Lock} {s s' : Machine}

/-! ### The code -/

/-- An attempt is told the flag and changes nothing. -/
theorem run_attempt (unset : Word) (h : L.Exists g s) :
    (L.attempt g unset).run (exec .code) s = some (L.held g s, s) := by
  cases L with
  | region r => exact run_testAndSetDramRegionLock_code g s r
  | enclave id =>
    have hspec := lockEnclave_spec g s unset id
    rw [attempt, Prog.run_bind, held]
    cases hlocked : enclaveLocked s id with
    | false => rw [hspec.1 ⟨h, hlocked⟩]; rfl
    | true =>
      obtain ⟨e, he, hrun⟩ := hspec.2 fun hpass => by simp [hlocked] at hpass
      rw [hrun, Option.bind_some, Prog.run_pure, bne_iff_ne.mpr he]

/-- A release changes nothing. -/
theorem run_release : (L.release g).run (exec .code) s = some ((), s) := by
  cases L with
  | region r => exact run_clearDramRegionLock_code g s r
  | enclave id => exact run_clear_code s _

/-- In every history the flag stays as it is, and every attempt is told it. -/
theorem run_unchanged {tr : List (Step Machine LockEvent)} (h : L.Exists g s) (hrun : Run (L.step g .code) s tr s') :
    s' = s ∧ ∀ e ∈ tr.map Step.label, e.Says (L.held g s) := by
  refine hrun.history (P := fun tr s' => s' = s ∧ ∀ e ∈ tr.map Step.label, e.Says (L.held g s)) ⟨rfl, by simp⟩ ?_
  rintro tr s₁ e s₂ - ⟨rfl, hsays⟩ hstep
  have hlast : s₂ = s₁ ∧ e.Says (L.held g s₁) := by
    cases e with
    | attempt b =>
      obtain ⟨unset, hstep⟩ := hstep
      rw [run_attempt unset h, Option.some.injEq, Prod.mk.injEq] at hstep
      exact ⟨hstep.2.symm, fun c hc => by rw [← LockEvent.attempt.inj hc, hstep.1]⟩
    | release =>
      have hstep' : s₁ = s₂ := by simpa [step, run_release] using hstep
      exact ⟨hstep'.symm, fun c hc => by simp at hc⟩
  refine ⟨hlast.1, fun e' he' => ?_⟩
  rw [List.map_append, List.mem_append] at he'
  rcases he' with he' | he'
  · exact hsays e' he'
  · rw [List.mem_singleton.mp he']
    exact hlast.2

/-- **Mutual exclusion.** The histories of a lock in which its answers are those of a lock
are those in which, the flag being clear, there is a release between any two attempts, or,
the flag being set, there is no attempt after a release. -/
theorem exclusive_iff {tr : List (Step Machine LockEvent)} (h : L.Exists g s)
    (hrun : Run (L.step g .code) s tr s') :
    Exclusive (tr.map Step.label) ↔
      if L.held g s then NoneAfterRelease (tr.map Step.label) else ReleasedBetween (tr.map Step.label) :=
  exclusive_iff_of_constant (run_unchanged h hrun).2

/-- A machine with an enclave at `0x81000`, the second page of region `1`. -/
def enclaveMachine : Machine :=
  afterAll twoRegions.globals (freshMachine twoRegions) oneEnclaveCalls

theorem exists_enclave : (enclave 0x81000).Exists twoRegions.globals enclaveMachine :=
  ⟨⟨by decide, by decide, by decide +kernel, by decide +kernel⟩, by decide +kernel⟩

/-- An attempt to take a lock whose flag is clear. -/
theorem step_attempt (h : L.Exists g s) (hclear : L.held g s = false) : L.step g .code s (.attempt false) s :=
  ⟨0, by rw [run_attempt 0 h, hclear]⟩

/-- Two callers take the lock of the enclave, one after the other. -/
theorem not_exclusive_enclave : ¬ Exclusive [.attempt false, .attempt false] := by
  have hstep := step_attempt exists_enclave (by decide +kernel)
  intro h
  have hrel := (exclusive_iff exists_enclave (.snoc (.snoc .nil hstep) hstep)).mp h
  rw [if_neg (by decide +kernel)] at hrel
  exact absurd (hrel [] [] [] false false rfl) (by simp)

/-- Two callers take the lock of region `1` of a machine just booted, one after the other. -/
theorem not_exclusive_region : ∃ (g : Globals) (L : Lock) (s s' : Machine) (tr : List (Step Machine LockEvent)),
    L.Exists g s ∧ Run (L.step g .code) s tr s' ∧ ¬ Exclusive (tr.map Step.label) := by
  have hstep := step_attempt (L := region 1) (s := freshMachine twoRegions) (g := twoRegions.globals) trivial
    (by decide +kernel)
  refine ⟨twoRegions.globals, region 1, _, _, _, trivial, .snoc (.snoc .nil hstep) hstep, fun h => ?_⟩
  exact absurd (h.untilRelease [] [] [] false rfl (by simp)) (by decide)

/-! ### As the comments have it -/

/-- **A region's lock is a lock** if the flag reaches the two functions as their comments
have it. -/
theorem exclusive_documented {r : Word} {tr : List (Step Machine LockEvent)}
    (hrun : Run ((region r).step g .documented) s tr s') : Exclusive (tr.map Step.label) := by
  refine (hrun.history (P := fun tr s => FlagAfter (tr.map Step.label) (g.regionLocked s r))
    (.nil _) fun tr s₁ e s₂ _ hflag hstep => ?_).exclusive
  rw [List.map_append]
  cases e with
  | attempt b =>
    obtain ⟨unset, hstep⟩ := hstep
    obtain ⟨rfl, rfl⟩ := Prod.mk.inj (Option.some.inj hstep)
    rw [Globals.regionLocked, LockReading.writeBack, Memory.load32_store32_self]
    exact hflag.attempt
  | release =>
    obtain ⟨-, rfl⟩ := Prod.mk.inj (Option.some.inj hstep)
    rw [Globals.regionLocked, LockReading.writeBack, Memory.load32_store32_self]
    exact hflag.release

end Lock

end Sanctum
