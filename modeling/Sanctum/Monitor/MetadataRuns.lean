import Sanctum.Monitor.Owners
import Sanctum.Monitor.PageMap

/-!
# Runs with metadata

Creating an enclave writes to the enclave's metadata region and nowhere else, so the
monitor's arrays stay what they are as long as they fit in the first stripe
(`Slot.read_createdState`). So what is known of the owners (`SpecialOwners`) is known in
runs with metadata calls too.
-/

namespace Sanctum

variable {C : Config} {s s' : Machine}

/-- The monitor's arrays fit in one stripe. `boot_init_protection` does not return otherwise:
*Sanctum assumes that the monitor fits into a DRAM stripe*. -/
def MonitorFits (C : Config) : Prop := C.arraysEnd ≤ C.stripeSize

instance (C : Config) : Decidable (MonitorFits C) := inferInstanceAs (Decidable (_ ≤ _))

/-- The calls that create metadata, besides those on regions. -/
def metadataCall : Call → Bool
  | .createEnclave .. | .loadThread .. | .assignThread .. => true
  | c => SpecialOwners.regionCall c

/-- An enclave is created in a region other than region `0`. -/
theorem CreatePasses.region_ne_zero {unset id evBase evMask mailboxCount : Word} (h : SpecialOwners C s.mem)
    (hpass : CreatePasses C.globals s unset id evBase evMask mailboxCount) : C.region id ≠ 0 := by
  intro heq
  exact h.ne_zero hpass.metadata (by decide) (BitVec.eq_of_toNat_eq ((C.toNat_dramRegionFor id).trans heq))

/-- Creating an enclave changes no slot. -/
theorem Slot.read_createdState {unset id evBase evMask mailboxCount : Word} {debug : Bool} {a : Slot}
    (hfits : MonitorFits C) (h : SpecialOwners C s.mem)
    (hpass : CreatePasses C.globals s unset id evBase evMask mailboxCount) (ha : a.Valid C) :
    Slot.read C (createdState C.globals s id evBase evMask mailboxCount debug).mem a = Slot.read C s.mem a :=
  Slot.read_congr_of_below C ha fun _ hb =>
    createdState_mem hpass (hpass.region_ne_zero h) (lt_of_lt_of_le hb hfits)

/-- The owners stay special. -/
theorem SpecialOwners.metadataStep {e : Event} (hfits : MonitorFits C) (h : SpecialOwners C s.mem)
    (hstep : Sanctum.step C.globals s e s') (hcall : metadataCall e.call = true) : SpecialOwners C s'.mem := by
  by_cases hregion : SpecialOwners.regionCall e.call = true
  · exact h.step hstep hregion
  · rcases step_cases hstep with rfl | heffect
    · exact h
    obtain ⟨c, v⟩ := e
    cases heffect with
    | createEnclave hpass => exact h.congr fun r hr => Slot.read_createdState hfits h hpass hr
    | _ => first | exact absurd rfl hregion | simp [metadataCall, SpecialOwners.regionCall] at hcall

end Sanctum
