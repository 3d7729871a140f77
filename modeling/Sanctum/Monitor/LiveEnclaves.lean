import Sanctum.Monitor.MetadataRuns

/-!
# Which enclaves there are

The monitor decides in two ways whether an ID is that of an enclave: `lock_enclave` looks
at the page map of the metadata region the ID points to, `is_valid_enclave_id` at the owner
of that region. `create_enclave` makes an entry in the page map. It does not change the
region's owner, which is `metadata_enclave_id`, so `is_valid_enclave_id` does not accept the
new enclave, nor any other: only an enclave that is accepted can be given a region.

Hence the two agree exactly as long as no enclave is created (`oneNotion_iff`). This is
about every call of the monitor, but for stores over the owners themselves: three calls
store to an address that no check has confined (`rawStore`).
-/

namespace Sanctum

namespace LiveEnclaves

variable (C : Config)

/-! ### Enclaves in a run -/

/-- A `create_enclave(id)` has returned `monitor_ok`, and no `delete_enclave(id)` after it. -/
def Created (tr : List (Step Machine Event)) (id : EnclaveId) : Prop :=
  ∃ p b q, tr = p ++ b :: q ∧ b.label.result = 0 ∧
    (∃ unset evBase evMask mailboxCount debug,
      b.label.call = .createEnclave unset id evBase evMask mailboxCount debug) ∧
    ∀ d ∈ q, ¬ (d.label.call = .deleteEnclave id ∧ d.label.result = 0)

/-- `is_valid_enclave_id` accepts the enclaves that there are. -/
def Agree (tr : List (Step Machine Event)) (s : Machine) : Prop :=
  ∀ id, id ≠ nullEnclaveId → (C.globals.validEnclaveId s id = true ↔ Created tr id)

/-- It does so from the beginning to the end of a run from `s`. -/
def OneNotion (s : Machine) (tr : List (Step Machine Event)) : Prop :=
  Agree C [] s ∧ ∀ p st q, tr = p ++ st :: q → Agree C (p ++ [st]) st.post

/-- The checks of `create_enclave` never pass. -/
def NoneCreated (tr : List (Step Machine Event)) : Prop :=
  ∀ st ∈ tr, ∀ unset id evBase evMask mailboxCount debug,
    st.label.call = .createEnclave unset id evBase evMask mailboxCount debug →
      ¬ CreatePasses C.globals st.pre unset id evBase evMask mailboxCount

/-! ### Stores to unchecked addresses -/

/-- Where a call stores to an address it is given, or finds in memory, without having made
sure that there is no array of the monitor. -/
def rawStore (s : Machine) : Call → Word → Prop
  | .flushCachedDramRegions core, b => Memory.Within (C.globals.coreInfo s .flushedAt core) 8 b
  | .acceptThread _ threadId _, b =>
    Memory.Within (metadataPageInfoFor C.globals threadId) 8 b ∨ Memory.Within threadId threadMetadataSize.toNat b
  | .copyDebugEnclavePage _ enclaveAddr osAddr readFromEnclave, b =>
    Memory.Within (if readFromEnclave then osAddr else enclaveAddr) pageSize.toNat b
  | _, _ => False

/-- If the checks of the call pass, it does not store over an owner. -/
def SparesOwners (st : Step Machine Event) : Prop :=
  st.label.call.Passes C.globals st.pre → ∀ r b : Word, r.toNat < C.regionCount →
    Memory.Within (C.globals.regionField .owner r) 8 b → ¬ rawStore C st.pre st.label.call b

variable {C} {s s' : Machine} {b : Word}

theorem acceptedState_mem {core threadId threadInfoAddr : Word}
    (hb : ¬ rawStore C s (.acceptThread core threadId threadInfoAddr) b) :
    (acceptedState C.globals s core threadId threadInfoAddr).mem b = s.mem b := by
  have hsize : threadMetadataSize.toNat = 552 := rfl
  have hpages : (threadMetadataPages).toNat = 1 := by decide
  rw [rawStore, not_or] at hb
  unfold acceptedState
  dsimp only
  rw [Memory.storeAll_of_not_within]
  · refine pagesMem_of_not_within (by omega) ?_
    rw [hpages]
    exact hb.1
  · intro p hp h
    obtain ⟨f, -, rfl⟩ := List.mem_map.mp hp
    have hfield : threadField f threadId = threadId + BitVec.ofNat 64 f.offset.toNat := by cases f <;> rfl
    have hoffset : f.offset.toNat + 8 ≤ 48 := by cases f <;> decide
    exact hb.2 ((hfield ▸ h).of_add (by omega) (by omega))

theorem copiedState_mem {id enclaveAddr osAddr : Word} {readFromEnclave : Bool}
    (hb : ¬ rawStore C s (.copyDebugEnclavePage id enclaveAddr osAddr readFromEnclave) b) :
    (copiedState s enclaveAddr osAddr readFromEnclave).mem b = s.mem b := by
  rw [rawStore] at hb
  unfold copiedState
  cases readFromEnclave with
  | false =>
    simp only [Bool.false_eq_true, if_false] at hb ⊢
    exact copiedMem_of_not_within hb
  | true =>
    simp only [if_true] at hb ⊢
    exact copiedMem_of_not_within hb

/-- A core whose stamp is `0` stores to the first slot, which is no owner. -/
theorem sparesOwners_flush {core v : Word} (hcore : 0 < C.coreCount.toNat)
    (hstamp : C.globals.coreInfo s .flushedAt core = 0) :
    SparesOwners C ⟨s, ⟨.flushCachedDramRegions core, v⟩, s'⟩ := by
  intro _ r b hr hb hraw
  dsimp only [rawStore] at hraw
  rw [hstamp, ← Slot.addr_enclaveId_zero C] at hraw
  have hapart : Memory.Apart ((Slot.region .owner r).addr C) 8 ((Slot.core .enclaveId 0).addr C) 8 :=
    Slot.apart C hr hcore (by simp)
  exact hapart b hb hraw

/-! ### The owners, whatever is called -/

/-- **The owners stay special, whatever is called**, if they are not stored over. -/
theorem step_specialOwners {st : Step Machine Event} (hfits : MonitorFits C) (h : SpecialOwners C st.pre.mem)
    (hstep : step C.globals st.pre st.label st.post) (hspares : SparesOwners C st) :
    SpecialOwners C st.post.mem := by
  obtain ⟨s, ⟨c, v⟩, s'⟩ := st
  dsimp only at *
  rcases step_cases hstep with rfl | heffect
  · exact h
  -- stores that spare the owners leave them as they are
  have hsame : (∀ b, ¬ rawStore C s c b → s'.mem b = s.mem b) → SpecialOwners C s'.mem := fun hmem =>
    h.congr fun r hr => Memory.load64_congr fun b hb => hmem b (hspares ⟨s', heffect⟩ r b hr hb)
  cases heffect with
  | flushCachedDramRegions => exact hsame fun b hb => Memory.store64_of_not_within hb
  | acceptThread _ => exact hsame fun b hb => acceptedState_mem hb
  | copyDebugEnclavePage _ => exact hsame fun b hb => copiedState_mem hb
  | initEnclave hid hvalid => exact absurd (h.validEnclaveId_iff.mp hvalid) hid
  | deleteEnclave hid hvalid => exact absurd (h.validEnclaveId_iff.mp hvalid) hid
  | createEnclave hpass => exact h.congr fun r hr => Slot.read_createdState hfits h hpass hr
  | setDmaRange _ => exact h
  | assignDramRegion hpass => exact h.assign hpass
  | freeDramRegion hpass => exact h.free hpass
  | createMetadataRegion hpass => exact h.createMetadata hpass
  | blockDramRegion hpass => exact h.block hpass

theorem run_specialOwners {tr : List (Step Machine Event)} (hfits : MonitorFits C) (hboot : AfterBoot C s)
    (hrun : Run (step C.globals) s tr s') (hspares : ∀ st ∈ tr, SparesOwners C st) : SpecialOwners C s'.mem :=
  hrun.invariant_of (I := fun s => SpecialOwners C s.mem) hspares (.of_booted hboot.booted)
    fun _ h hstep hst => step_specialOwners hfits h hstep hst

/-! ### The two notions -/

theorem ne_null_of_isDramAddress {a : Word} (h : isDramAddress C.globals a = true) : a ≠ nullEnclaveId := by
  rintro rfl
  rw [isDramAddress, Bool.and_eq_true, decide_eq_true_iff, decide_eq_true_iff, gt_iff_lt, BitVec.lt_def] at h
  exact absurd h.2 (Nat.not_lt_zero _)

/-- `create_enclave` returns `monitor_ok` if its checks pass. -/
theorem create_ok_iff {st : Step Machine Event} {unset id evBase evMask mailboxCount : Word} {debug : Bool}
    (hcall : st.label.call = .createEnclave unset id evBase evMask mailboxCount debug)
    (hstep : step C.globals st.pre st.label st.post) :
    st.label.result = 0 ↔ CreatePasses C.globals st.pre unset id evBase evMask mailboxCount := by
  obtain ⟨s, ⟨c, v⟩, s'⟩ := st
  obtain rfl : c = _ := hcall
  rcases (createEnclave_spec C.globals s unset id evBase evMask mailboxCount debug).cases_result hstep with
    ⟨hv, hpass, -⟩ | ⟨hv, hfail, -⟩
  · exact iff_of_true hv hpass
  · exact iff_of_false hv hfail

/-- **One notion of a live enclave.** In a run from boot in which no owner is stored over,
`is_valid_enclave_id` always accepts the enclaves that have been created and not deleted,
and no other ID than `null_enclave_id`, if and only if no enclave is ever created. -/
theorem oneNotion_iff {tr : List (Step Machine Event)} (hfits : MonitorFits C) (hboot : AfterBoot C s)
    (hrun : Run (step C.globals) s tr s') (hspares : ∀ st ∈ tr, SparesOwners C st) :
    OneNotion C s tr ↔ NoneCreated C tr := by
  have howners : ∀ p st q, tr = p ++ st :: q →
      SpecialOwners C st.post.mem ∧ step C.globals st.pre st.label st.post := by
    rintro p st q rfl
    obtain ⟨hbefore, hstep, -⟩ := hrun.split
    have hpre := run_specialOwners hfits hboot hbefore fun st' hst' => hspares st' (List.mem_append_left _ hst')
    exact ⟨step_specialOwners hfits hpre hstep (hspares st (by simp)), hstep⟩
  constructor
  · rintro ⟨-, hagree⟩ st hst unset id evBase evMask mailboxCount debug hcall hpass
    obtain ⟨p, q, htr⟩ := List.append_of_mem hst
    obtain ⟨hpost, hstep⟩ := howners p st q htr
    have hid := ne_null_of_isDramAddress hpass.inDram
    have hcreated : Created (p ++ [st]) id :=
      ⟨p, st, [], rfl, (create_ok_iff hcall hstep).mpr hpass, ⟨_, _, _, _, _, hcall⟩, by simp⟩
    exact hid (hpost.validEnclaveId_iff.mp ((hagree p st q htr id hid).mpr hcreated))
  · intro hnone
    have hnotCreated : ∀ p q, tr = p ++ q → ∀ id, ¬ Created p id := by
      rintro p q rfl id ⟨p₁, b, p₂, rfl, hok, ⟨unset, evBase, evMask, mailboxCount, debug, hcall⟩, -⟩
      obtain ⟨-, hstep⟩ := howners p₁ b (p₂ ++ q) (by simp)
      exact hnone b (by simp) unset id evBase evMask mailboxCount debug hcall ((create_ok_iff hcall hstep).mp hok)
    constructor
    · intro id hid
      have hbooted := SpecialOwners.of_booted hboot.booted
      exact iff_of_false (fun hvalid => hid (hbooted.validEnclaveId_iff.mp hvalid)) (hnotCreated [] tr rfl id)
    · intro p st q htr id hid
      have hpost := (howners p st q htr).1
      exact iff_of_false (fun hvalid => hid (hpost.validEnclaveId_iff.mp hvalid))
        (hnotCreated (p ++ [st]) q (by rw [htr]; simp) id)

/-- Making region `1` a metadata region, with a flush in between, and asking for an enclave to
be deleted that there is not. -/
def emptyMetadataCalls : List Call :=
  [.blockDramRegion 0 1, .flushCachedDramRegions 0, .freeDramRegion 1, .createMetadataRegion 1,
    .deleteEnclave 0x81000]

/-- Nothing is accepted as long as there is nothing. -/
theorem oneNotion_emptyMetadataCalls :
    OneNotion twoRegions (freshMachine twoRegions)
      (script twoRegions.globals (freshMachine twoRegions) emptyMetadataCalls) := by
  refine (oneNotion_iff (by decide) (afterBoot_freshMachine _) (run_script _ (by decide +kernel))
    fun st hst => ?_).mpr fun st hst unset id evBase evMask mailboxCount debug hcall => ?_
  · simp only [script, emptyMetadataCalls, List.mem_cons, List.not_mem_nil, or_false] at hst
    rcases hst with rfl | rfl | rfl | rfl | rfl
    · exact fun _ _ _ _ _ => id
    · exact sparesOwners_flush (by decide) (by decide +kernel)
    · exact fun _ _ _ _ _ => id
    · exact fun _ _ _ _ _ => id
    · exact fun _ _ _ _ _ => id
  · simp only [script, emptyMetadataCalls, List.mem_cons, List.not_mem_nil, or_false] at hst
    rcases hst with rfl | rfl | rfl | rfl | rfl <;> simp at hcall

/-- An enclave is created, and not accepted. -/
theorem not_oneNotion : ∃ (C : Config) (s s' : Machine) (tr : List (Step Machine Event)),
    MonitorFits C ∧ AfterBoot C s ∧ Run (step C.globals) s tr s' ∧ (∀ st ∈ tr, SparesOwners C st) ∧
      ¬ OneNotion C s tr := by
  refine ⟨twoRegions, freshMachine twoRegions, _, script _ _ oneEnclaveCalls, by decide, afterBoot_freshMachine _,
    run_script _ (by decide +kernel), fun st hst => ?_, fun h => ?_⟩
  · simp only [script, oneEnclaveCalls, List.mem_cons, List.not_mem_nil, or_false] at hst
    rcases hst with rfl | rfl | rfl | rfl <;> exact fun _ _ _ _ _ => id
  · have hcreated : Created (script twoRegions.globals (freshMachine twoRegions) oneEnclaveCalls) 0x81000 :=
      ⟨[_, _, _], _, [], rfl, by decide +kernel, ⟨_, _, _, _, _, rfl⟩, by simp⟩
    exact absurd ((h.2 [_, _, _] _ [] rfl 0x81000 (by decide)).mpr hcreated) (by decide +kernel)

end LiveEnclaves

end Sanctum
