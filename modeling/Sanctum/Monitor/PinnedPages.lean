import Sanctum.Monitor.MetadataRuns

/-!
# Freeing metadata regions

`free_dram_region` takes a metadata region back if its `pinned_pages` is zero.
`create_metadata_region` sets `pinned_pages` to zero, and no call ever adds to it
(`NoPins`): a metadata region can be freed whatever lives in it.

What lives there are the structures that successful calls have established. Threads are
never established — `assign_thread` and `load_thread` reserve the pages of the enclave,
which are taken — and no enclave is ever deleted, since `is_valid_enclave_id` accepts none.
So the monitor frees no region in use just when nobody asks it to free a metadata region
in which an enclave has been created (`neverFreedInUse_iff`).
-/

namespace Sanctum

namespace PinnedPages

/-! ### Structures in use -/

/-- A structure in a metadata region. -/
inductive Structure where
  /-- An `enclave_info_t`. -/
  | enclave (id : EnclaveId)
  /-- A `thread_info_t`. -/
  | thread (threadId : Word)

/-- Where it is. -/
def Structure.addr : Structure → Word
  | enclave id => id
  | thread threadId => threadId

/-- The call has returned `monitor_ok` and established the structure. -/
def Establishes (x : Structure) (e : Event) : Prop :=
  e.result = 0 ∧ match e.call with
    | .createEnclave _ id _ _ _ _ => x = .enclave id
    | .assignThread _ _ _ threadId => x = .thread threadId
    | .loadThread _ _ _ threadId _ _ _ _ => x = .thread threadId
    | _ => False

/-- The call has returned `monitor_ok` and deleted the structure. -/
def Deletes (x : Structure) (e : Event) : Prop :=
  e.result = 0 ∧ ∃ id, e.call = .deleteEnclave id ∧ x = .enclave id

/-- A step among `tr` has established the structure, and none after it has deleted it. -/
def Live (tr : List (Step Machine Event)) (x : Structure) : Prop :=
  ∃ p b q, tr = p ++ b :: q ∧ Establishes x b.label ∧ ∀ d ∈ q, ¬ Deletes x d.label

variable (C : Config)

/-- A `free_dram_region(r)` of a metadata region returns `monitor_ok` only if no structure in
`r` is live. -/
def NeverFreedInUse (tr : List (Step Machine Event)) : Prop :=
  ∀ p st q r, tr = p ++ st :: q → st.label.call = .freeDramRegion r →
    C.globals.region st.pre .owner r = metadataEnclaveId → st.label.result = 0 →
      ∀ x, Live p x → dramRegionFor C.globals x.addr ≠ r

/-- A `free_dram_region(r)` finds `r`, if it is a metadata region whose lock flag is clear,
without an enclave that has been created in it. -/
def FreedBeforeUse (tr : List (Step Machine Event)) : Prop :=
  ∀ p st q r, tr = p ++ st :: q → st.label.call = .freeDramRegion r → isValidDramRegion C.globals r = true →
    C.globals.regionLocked st.pre r = false → C.globals.region st.pre .owner r = metadataEnclaveId →
      ∀ b ∈ p, ∀ unset id evBase evMask mailboxCount debug,
        b.label.call = .createEnclave unset id evBase evMask mailboxCount debug → b.label.result = 0 →
          dramRegionFor C.globals id ≠ r

/-! ### No pages are pinned -/

/-- No region has a pinned page. -/
def NoPins (m : Memory) : Prop :=
  ∀ r : Word, r.toNat < C.regionCount → Slot.read C m (.region .pinnedPages r) = 0

variable {C} {m m' : Memory} {s s' : Machine}

theorem NoPins.of_le (h : NoPins C m) (hle : ∀ r : Word, r.toNat < C.regionCount →
    (Slot.read C m' (.region .pinnedPages r)).toNat ≤ (Slot.read C m (.region .pinnedPages r)).toNat) :
    NoPins C m' := by
  intro r hr
  have h1 := hle r hr
  rw [h r hr] at h1
  exact BitVec.eq_of_toNat_eq (Nat.le_zero.mp h1)

/-- What every step keeps. -/
theorem step_invariant {e : Event} (hfits : MonitorFits C) (h : SpecialOwners C s.mem ∧ NoPins C s.mem)
    (hstep : step C.globals s e s') (hcall : metadataCall e.call = true) :
    SpecialOwners C s'.mem ∧ NoPins C s'.mem := by
  refine ⟨h.1.metadataStep hfits hstep hcall, ?_⟩
  obtain ⟨howners, hpins⟩ := h
  rcases step_cases hstep with rfl | heffect
  · exact hpins
  obtain ⟨c, v⟩ := e
  dsimp only at *
  cases heffect with
  | setDmaRange _ => exact hpins
  | assignDramRegion hpass =>
    obtain rfl := howners.validEnclaveId_iff.mp hpass.ownerValid
    refine hpins.of_le fun r hr => ?_
    rw [Slot.read_assignedState (a := .region .pinnedPages r) hr (C.isValidDramRegion_iff.mp hpass.valid) (by simp),
      if_neg (by simp)]
  | freeDramRegion hpass =>
    refine hpins.of_le fun r hr => ?_
    rw [Slot.read_freedState (a := .region .pinnedPages r) hr (C.isValidDramRegion_iff.mp hpass.valid),
      if_neg (by simp)]
  | createMetadataRegion hpass =>
    refine hpins.of_le fun r hr => (Slot.read_metadataState_le _ _ _).trans ?_
    rw [Slot.read_metadataStores (a := .region .pinnedPages r) hr (C.isValidDramRegion_iff.mp hpass.valid)]
    split
    · exact Nat.zero_le _
    · rw [if_neg (by simp)]
  | blockDramRegion hpass =>
    have hr := (C.isDynamicDramRegion_iff.mp hpass.dynamic).2
    refine hpins.of_le fun r hr' => (Slot.read_blockedMem_le _ _ _).trans ?_
    rw [Slot.read_blockStores (a := .region .pinnedPages r) hr' hr, if_neg (by simp), if_neg (by simp),
      if_neg (by simp), if_neg (by simp)]
  | createEnclave hpass =>
    refine hpins.of_le fun r hr => ?_
    rw [Slot.read_createdState (a := .region .pinnedPages r) hfits howners hpass hr]
  | deleteEnclave hid hvalid => exact absurd (howners.validEnclaveId_iff.mp hvalid) hid
  | flushCachedDramRegions => simp [metadataCall, SpecialOwners.regionCall] at hcall
  | initEnclave _ _ => simp [metadataCall, SpecialOwners.regionCall] at hcall
  | copyDebugEnclavePage _ => simp [metadataCall, SpecialOwners.regionCall] at hcall
  | acceptThread _ => simp [metadataCall, SpecialOwners.regionCall] at hcall

theorem run_invariant {tr : List (Step Machine Event)} (hfits : MonitorFits C) (hboot : AfterBoot C s)
    (hrun : Run (step C.globals) s tr s') (hcalls : ∀ st ∈ tr, metadataCall st.label.call = true) :
    SpecialOwners C s'.mem ∧ NoPins C s'.mem :=
  hrun.invariant_of (I := fun s => SpecialOwners C s.mem ∧ NoPins C s.mem) hcalls
    ⟨.of_booted hboot.booted, fun r hr => hboot.booted.region .pinnedPages r hr⟩
    fun _ h hstep hcall => step_invariant hfits h hstep hcall

/-! ### Freeing -/

/-- Without pinned pages, a metadata region is freed unless its lock flag is set. -/
theorem free_ok_iff {r v : Word} (hpins : NoPins C s.mem)
    (hmetadata : C.globals.region s .owner r = metadataEnclaveId)
    (hstep : step C.globals s ⟨.freeDramRegion r, v⟩ s') :
    v = 0 ↔ isValidDramRegion C.globals r = true ∧ C.globals.regionLocked s r = false := by
  rcases (freeDramRegion_spec C.globals s r).cases_result hstep with ⟨hv, hpass, -⟩ | ⟨hv, hfail, -⟩
  · exact iff_of_true hv ⟨hpass.valid, hpass.unlocked⟩
  · refine iff_of_false hv fun ⟨hvalid, hunlocked⟩ => hfail ⟨hvalid, hunlocked, .inr ⟨hmetadata, ?_⟩⟩
    exact hpins r (C.isValidDramRegion_iff.mp hvalid)

/-- Only `create_enclave` ever establishes a structure. -/
theorem Establishes.createEnclave {x : Structure} {e : Event} (h : Establishes x e) (hstep : step C.globals s e s') :
    ∃ unset id evBase evMask mailboxCount debug,
      e.call = .createEnclave unset id evBase evMask mailboxCount debug ∧ x = .enclave id := by
  obtain ⟨c, v⟩ := e
  obtain ⟨hv, h⟩ := h
  cases c with
  | createEnclave unset id evBase evMask mailboxCount debug => exact ⟨_, _, _, _, _, _, rfl, h⟩
  | assignThread lockUnset unset id threadId =>
    rcases (assignThread_fails C.globals s lockUnset unset id threadId).cases_result hstep with ⟨-, hf, -⟩ | ⟨hne, -⟩
    · exact hf.elim
    · exact absurd hv hne
  | loadThread lockUnset unset id threadId entryPc entryStack faultPc faultStack =>
    have hspec := loadThread_fails C.globals s lockUnset unset id threadId entryPc entryStack faultPc faultStack
    rcases hspec.cases_result hstep with ⟨-, hf, -⟩ | ⟨hne, -⟩
    · exact hf.elim
    · exact absurd hv hne
  | _ => exact h.elim

/-- No enclave is deleted. -/
theorem not_deletes {x : Structure} {e : Event} (howners : SpecialOwners C s.mem) (hstep : step C.globals s e s') :
    ¬ Deletes x e := by
  obtain ⟨c, v⟩ := e
  rintro ⟨hv, id, rfl, -⟩
  have hinvalid : id = nullEnclaveId ∨ C.globals.validEnclaveId s id = false := by
    by_cases hid : id = nullEnclaveId
    · exact .inl hid
    · exact .inr (howners.not_validEnclaveId hid)
  rcases (validated_fails C.globals s _ hinvalid).cases_result hstep with ⟨-, hf, -⟩ | ⟨hne, -⟩
  · exact hf.elim
  · exact hne hv

/-- **Metadata regions in use.** From boot, a run of metadata calls frees no metadata region
in use if and only if no metadata region is to be freed in which an enclave has been
created. -/
theorem neverFreedInUse_iff {tr : List (Step Machine Event)} (hfits : MonitorFits C) (hboot : AfterBoot C s)
    (hrun : Run (step C.globals) s tr s') (hcalls : ∀ st ∈ tr, metadataCall st.label.call = true) :
    NeverFreedInUse C tr ↔ FreedBeforeUse C tr := by
  have hbefore : ∀ p st q, tr = p ++ st :: q →
      (SpecialOwners C st.pre.mem ∧ NoPins C st.pre.mem) ∧ step C.globals st.pre st.label st.post := by
    rintro p st q rfl
    refine ⟨run_invariant hfits hboot hrun.split.1 fun st' hst' => ?_, hrun.split.2.1⟩
    exact hcalls st' (List.mem_append_left _ hst')
  constructor
  · intro hsafe p st q r htr hcall hvalid hunlocked hmetadata b hb unset id evBase evMask mailboxCount debug hcreate hok
    obtain ⟨⟨-, hpins⟩, hstep⟩ := hbefore p st q htr
    have hresult : st.label.result = 0 := by
      obtain ⟨u, ⟨c, v⟩, u'⟩ := st
      obtain rfl : c = .freeDramRegion r := hcall
      exact (free_ok_iff hpins hmetadata hstep).mpr ⟨hvalid, hunlocked⟩
    refine hsafe p st q r htr hcall hmetadata hresult (.enclave id) ?_
    obtain ⟨p₁, p₂, rfl⟩ := List.append_of_mem hb
    refine ⟨p₁, b, p₂, rfl, ⟨hok, by rw [hcreate]⟩, fun d hd => ?_⟩
    obtain ⟨q₁, q₂, rfl⟩ := List.append_of_mem hd
    obtain ⟨⟨howners, -⟩, hdstep⟩ := hbefore (p₁ ++ b :: q₁) d (q₂ ++ st :: q) (by rw [htr]; simp)
    exact not_deletes howners hdstep
  · rintro hunused p st q r htr hcall hmetadata hok x ⟨p₁, b, p₂, rfl, hx, -⟩
    obtain ⟨⟨-, hpins⟩, hstep⟩ := hbefore _ st q htr
    have hpass : isValidDramRegion C.globals r = true ∧ C.globals.regionLocked st.pre r = false := by
      obtain ⟨u, ⟨c, v⟩, u'⟩ := st
      obtain rfl : c = .freeDramRegion r := hcall
      exact (free_ok_iff hpins hmetadata hstep).mp hok
    obtain ⟨-, hbstep⟩ := hbefore p₁ b (p₂ ++ st :: q) (by rw [htr]; simp)
    obtain ⟨unset, id, evBase, evMask, mailboxCount, debug, hcreate, rfl⟩ := hx.createEnclave hbstep
    exact hunused _ st q r htr hcall hpass.1 hpass.2 hmetadata b (by simp) unset id evBase evMask mailboxCount debug
      hcreate hx.1

/-- Making region `1` a metadata region and freeing it. -/
def unusedCalls : List Call :=
  [.blockDramRegion 0 1, .freeDramRegion 1, .createMetadataRegion 1, .freeDramRegion 1]

/-- A metadata region is freed before any enclave has been created. -/
theorem neverFreedInUse_unusedCalls :
    NeverFreedInUse twoRegions (script twoRegions.globals (freshMachine twoRegions) unusedCalls) := by
  refine (neverFreedInUse_iff (by decide) (afterBoot_freshMachine _) (run_script _ (by decide +kernel))
    (by decide +kernel)).mpr ?_
  intro p st q r htr _ _ _ _ b hb unset id evBase evMask mailboxCount debug hcreate
  have hmem : b ∈ script twoRegions.globals (freshMachine twoRegions) unusedCalls := by
    rw [htr]
    exact List.mem_append_left _ hb
  simp only [script, unusedCalls, List.mem_cons, List.not_mem_nil, or_false] at hmem
  rcases hmem with rfl | rfl | rfl | rfl <;> simp at hcreate

/-- Region `1` is freed with an enclave in it. -/
theorem not_neverFreedInUse : ∃ (C : Config) (s s' : Machine) (tr : List (Step Machine Event)),
    MonitorFits C ∧ AfterBoot C s ∧ Run (step C.globals) s tr s' ∧
      (∀ st ∈ tr, metadataCall st.label.call = true) ∧ ¬ NeverFreedInUse C tr := by
  refine ⟨twoRegions, freshMachine twoRegions, _, script _ _ (oneEnclaveCalls ++ [.freeDramRegion 1]), by decide,
    afterBoot_freshMachine _, run_script _ (by decide +kernel), by decide +kernel, fun h => ?_⟩
  have hfreed := h [_, _, _, _] _ [] 1 rfl rfl (by decide +kernel) (by decide +kernel) (.enclave 0x81000)
    ⟨[_, _, _], _, [], rfl, ⟨by decide +kernel, rfl⟩, by simp⟩
  exact hfreed (by decide)

end PinnedPages

end Sanctum
