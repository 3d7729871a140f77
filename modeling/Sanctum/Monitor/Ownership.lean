import Sanctum.Monitor.Owners

/-!
# Who takes regions from whom

The life of a DRAM region, call by call: its owner blocks it, the OS frees it, and then
makes it a metadata region or assigns it to a new owner (`Transfer`). Each of the four
calls changes the owner of one region at most, and only if it returns `monitor_ok`
(`step_orderly`), so a region passes from one principal to another only by being blocked
and then freed (`run_orderly`).

Two calls also update the bitmap of an enclave, at the address that its ID says, and
`create_metadata_region` zeros the page map of the region. Where these lie over
`g_dram_region` nothing of this holds (`not_orderly`): the code relies on region `0`
being the OS's and on enclaves being elsewhere (`Aside`).
-/

namespace Sanctum

namespace Ownership

variable (C : Config)

/-! ### The life of a region -/

/-- The calls that change owners, one region at a time. -/
def ownerCall : Call → Bool
  | .blockDramRegion _ _ | .assignDramRegion _ _ | .freeDramRegion _ | .createMetadataRegion _ => true
  | _ => false

/-- An owner that is not one of the special ones: the OS or an enclave. -/
def Principal (owner : EnclaveId) : Prop :=
  owner ≠ blockedEnclaveId ∧ owner ≠ metadataEnclaveId ∧ owner ≠ freeEnclaveId

/-- `Transfer s s' c r owner owner'`: the call `c`, from `s` to `s'`, may change the owner of
region `r` from `owner` to `owner'`. -/
inductive Transfer (s s' : Machine) : Call → Word → EnclaveId → EnclaveId → Prop where
  /-- The caller's region is blocked, and the caller is recorded as its previous owner. -/
  | block {core r : Word} (h : C.globals.region s' .previousOwner r = C.globals.coreInfo s .enclaveId core) :
    Transfer s s' (.blockDramRegion core r) r (C.globals.coreInfo s .enclaveId core) blockedEnclaveId
  /-- A blocked region becomes free. -/
  | freeBlocked {r : Word} : Transfer s s' (.freeDramRegion r) r blockedEnclaveId freeEnclaveId
  /-- A metadata region becomes free. -/
  | freeMetadata {r : Word} : Transfer s s' (.freeDramRegion r) r metadataEnclaveId freeEnclaveId
  /-- A free region becomes a metadata region. -/
  | createMetadata {r : Word} : Transfer s s' (.createMetadataRegion r) r freeEnclaveId metadataEnclaveId
  /-- A free region is assigned to an owner that `is_valid_enclave_id` accepts. -/
  | assign {r : Word} {newOwner : EnclaveId} (h : C.globals.validEnclaveId s newOwner = true) :
    Transfer s s' (.assignDramRegion r newOwner) r freeEnclaveId newOwner

/-- A step changes the owner of one region at most, only if the call returns `monitor_ok`,
and only as `Transfer` says. -/
structure Orderly (st : Step Machine Event) : Prop where
  /-- One region at most. -/
  one : ∃ r, ∀ r' : Word, r'.toNat < C.regionCount → r' ≠ r →
    C.globals.region st.post .owner r' = C.globals.region st.pre .owner r'
  /-- Only with success, and only so. -/
  transfer : ∀ r : Word, r.toNat < C.regionCount →
    C.globals.region st.post .owner r ≠ C.globals.region st.pre .owner r →
      st.label.result = 0 ∧ Transfer C st.pre st.post st.label.call r (C.globals.region st.pre .owner r)
        (C.globals.region st.post .owner r)

/-- In `tr` region `r` is blocked, and free after that. -/
def BlockedThenFree (tr : List (Step Machine Event)) (r : Word) : Prop :=
  ∃ p b q, tr = p ++ b :: q ∧ C.globals.region b.post .owner r = blockedEnclaveId ∧
    ∃ f ∈ q, C.globals.region f.post .owner r = freeEnclaveId

/-- What the steps of an orderly run say about the whole of it. -/
structure OrderlyRun (s s' : Machine) (tr : List (Step Machine Event)) : Prop where
  /-- Each step is. -/
  steps : ∀ st ∈ tr, Orderly C st
  /-- A region passes from one principal to another only by being blocked and then freed. -/
  passes : ∀ r : Word, r.toNat < C.regionCount → Principal (C.globals.region s .owner r) →
    Principal (C.globals.region s' .owner r) → C.globals.region s' .owner r ≠ C.globals.region s .owner r →
      BlockedThenFree C tr r
  /-- A principal's region is taken away only by a `block_dram_region` of its own. -/
  own : ∀ st ∈ tr, ∀ r : Word, r.toNat < C.regionCount → Principal (C.globals.region st.pre .owner r) →
    C.globals.region st.post .owner r ≠ C.globals.region st.pre .owner r →
      ∃ core, st.label.call = .blockDramRegion core r ∧
        C.globals.coreInfo st.pre .enclaveId core = C.globals.region st.pre .owner r

/-! ### Stores besides the region's record -/

/-- Where a call stores besides the record of its region and the clock: the word of the bitmap of
the owner, or the page map. -/
def sideStore (s : Machine) : Call → Word → Prop
  | .blockDramRegion _ r, b =>
    Memory.Within (bitmapWord (C.globals.bitmapOf (C.globals.region s .owner r)) r) 8 b
  | .assignDramRegion r newOwner, b => Memory.Within (bitmapWord (C.globals.bitmapOf newOwner) r) 8 b
  | .createMetadataRegion r, b => Memory.Within (dramRegionStart C.globals r) C.mapBytes b
  | _, _ => False

/-- If the checks of the call pass, these stores do not hit an owner or a previous owner, be it that of
the region itself or another one. -/
def Aside (st : Step Machine Event) : Prop :=
  st.label.call.Passes C.globals st.pre → ∀ f : RegionField, f = .owner ∨ f = .previousOwner →
    ∀ r b : Word, r.toNat < C.regionCount → Memory.Within (C.globals.regionField f r) 8 b →
      ¬ sideStore C st.pre st.label.call b

variable {C} {s s' : Machine} {e : Event}

/-- The bitmap of the OS is one of the monitor's arrays, aside from the others. -/
theorem apart_osBitmap {f : RegionField} {r r' : Word} (hr : r.toNat < C.regionCount)
    (hr' : r'.toNat < C.regionCount) :
    Memory.Apart (C.globals.regionField f r') 8 (bitmapWord (C.globals.bitmapOf nullEnclaveId) r) 8 :=
  Slot.apart C (a := .region f r') (b := .osBitmap (r / 64)) hr' (C.valid_osBitmap hr) (by simp)

/-- Blocking a region of the OS. -/
theorem aside_block {core r : Word} (hr : r.toNat < C.regionCount)
    (howner : C.globals.region s .owner r = nullEnclaveId) {v : Word} :
    Aside C ⟨s, ⟨.blockDramRegion core r, v⟩, s'⟩ := by
  intro _ f _ r' b hr' hb hside
  dsimp only [sideStore] at hside
  rw [howner] at hside
  exact apart_osBitmap hr hr' b hb hside

/-- Assigning a region to the OS. -/
theorem aside_assign {r v : Word} (hr : r.toNat < C.regionCount) :
    Aside C ⟨s, ⟨.assignDramRegion r nullEnclaveId, v⟩, s'⟩ :=
  fun _ _ _ _ b hr' hb hside => apart_osBitmap hr hr' b hb hside

/-! ### One step -/

/-- A step that leaves the owners as they are. -/
theorem orderly_of_unchanged {st : Step Machine Event}
    (h : ∀ r : Word, r.toNat < C.regionCount →
      C.globals.region st.post .owner r = C.globals.region st.pre .owner r) : Orderly C st :=
  ⟨⟨0, fun r hr _ => h r hr⟩, fun r hr hne => absurd (h r hr) hne⟩

/-- A step that changes the owner of one region. -/
theorem orderly_of_changed {st : Step Machine Event} (r : Word) (owner : EnclaveId)
    (h : ∀ r' : Word, r'.toNat < C.regionCount → C.globals.region st.post .owner r' =
      if r' = r then owner else C.globals.region st.pre .owner r') (hok : st.label.result = 0)
    (htransfer : r.toNat < C.regionCount →
      Transfer C st.pre st.post st.label.call r (C.globals.region st.pre .owner r) owner) : Orderly C st := by
  refine ⟨⟨r, fun r' hr' hne => by rw [h r' hr', if_neg hne]⟩, fun r' hr' hne => ⟨hok, ?_⟩⟩
  by_cases heq : r' = r
  · subst heq
    rw [h r' hr', if_pos rfl]
    exact htransfer hr'
  · exact absurd (by rw [h r' hr', if_neg heq]) hne

/-- A field that the store to the bitmap is aside from. -/
theorem region_setBit {m : Memory} {f : RegionField} {r r' bitmap : Word} {v : Bool}
    (h : ∀ b, Memory.Within (C.globals.regionField f r') 8 b → ¬ Memory.Within (bitmapWord bitmap r) 8 b) :
    Slot.read C (m.setBit bitmap r v) (.region f r') = Slot.read C m (.region f r') :=
  Memory.load64_store64_of_apart h

/-- **What one step does to the owners.** -/
theorem step_orderly {st : Step Machine Event} (hstep : step C.globals st.pre st.label st.post)
    (hcall : ownerCall st.label.call = true) (haside : Aside C st) : Orderly C st := by
  obtain ⟨s, ⟨c, v⟩, s'⟩ := st
  dsimp only at hstep hcall
  cases c with
  | blockDramRegion core r =>
    rcases (blockDramRegion_spec C.globals s core r).cases_result hstep with ⟨rfl, hpass, rfl⟩ | ⟨-, -, rfl⟩
    · have hr := (C.isDynamicDramRegion_iff.mp hpass.dynamic).2
      have hread : ∀ f : RegionField, f = .owner ∨ f = .previousOwner → ∀ r' : Word, r'.toNat < C.regionCount →
          C.globals.region (blockedState C.globals s r) f r' =
            Slot.read C (blockStores C.globals s.mem r (C.globals.region s .owner r)) (.region f r') :=
        fun f hf r' hr' => region_setBit fun b hb => haside ⟨_, .blockDramRegion hpass⟩ f hf r' b hr' hb
      refine orderly_of_changed r blockedEnclaveId (fun r' hr' => ?_) rfl fun _ => ?_
      · dsimp only
        rw [hread .owner (.inl rfl) r' hr', Slot.read_blockStores (a := .region .owner r') hr' hr,
          if_neg (by simp), if_neg (by simp)]
        simp [Slot.read, Slot.addr, Globals.region]
      · have hprevious := hread .previousOwner (.inr rfl) r hr
        rw [Slot.read_blockStores (a := .region .previousOwner r) hr hr, if_neg (by simp), if_neg (by simp),
          if_neg (by simp), if_pos rfl, hpass.owned] at hprevious
        dsimp only
        rw [hpass.owned]
        exact .block hprevious
    · exact orderly_of_unchanged fun _ _ => rfl
  | assignDramRegion r newOwner =>
    rcases (assignDramRegion_spec C.globals s r newOwner).cases_result hstep with ⟨rfl, hpass, rfl⟩ | ⟨-, -, rfl⟩
    · have hr := C.isValidDramRegion_iff.mp hpass.valid
      refine orderly_of_changed r newOwner (fun r' hr' => ?_) rfl fun _ => ?_
      · refine (region_setBit fun b hb => haside ⟨_, .assignDramRegion hpass⟩ .owner (.inl rfl) r' b hr' hb).trans ?_
        rw [Slot.read_store_region C (a := .region .owner r') hr' hr]
        simp [Slot.read, Slot.addr, Globals.region]
      · dsimp only
        rw [hpass.free]
        exact .assign hpass.ownerValid
    · exact orderly_of_unchanged fun _ _ => rfl
  | freeDramRegion r =>
    rcases (freeDramRegion_spec C.globals s r).cases_result hstep with ⟨rfl, hpass, rfl⟩ | ⟨-, -, rfl⟩
    · have hr := C.isValidDramRegion_iff.mp hpass.valid
      refine orderly_of_changed r freeEnclaveId (fun r' hr' => ?_) rfl fun _ => ?_
      · refine (Slot.read_freedState (a := .region .owner r') hr' hr).trans ?_
        simp [Slot.read, Slot.addr, Globals.region]
      · dsimp only
        rcases hpass.releasable with ⟨howner, -⟩ | ⟨howner, -⟩
        · rw [howner]
          exact .freeBlocked
        · rw [howner]
          exact .freeMetadata
    · exact orderly_of_unchanged fun _ _ => rfl
  | createMetadataRegion r =>
    rcases (createMetadataRegion_spec C.globals s r).cases_result hstep with ⟨rfl, hpass, rfl⟩ | ⟨-, -, rfl⟩
    · have hr := C.isValidDramRegion_iff.mp hpass.valid
      refine orderly_of_changed r metadataEnclaveId (fun r' hr' => ?_) rfl fun _ => ?_
      · refine (Memory.load64_zeroed_of_apart fun b hb =>
          haside ⟨_, .createMetadataRegion hpass⟩ .owner (.inl rfl) r' b hr' hb).trans ?_
        change Slot.read C _ (.region .owner r') = _
        rw [Slot.read_metadataStores (a := .region .owner r') hr' hr, if_neg (by simp)]
        simp [Slot.read, Slot.addr, Globals.region]
      · dsimp only
        rw [hpass.free]
        exact .createMetadata
    · exact orderly_of_unchanged fun _ _ => rfl
  | _ => simp [ownerCall] at hcall

/-! ### Runs -/

/-- A principal's region can only be blocked, by the principal. -/
theorem Transfer.of_principal {c : Call} {r : Word} {owner owner' : EnclaveId} (h : Transfer C s s' c r owner owner')
    (howner : Principal owner) :
    owner' = blockedEnclaveId ∧ ∃ core, c = .blockDramRegion core r ∧ C.globals.coreInfo s .enclaveId core = owner := by
  obtain ⟨h1, h2, h3⟩ := howner
  cases h with
  | block _ => exact ⟨rfl, _, rfl, rfl⟩
  | freeBlocked => exact absurd rfl h1
  | freeMetadata => exact absurd rfl h2
  | createMetadata => exact absurd rfl h3
  | assign _ => exact absurd rfl h3

/-- A blocked region can only become free. -/
theorem Transfer.of_blocked {c : Call} {r : Word} {owner owner' : EnclaveId} (h : Transfer C s s' c r owner owner')
    (howner : owner = blockedEnclaveId) (hne : owner' ≠ owner) : owner' = freeEnclaveId := by
  cases h with
  | block _ => exact absurd howner.symm hne
  | freeBlocked => rfl
  | freeMetadata => exact absurd howner (by decide)
  | createMetadata => exact absurd howner (by decide)
  | assign _ => exact absurd howner (by decide)

/-- What has been blocked and freed stays so. -/
theorem BlockedThenFree.append {tr : List (Step Machine Event)} {r : Word} (h : BlockedThenFree C tr r)
    (st : Step Machine Event) : BlockedThenFree C (tr ++ [st]) r := by
  obtain ⟨p, b, q, rfl, hb, f, hf, hfree⟩ := h
  exact ⟨p, b, q ++ [st], by simp, hb, f, List.mem_append_left _ hf, hfree⟩

/-- Where a region can be that has belonged to `owner`: still there, blocked, or past that. -/
inductive OnTheWay (C : Config) (owner : EnclaveId) (r : Word) (tr : List (Step Machine Event)) (s' : Machine) : Prop
  where
  /-- Still there. -/
  | still (h : C.globals.region s' .owner r = owner)
  /-- Blocked. -/
  | blocked (h : C.globals.region s' .owner r = blockedEnclaveId)
    (hst : ∃ p b q, tr = p ++ b :: q ∧ C.globals.region b.post .owner r = blockedEnclaveId)
  /-- Past that. -/
  | past (h : BlockedThenFree C tr r)

/-- One step further. -/
theorem OnTheWay.step {tr : List (Step Machine Event)} {owner : EnclaveId} {r : Word} {st : Step Machine Event}
    (h : OnTheWay C owner r tr st.pre) (howner : Principal owner) (hr : r.toNat < C.regionCount)
    (horderly : Orderly C st) : OnTheWay C owner r (tr ++ [st]) st.post := by
  by_cases hsame : C.globals.region st.post .owner r = C.globals.region st.pre .owner r
  · cases h with
    | still h => exact .still (hsame.trans h)
    | blocked h hst =>
      obtain ⟨p, b, q, rfl, hb⟩ := hst
      exact .blocked (hsame.trans h) ⟨p, b, q ++ [st], by simp, hb⟩
    | past h => exact .past (h.append st)
  · have htransfer := (horderly.transfer r hr hsame).2
    cases h with
    | still h =>
      rw [h] at htransfer
      exact .blocked (htransfer.of_principal howner).1 ⟨tr, st, [], rfl, (htransfer.of_principal howner).1⟩
    | blocked h hst =>
      obtain ⟨p, b, q, rfl, hb⟩ := hst
      exact .past ⟨p, b, q ++ [st], by simp, hb, st, by simp, htransfer.of_blocked h hsame⟩
    | past h => exact .past (h.append st)

/-- **Who takes regions from whom.** In every state, and in every run of the four calls from
it, whose stores to bitmaps and page maps hit no owner and no previous owner, owners
change one at a time, only when a call returns `monitor_ok`, and only as `Transfer` says; a
region passes from one principal to another only by being blocked and then freed; and no
principal's region is taken away but by a call of its own. -/
theorem run_orderly {tr : List (Step Machine Event)} (hrun : Run (step C.globals) s tr s')
    (hcalls : ∀ st ∈ tr, ownerCall st.label.call = true) (haside : ∀ st ∈ tr, Aside C st) :
    OrderlyRun C s s' tr := by
  have hsteps : ∀ st ∈ tr, Orderly C st := fun st hst =>
    step_orderly (hrun.mem hst) (hcalls st hst) (haside st hst)
  refine ⟨hsteps, fun r hr howner howner' hne => ?_, fun st hst r hr howner hne => ?_⟩
  · have hway : OnTheWay C (C.globals.region s .owner r) r tr s' := by
      refine hrun.history (P := fun tr s' => (∀ st ∈ tr, Orderly C st) →
        OnTheWay C (C.globals.region s .owner r) r tr s') (fun _ => .still rfl) ?_ hsteps
      intro tr u l u' _ ih _ hall
      have hlast : Orderly C ⟨u, l, u'⟩ := hall _ (by simp)
      exact (ih fun st hst => hall st (List.mem_append_left _ hst)).step howner hr hlast
    cases hway with
    | still h => exact absurd h hne
    | blocked h _ => exact absurd h howner'.1
    | past h => exact h
  · exact (((hsteps st hst).transfer r hr hne).2.of_principal howner).2

/-- The OS gives up region `1`, and gets it back. -/
def thereAndBack : List Call := [.blockDramRegion 0 1, .freeDramRegion 1, .assignDramRegion 1 nullEnclaveId]

theorem orderlyRun_thereAndBack :
    OrderlyRun twoRegions (freshMachine twoRegions)
      (afterAll twoRegions.globals (freshMachine twoRegions) thereAndBack)
      (script twoRegions.globals (freshMachine twoRegions) thereAndBack) := by
  refine run_orderly (run_script _ (by decide +kernel)) (by decide +kernel) fun st hst => ?_
  simp only [script, thereAndBack, List.mem_cons, List.not_mem_nil, or_false] at hst
  rcases hst with rfl | rfl | rfl
  · exact aside_block (by decide) (by decide +kernel)
  · exact fun _ _ _ _ _ _ _ => id
  · exact aside_assign (by decide)

/-! ### Stores that hit -/

/-- A machine where region `0` is free, and region `1` belongs to an enclave. -/
def freeZeroMachine : Machine :=
  { blankMachine with
    mem := (blankMachine.mem.store64 (twoRegions.globals.regionField .owner 0) freeEnclaveId).store64
      (twoRegions.globals.regionField .owner 1) 0x81000 }

/-- A machine where core `0` runs an enclave that has region `1`, and whose bitmap is where
`g_dram_region` has the owner of region `9`. -/
def overTableMachine : Machine :=
  { blankMachine with
    mem := ((blankMachine.mem.store64 (sixtyFourRegions.globals.coreField .enclaveId 0) 96).store64
      (sixtyFourRegions.globals.regionField .owner 1) 96).store64
        (sixtyFourRegions.globals.regionField .owner 9) metadataEnclaveId }

/-- The page map of region `0` is zeroed, with all owners; a bit of a bitmap is cleared, and
region `9` changes hands with region `1`. -/
theorem not_orderly :
    (∃ (C : Config) (st : Step Machine Event), st.label.call = .createMetadataRegion 0 ∧
      step C.globals st.pre st.label st.post ∧ ¬ Orderly C st) ∧
    ∃ (C : Config) (st : Step Machine Event), st.label.call = .blockDramRegion 0 1 ∧
      step C.globals st.pre st.label st.post ∧ ¬ Orderly C st := by
  constructor
  · have hreturns : allReturn twoRegions.globals freeZeroMachine [.createMetadataRegion 0] = true := by decide +kernel
    have hrun := run_script _ hreturns
    refine ⟨twoRegions, _, rfl, hrun.mem List.mem_cons_self, fun h => ?_⟩
    obtain ⟨-, htransfer⟩ := h.transfer 1 (by decide) (by decide +kernel)
    cases htransfer
  · have hreturns : allReturn sixtyFourRegions.globals overTableMachine [.blockDramRegion 0 1] = true := by
      decide +kernel
    have hrun := run_script _ hreturns
    refine ⟨sixtyFourRegions, _, rfl, hrun.mem List.mem_cons_self, fun h => ?_⟩
    obtain ⟨-, htransfer⟩ := h.transfer 9 (by decide) (by decide +kernel)
    cases htransfer

end Ownership

end Sanctum
