import Sanctum.Monitor.Owners

/-!
# Freeing a region and flushing the TLBs

A blocked region may be freed when every core has flushed its TLBs since it was
blocked. The code means to find that out by stamps: `block_dram_region` stamps the
region with `block_clock`, `flush_cached_dram_regions` the core, and
`free_dram_region` refuses a region whose stamp is above that of some core.

Two slips keep it from working. The region is stamped with the value that the clock
had *before* it was advanced, so a region blocked while the clock is `0` has the stamp
that the cores start with. And the core's stamp goes to the address that `flushed_at`
holds instead of to `flushed_at`, which stays `0` for ever.

So a region that is blocked while the clock is `0` can be freed at once, and any other
never. What is proved is exactly that: a run is safe if and only if, whenever a region
is blocked while the clock is `0`, the cores are flushed before it is next freed
(`safe_iff`). This is about runs in which no owner and no stamp is hit by chance: once
the clock has been stored over the ID of core `0`, this core has the ID of an enclave that
there is not, and blocks regions on its behalf (`Spares`).
-/

namespace Sanctum

namespace TlbFlush

variable (C : Config)

/-! ### Safety -/

/-- The step is a `block_dram_region(r)` that returned `monitor_ok`. -/
def Blocks (r : Word) (st : Step Machine Event) : Prop :=
  (∃ core, st.label.call = .blockDramRegion core r) ∧ st.label.result = 0

/-- `b` is the last step among `p` that blocks `r`. -/
def LastBlock (r : Word) (p : List (Step Machine Event)) (b : Step Machine Event) : Prop :=
  Blocks r b ∧ ∃ p₁ p₂, p = p₁ ++ b :: p₂ ∧ ∀ st ∈ p₂, ¬ Blocks r st

/-- Every core has flushed its TLBs between the last step among `p` that blocks `r` and `s`. -/
def FlushedSinceBlock (p : List (Step Machine Event)) (s : Machine) (r : Word) : Prop :=
  ∀ b, LastBlock r p b → ∀ i : Word, i.toNat < C.coreCount.toNat → b.post.tlbFlushes i < s.tlbFlushes i

/-- Whenever a `free_dram_region(r)` turns `r` from blocked to free, every core has flushed
its TLBs since `r` was last blocked. -/
def Safe (tr : List (Step Machine Event)) : Prop :=
  ∀ p st q r, tr = p ++ st :: q → st.label.call = .freeDramRegion r →
    C.globals.region st.pre .owner r = blockedEnclaveId → C.globals.region st.post .owner r = freeEnclaveId →
      FlushedSinceBlock C p st.pre r

/-- The step is a `block_dram_region(r)` whose checks pass. -/
def BlockCall (r : Word) (st : Step Machine Event) : Prop :=
  ∃ core, st.label.call = .blockDramRegion core r ∧ BlockPasses C.globals st.pre core r

/-- If a region is blocked while the clock is `0`, and `free_dram_region` is called for it before
it is blocked again, with its lock flag clear, every core calls `flush_cached_dram_regions` in
between. -/
def ZeroClockFlushed (tr : List (Step Machine Event)) : Prop :=
  ∀ p b m f q r, tr = p ++ b :: (m ++ f :: q) → BlockCall C r b → C.globals.blockClock b.pre = 0 →
    (∀ st ∈ m, ¬ BlockCall C r st) → f.label.call = .freeDramRegion r → C.globals.regionLocked f.pre r = false →
      ∀ i : Word, i.toNat < C.coreCount.toNat → ∃ st ∈ m, st.label.call = .flushCachedDramRegions i

/-- A `block_dram_region` that passes on a core which runs an enclave clears a bit in the bitmap of the
enclave, which is where its ID says. It does not hit the owner or the stamp of a region there. -/
def Spares (st : Step Machine Event) : Prop :=
  ∀ core q, st.label.call = .blockDramRegion core q → BlockPasses C.globals st.pre core q →
    C.globals.region st.pre .owner q ≠ nullEnclaveId → ∀ f : RegionField, f = .owner ∨ f = .blockedAt →
      ∀ r : Word, r.toNat < C.regionCount → Memory.Apart (C.globals.regionField f r) 8
        (bitmapWord (enclaveRegionBitmap (C.globals.region st.pre .owner q)) q) 8

/-- The calls of the stamp protocol, on cores that exist. -/
def ProtocolCall : Call → Prop
  | .blockDramRegion core _ | .flushCachedDramRegions core => core.toNat < C.coreCount.toNat
  | .freeDramRegion _ | .assignDramRegion _ _ => True
  | _ => False

instance (c : Call) : Decidable (ProtocolCall C c) := by
  unfold ProtocolCall
  split <;> infer_instance

/-! ### The stamps of the cores -/

/-- Every core's `flushed_at` is `0`. -/
def StampsZero (m : Memory) : Prop :=
  ∀ i : Word, i.toNat < C.coreCount.toNat → Slot.read C m (.core .flushedAt i) = 0

variable {C} {s s' : Machine}

/-- With `flushed_at` at `0`, a core's stamp goes to address `0`, where the `enclave_id` of
core `0` is. -/
theorem flushedState_mem {core : Word} (h : StampsZero C s.mem) (hcore : core.toNat < C.coreCount.toNat) :
    (flushedState C.globals s core).mem =
      s.mem.store64 ((Slot.core .enclaveId 0).addr C) (C.globals.blockClock s) := by
  have hstamp : C.globals.coreInfo s .flushedAt core = 0 := h core hcore
  rw [Slot.addr_enclaveId_zero, flushedState, hstamp]

/-- What a call of the protocol keeps: the owners are special and the cores' stamps are `0`. -/
theorem step_invariant {e : Event} (h : SpecialOwners C s.mem ∧ StampsZero C s.mem)
    (hstep : step C.globals s e s') (hcall : ProtocolCall C e.call) :
    SpecialOwners C s'.mem ∧ StampsZero C s'.mem := by
  rcases step_cases hstep with rfl | heffect
  · exact h
  obtain ⟨howners, hstamps⟩ := h
  obtain ⟨c, v⟩ := e
  cases heffect with
  | assignDramRegion hpass =>
    refine ⟨howners.assign hpass, fun i hi => ?_⟩
    obtain rfl := howners.validEnclaveId_iff.mp hpass.ownerValid
    rw [Slot.read_assignedState (show (Slot.core .flushedAt i).Valid C from hi)
      (C.isValidDramRegion_iff.mp hpass.valid) (by simp), if_neg (by simp)]
    exact hstamps i hi
  | freeDramRegion hpass =>
    refine ⟨howners.free hpass, fun i hi => ?_⟩
    rw [Slot.read_freedState (show (Slot.core .flushedAt i).Valid C from hi)
      (C.isValidDramRegion_iff.mp hpass.valid), if_neg (by simp)]
    exact hstamps i hi
  | blockDramRegion hpass =>
    refine ⟨howners.block hpass, fun i hi => BitVec.eq_of_toNat_eq (Nat.le_zero.mp ?_)⟩
    have hr := (C.isDynamicDramRegion_iff.mp hpass.dynamic).2
    refine le_trans (Slot.read_blockedMem_le _ _ _) ?_
    rw [Slot.read_blockStores (show (Slot.core .flushedAt i).Valid C from hi) hr]
    simp [hstamps i hi]
  | flushCachedDramRegions =>
    rename_i core
    have hcore : core.toNat < C.coreCount.toNat := hcall
    have hslot : (Slot.core .enclaveId 0).Valid C := Nat.zero_lt_of_lt hcore
    rw [flushedState_mem hstamps hcore]
    refine ⟨howners.congr fun r hr => ?_, fun i hi => ?_⟩
    · rw [Slot.read_store64 C (show (Slot.region .owner r).Valid C from hr) hslot, if_neg (by simp)]
    · rw [Slot.read_store64 C (show (Slot.core .flushedAt i).Valid C from hi) hslot, if_neg (by simp)]
      exact hstamps i hi
  | setDmaRange _ => exact hcall.elim
  | createMetadataRegion _ => exact hcall.elim
  | createEnclave _ => exact hcall.elim
  | initEnclave _ _ => exact hcall.elim
  | deleteEnclave _ _ => exact hcall.elim
  | copyDebugEnclavePage _ => exact hcall.elim
  | acceptThread _ => exact hcall.elim

variable (C) in
/-- Region `r` is blocked with stamp `0`, and its lock flag is clear. -/
structure StampZero (s : Machine) (r : Word) : Prop where
  /-- There is such a region. -/
  valid : r.toNat < C.regionCount
  /-- Its lock flag is clear. -/
  unlocked : C.globals.regionLocked s r = false
  /-- It is blocked. -/
  blocked : C.globals.region s .owner r = blockedEnclaveId
  /-- It was blocked while the clock was `0`. -/
  stamp : C.globals.region s .blockedAt r = 0

/-- With the cores' stamps at `0`, a blocked region can be freed if and only if its own
stamp is `0`. -/
theorem freePasses_iff {r : Word} (hstamps : StampsZero C s.mem)
    (hblocked : C.globals.region s .owner r = blockedEnclaveId) (hcore : 0 < C.coreCount.toNat) :
    FreePasses C.globals s r ↔ StampZero C s r := by
  constructor
  · intro h
    refine ⟨C.isValidDramRegion_iff.mp h.valid, h.unlocked, hblocked, ?_⟩
    rcases h.releasable with ⟨-, hcores⟩ | ⟨howner, -⟩
    · have h0 := hcores 0 hcore
      rw [show C.globals.coreInfo s .flushedAt (BitVec.ofNat 64 0) = 0 from hstamps 0 hcore, BitVec.not_lt] at h0
      exact BitVec.eq_of_toNat_eq (Nat.le_zero.mp h0)
    · rw [hblocked] at howner
      exact absurd howner (by decide)
  · intro h
    refine ⟨C.isValidDramRegion_iff.mpr h.valid, h.unlocked, .inl ⟨hblocked, fun i _ => ?_⟩⟩
    rw [h.stamp, BitVec.not_lt]
    exact Nat.zero_le _

/-- What a `free_dram_region` does. -/
theorem free_step {e : Event} {r : Word} (hstep : step C.globals s e s') (hcall : e.call = .freeDramRegion r) :
    (FreePasses C.globals s r ∧ s' = freedState C.globals s r) ∨ (¬ FreePasses C.globals s r ∧ s' = s) := by
  rw [step, hcall] at hstep
  exact ((freeDramRegion_spec C.globals s r).cases_result hstep).imp (·.2) (·.2)

/-! ### What a step does to a region -/

variable (C) in
/-- A step of the protocol, with special owners and the cores' stamps at `0`. -/
structure Sound (st : Step Machine Event) : Prop where
  /-- The owners are special. -/
  owners : SpecialOwners C st.pre.mem
  /-- The cores' stamps are `0`. -/
  stamps : StampsZero C st.pre.mem
  /-- It is a step. -/
  step : step C.globals st.pre st.label st.post
  /-- It is one of the protocol. -/
  call : ProtocolCall C st.label.call
  /-- It hits no owner and no stamp by chance. -/
  spares : Spares C st

/-- All steps of a run from boot are. -/
theorem sound_of_run {tr : List (Step Machine Event)} (hboot : AfterBoot C s) (hstamps : StampsZero C s.mem)
    (hrun : Run (step C.globals) s tr s') (hcalls : ∀ st ∈ tr, ProtocolCall C st.label.call)
    (hspares : ∀ st ∈ tr, Spares C st) : ∀ st ∈ tr, Sound C st := by
  intro st hst
  obtain ⟨p, q, rfl⟩ := List.append_of_mem hst
  obtain ⟨hp, hstep, -⟩ := hrun.split
  obtain ⟨howners, hzero⟩ := hp.invariant_of (I := fun s => SpecialOwners C s.mem ∧ StampsZero C s.mem)
    (fun st' hst' => hcalls st' (List.mem_append_left _ hst')) ⟨.of_booted hboot.booted, hstamps⟩
    fun _ h hstep hcall => step_invariant h hstep hcall
  exact ⟨howners, hzero, hstep, hcalls st hst, hspares st hst⟩

variable (C) in
/-- What a step does to region `r`. -/
inductive RegionStep (r : Word) (st : Step Machine Event) : Prop where
  /-- It blocks it, and the region gets the stamp that the clock had. -/
  | blocked (h : BlockCall C r st) (howner : C.globals.region st.post .owner r = blockedEnclaveId)
    (hstamp : C.globals.region st.post .blockedAt r = C.globals.blockClock st.pre)
  /-- It frees it. -/
  | freed (h : ¬ BlockCall C r st) (hcall : st.label.call = .freeDramRegion r)
    (howner : C.globals.region st.post .owner r = freeEnclaveId)
  /-- It assigns it, when it is free. -/
  | assigned (h : ¬ BlockCall C r st) (hpre : C.globals.region st.pre .owner r = freeEnclaveId)
    (howner : C.globals.region st.post .owner r = nullEnclaveId)
  /-- It leaves it alone. -/
  | still (h : ¬ BlockCall C r st) (howner : C.globals.region st.post .owner r = C.globals.region st.pre .owner r)
    (hstamp : C.globals.region st.post .blockedAt r = C.globals.region st.pre .blockedAt r)

/-- What `block_dram_region(q)` leaves in the owner and the stamp of a region. -/
theorem read_blockedState {st : Step Machine Event} {core q r : Word} {f : RegionField} (hst : Sound C st)
    (hcall : st.label.call = .blockDramRegion core q) (hpass : BlockPasses C.globals st.pre core q)
    (hf : f = .owner ∨ f = .blockedAt) (hr : r.toNat < C.regionCount) :
    C.globals.region (blockedState C.globals st.pre q) f r =
      Slot.read C (blockStores C.globals st.pre.mem q (C.globals.region st.pre .owner q)) (.region f r) := by
  have hq := (C.isDynamicDramRegion_iff.mp hpass.dynamic).2
  change Slot.read C (blockedMem C.globals st.pre.mem q (C.globals.region st.pre .owner q)) (.region f r) = _
  unfold blockedMem Globals.bitmapOf
  split
  · exact C.read_setBit_osRegionBitmap hq hr (by simp)
  · next howner => exact Memory.load64_store64_of_apart (hst.spares core q hcall hpass howner f hf r hr)

/-- **What a step does to a region.** -/
theorem Sound.regionStep {st : Step Machine Event} {r : Word} (hst : Sound C st) (hr : r.toNat < C.regionCount) :
    RegionStep C r st := by
  have howner : (Slot.region .owner r).Valid C := hr
  have hstamp : (Slot.region .blockedAt r).Valid C := hr
  -- a call that is no `block_dram_region(r)` that passes
  have hother (hno : ∀ core, st.label.call = .blockDramRegion core r → ¬ BlockPasses C.globals st.pre core r) :
      ¬ BlockCall C r st := fun ⟨core, hcall, hpass⟩ => hno core hcall hpass
  obtain ⟨s, ⟨c, v⟩, s'⟩ := st
  have hstep : Sanctum.step C.globals s ⟨c, v⟩ s' := hst.step
  cases c with
  | blockDramRegion core q =>
    rcases (blockDramRegion_spec C.globals s core q).cases_result hstep with ⟨-, hpass, rfl⟩ | ⟨-, hfail, rfl⟩
    · have hq := (C.isDynamicDramRegion_iff.mp hpass.dynamic).2
      have hread {f : RegionField} (hf : f = .owner ∨ f = .blockedAt) := read_blockedState hst rfl hpass hf hr
      have hreadOwner := hread (.inl rfl)
      have hreadStamp := hread (.inr rfl)
      rw [Slot.read_blockStores howner hq] at hreadOwner
      rw [Slot.read_blockStores hstamp hq] at hreadStamp
      by_cases heq : r = q
      · subst heq
        exact .blocked ⟨core, rfl, hpass⟩ (hreadOwner.trans (by simp)) (hreadStamp.trans (if_pos rfl))
      · refine .still (hother fun core' hcall => absurd (Call.blockDramRegion.inj hcall).2.symm heq)
          (hreadOwner.trans ?_) (hreadStamp.trans ?_)
        · simp only [Slot.region.injEq, heq, and_false, reduceCtorEq, if_false]
          rfl
        · simp only [Slot.region.injEq, heq, and_false, reduceCtorEq, if_false]
          rfl
    · refine .still (hother fun core' hcall => ?_) rfl rfl
      obtain ⟨rfl, rfl⟩ := Call.blockDramRegion.inj hcall
      exact hfail
  | assignDramRegion q newOwner =>
    have hno := hother fun core hcall => nomatch hcall
    rcases (assignDramRegion_spec C.globals s q newOwner).cases_result hstep with ⟨-, hpass, rfl⟩ | ⟨-, -, rfl⟩
    · have hq := C.isValidDramRegion_iff.mp hpass.valid
      obtain rfl := hst.owners.validEnclaveId_iff.mp hpass.ownerValid
      have hreadOwner := Slot.read_assignedState (s := s) howner hq (by simp)
      have hreadStamp := Slot.read_assignedState (s := s) hstamp hq (by simp)
      by_cases heq : r = q
      · subst heq
        exact .assigned hno hpass.free (hreadOwner.trans (if_pos rfl))
      · exact .still hno (hreadOwner.trans (if_neg fun h => heq (Slot.region.inj h).2))
          (hreadStamp.trans (if_neg (by simp)))
    · exact .still hno rfl rfl
  | freeDramRegion q =>
    have hno := hother fun core hcall => nomatch hcall
    rcases (freeDramRegion_spec C.globals s q).cases_result hstep with ⟨-, hpass, rfl⟩ | ⟨-, -, rfl⟩
    · have hq := C.isValidDramRegion_iff.mp hpass.valid
      have hreadOwner := Slot.read_freedState (s := s) howner hq
      have hreadStamp := Slot.read_freedState (s := s) hstamp hq
      by_cases heq : r = q
      · subst heq
        exact .freed hno rfl (hreadOwner.trans (if_pos rfl))
      · exact .still hno (hreadOwner.trans (if_neg fun h => heq (Slot.region.inj h).2))
          (hreadStamp.trans (if_neg (by simp)))
    · exact .still hno rfl rfl
  | flushCachedDramRegions core =>
    have hcore : core.toNat < C.coreCount.toNat := hst.call
    have hslot : (Slot.core .enclaveId 0).Valid C := Nat.zero_lt_of_lt hcore
    obtain ⟨-, rfl⟩ := Prod.mk.inj (Option.some.inj hstep)
    have hread {a : Slot} (ha : a.Valid C) (hne : a ≠ .core .enclaveId 0) :
        Slot.read C (flushedState C.globals s core).mem a = Slot.read C s.mem a := by
      rw [flushedState_mem hst.stamps hcore, Slot.read_store64 C ha hslot, if_neg hne]
    exact .still (hother fun core' hcall => nomatch hcall) (hread howner (by simp)) (hread hstamp (by simp))
  | _ => exact hst.call.elim

/-- `block_dram_region` returns `monitor_ok` if its checks pass. -/
theorem Sound.blocks_iff {st : Step Machine Event} {r : Word} (hst : Sound C st) :
    Blocks r st ↔ BlockCall C r st := by
  obtain ⟨s, ⟨c, v⟩, s'⟩ := st
  constructor
  · rintro ⟨⟨core, rfl⟩, hok⟩
    rcases (blockDramRegion_spec C.globals s core r).cases_result hst.step with ⟨-, hpass, -⟩ | ⟨hv, -, -⟩
    · exact ⟨core, rfl, hpass⟩
    · exact absurd hok hv
  · rintro ⟨core, rfl, hpass⟩
    rcases (blockDramRegion_spec C.globals s core r).cases_result hst.step with ⟨hv, -, -⟩ | ⟨-, hfail, -⟩
    · exact ⟨⟨core, rfl⟩, hv⟩
    · exact absurd hpass hfail

/-! ### Flushes -/

/-- The call is `flush_cached_dram_regions` on core `i`. -/
def flushCall (i : Word) (st : Step Machine Event) : Bool := st.label.call = .flushCachedDramRegions i

theorem Sound.tlbFlushes_eq {st : Step Machine Event} (hst : Sound C st) (i : Word) :
    st.post.tlbFlushes i = st.pre.tlbFlushes i + if flushCall i st then 1 else 0 := by
  obtain ⟨s, ⟨c, v⟩, s'⟩ := st
  have hstep : Sanctum.step C.globals s ⟨c, v⟩ s' := hst.step
  rcases step_cases hstep with rfl | heffect
  · rw [if_neg, Nat.add_zero]
    intro hflush
    obtain rfl : c = .flushCachedDramRegions i := of_decide_eq_true hflush
    obtain ⟨-, heq⟩ := Prod.mk.inj (Option.some.inj hstep)
    have hcount := congrFun (congrArg Machine.tlbFlushes heq) i
    simp at hcount
  · cases heffect with
    | assignDramRegion _ => rfl
    | freeDramRegion _ => rfl
    | blockDramRegion _ => rfl
    | flushCachedDramRegions =>
      rename_i core
      by_cases heq : i = core
      · simp [flushCall, flushedState, heq]
      · simp [flushCall, flushedState, heq, Ne.symm heq]
    | setDmaRange _ => exact hst.call.elim
    | createMetadataRegion _ => exact hst.call.elim
    | createEnclave _ => exact hst.call.elim
    | initEnclave _ _ => exact hst.call.elim
    | deleteEnclave _ _ => exact hst.call.elim
    | copyDebugEnclavePage _ => exact hst.call.elim
    | acceptThread _ => exact hst.call.elim

/-- How often a core has flushed its TLBs in a run. -/
theorem tlbFlushes_run {tr : List (Step Machine Event)} (hrun : Run (step C.globals) s tr s')
    (hsound : ∀ st ∈ tr, Sound C st) (i : Word) : s'.tlbFlushes i = s.tlbFlushes i + tr.countP (flushCall i) := by
  refine hrun.history (P := fun tr s' => (∀ st ∈ tr, Sound C st) →
    s'.tlbFlushes i = s.tlbFlushes i + tr.countP (flushCall i)) (fun _ => rfl) ?_ hsound
  intro tr u l u' _ ih _ hall
  have hlast : Sound C ⟨u, l, u'⟩ := hall _ (by simp)
  rw [List.countP_append, ← Nat.add_assoc, ← ih fun st hst => hall st (List.mem_append_left _ hst),
    List.countP_singleton]
  exact hlast.tlbFlushes_eq i

/-- A core has flushed its TLBs if it has called `flush_cached_dram_regions`. -/
theorem tlbFlushes_lt_iff {tr : List (Step Machine Event)} (hrun : Run (step C.globals) s tr s')
    (hsound : ∀ st ∈ tr, Sound C st) (i : Word) :
    s.tlbFlushes i < s'.tlbFlushes i ↔ ∃ st ∈ tr, st.label.call = .flushCachedDramRegions i := by
  rw [tlbFlushes_run hrun hsound i, Nat.lt_add_right_iff_pos, List.countP_pos_iff]
  simp only [flushCall, decide_eq_true_iff]

/-! ### When the protocol is safe -/

/-- The last step that blocks a region, when there is one more step. -/
theorem lastBlock_snoc {tr : List (Step Machine Event)} {st b : Step Machine Event} {r : Word}
    (h : LastBlock r (tr ++ [st]) b) : b = st ∨ ¬ Blocks r st ∧ LastBlock r tr b := by
  obtain ⟨hb, p₁, p₂, htr, hnone⟩ := h
  rcases List.eq_nil_or_concat p₂ with rfl | ⟨p₂, x, rfl⟩
  · obtain ⟨-, hst⟩ := List.append_inj' htr rfl
    exact .inl (List.cons.inj hst).1.symm
  · rw [List.concat_eq_append, ← List.cons_append, ← List.append_assoc] at htr
    obtain ⟨rfl, hx⟩ := List.append_inj' htr rfl
    obtain rfl := (List.cons.inj hx).1
    exact .inr ⟨hnone _ (by simp), hb, p₁, p₂, rfl, fun st hst => hnone st (by simp [hst])⟩

/-- A region that is blocked with stamp `0` was last blocked while the clock was `0`. -/
theorem clock_of_stampZero {tr : List (Step Machine Event)} {r : Word}
    (hrun : Run (step C.globals) s tr s') (hsound : ∀ st ∈ tr, Sound C st) (hr : r.toNat < C.regionCount)
    (hblocked : C.globals.region s' .owner r = blockedEnclaveId) (hstamp : C.globals.region s' .blockedAt r = 0) :
    ∀ b, LastBlock r tr b → C.globals.blockClock b.pre = 0 := by
  refine hrun.history (P := fun tr s' => (∀ st ∈ tr, Sound C st) → C.globals.region s' .owner r = blockedEnclaveId →
    C.globals.region s' .blockedAt r = 0 → ∀ b, LastBlock r tr b → C.globals.blockClock b.pre = 0) ?_ ?_ hsound
    hblocked hstamp
  · rintro - - - b ⟨-, p₁, p₂, h, -⟩
    exact absurd h (by simp)
  · intro tr u l u' _ ih _ hall howner hzero b hb
    have hlast : Sound C ⟨u, l, u'⟩ := hall _ (by simp)
    have hbefore (hpre : C.globals.region u .owner r = blockedEnclaveId) (hzero : C.globals.region u .blockedAt r = 0)
        (hno : ¬ BlockCall C r ⟨u, l, u'⟩) : C.globals.blockClock b.pre = 0 := by
      rcases lastBlock_snoc hb with rfl | ⟨-, hb⟩
      · exact absurd (hlast.blocks_iff.mp hb.1) hno
      · exact ih (fun st hst => hall st (List.mem_append_left _ hst)) hpre hzero b hb
    cases hlast.regionStep hr with
    | blocked hcall _ hclock =>
      rcases lastBlock_snoc hb with rfl | ⟨hno, -⟩
      · exact hclock.symm.trans hzero
      · exact absurd (hlast.blocks_iff.mpr hcall) hno
    | freed _ _ hfree => exact absurd (howner.symm.trans hfree) (by decide)
    | assigned _ _ hnull => exact absurd (howner.symm.trans hnull) (by decide)
    | still hno hsame hsame' => exact hbefore (hsame.symm.trans howner) (hsame'.symm.trans hzero) hno

/-- A region that is blocked with stamp `0`, and not blocked again, stays so up to a step that frees it. -/
theorem still_or_freed {m : List (Step Machine Event)} {r : Word} (hrun : Run (step C.globals) s m s')
    (hsound : ∀ st ∈ m, Sound C st) (hnone : ∀ st ∈ m, ¬ BlockCall C r st) (hr : r.toNat < C.regionCount)
    (hblocked : C.globals.region s .owner r = blockedEnclaveId) (hstamp : C.globals.region s .blockedAt r = 0) :
    (C.globals.region s' .owner r = blockedEnclaveId ∧ C.globals.region s' .blockedAt r = 0) ∨
      ∃ m₁ f m₂, m = m₁ ++ f :: m₂ ∧ f.label.call = .freeDramRegion r ∧
        C.globals.region f.pre .owner r = blockedEnclaveId ∧ C.globals.region f.post .owner r = freeEnclaveId := by
  refine hrun.history (P := fun m s' => (∀ st ∈ m, Sound C st) → (∀ st ∈ m, ¬ BlockCall C r st) →
    (C.globals.region s' .owner r = blockedEnclaveId ∧ C.globals.region s' .blockedAt r = 0) ∨
      ∃ m₁ f m₂, m = m₁ ++ f :: m₂ ∧ f.label.call = .freeDramRegion r ∧
        C.globals.region f.pre .owner r = blockedEnclaveId ∧ C.globals.region f.post .owner r = freeEnclaveId)
    (fun _ _ => .inl ⟨hblocked, hstamp⟩) ?_ hsound hnone
  intro m u l u' _ ih _ hall hno
  have hlast : Sound C ⟨u, l, u'⟩ := hall _ (by simp)
  rcases ih (fun st hst => hall st (List.mem_append_left _ hst)) (fun st hst => hno st (List.mem_append_left _ hst)) with
    ⟨hpre, hzero⟩ | ⟨m₁, f, m₂, rfl, hfree⟩
  · cases hlast.regionStep hr with
    | blocked h _ _ => exact absurd h (hno _ (by simp))
    | freed _ hcall hpost => exact .inr ⟨m, _, [], rfl, hcall, hpre, hpost⟩
    | assigned _ hfree _ => exact absurd (hpre.symm.trans hfree) (by decide)
    | still _ hsame hsame' => exact .inl ⟨hsame.trans hpre, hsame'.trans hzero⟩
  · exact .inr ⟨m₁, f, m₂ ++ [⟨u, l, u'⟩], by simp, hfree⟩

section Safety

variable {tr : List (Step Machine Event)} (hrun : Run (step C.globals) s tr s')
  (hsound : ∀ st ∈ tr, Sound C st)

include hrun hsound

/-- No other region than one blocked while the clock is `0` is freed. -/
theorem safe_of_zeroClockFlushed (hflushed : ZeroClockFlushed C tr) : Safe C tr := by
  rintro p st q r rfl hcall hblocked hfree b hb i hi
  obtain ⟨hp, hstep, -⟩ := hrun.split
  have hst : Sound C st := hsound st (by simp)
  have hbefore : ∀ x ∈ p, Sound C x := fun x hx => hsound x (List.mem_append_left _ hx)
  rcases free_step hstep hcall with ⟨hpass, -⟩ | ⟨-, hpost⟩
  · have hzero := (freePasses_iff hst.stamps hblocked (Nat.zero_lt_of_lt hi)).mp hpass
    have hclock := clock_of_stampZero hp hbefore hzero.valid hzero.blocked hzero.stamp b hb
    obtain ⟨hblocks, p₁, p₂, rfl, hlast⟩ := hb
    have hbsound : Sound C b := hbefore b (by simp)
    have hbetween : ∀ x ∈ p₂, Sound C x := fun x hx => hbefore x (by simp [hx])
    refine (tlbFlushes_lt_iff hp.split.2.2 hbetween i).mpr ?_
    exact hflushed p₁ b p₂ st q r (by simp) (hbsound.blocks_iff.mp hblocks) hclock
      (fun x hx hx' => hlast x hx ((hbetween x hx).blocks_iff.mpr hx')) hcall hzero.unlocked i hi
  · rw [hpost, hblocked] at hfree
    exact absurd hfree (by decide)

/-- A region that is blocked while the clock is `0` is freed by the next `free_dram_region`. -/
theorem zeroClockFlushed_of_safe (hsafe : Safe C tr) : ZeroClockFlushed C tr := by
  rintro p b m f q r rfl hblock hclock hnone hcall hunlocked i hi
  have hrest := hrun.split.2.2
  obtain ⟨hm, hstep, -⟩ := hrest.split
  have hb : Sound C b := hsound b (by simp)
  have hf : Sound C f := hsound f (by simp)
  have hbetween : ∀ x ∈ m, Sound C x := fun x hx => hsound x (by simp [hx])
  have hblocks : Blocks r b := hb.blocks_iff.mpr hblock
  obtain ⟨hr, hblocked, hstamp⟩ : r.toNat < C.regionCount ∧ C.globals.region b.post .owner r = blockedEnclaveId ∧
      C.globals.region b.post .blockedAt r = 0 := by
    obtain ⟨core, -, hpass⟩ := id hblock
    have hr := (C.isDynamicDramRegion_iff.mp hpass.dynamic).2
    cases hb.regionStep hr with
    | blocked _ howner hstamp => exact ⟨hr, howner, hstamp.trans hclock⟩
    | freed h _ _ => exact absurd hblock h
    | assigned h _ _ => exact absurd hblock h
    | still h _ _ => exact absurd hblock h
  rcases still_or_freed hm hbetween hnone hr hblocked hstamp with ⟨hpre, hzero⟩ | ⟨m₁, f₁, m₂, rfl, hcall₁, hpre, hpost⟩
  · have hpass := (freePasses_iff hf.stamps hpre (Nat.zero_lt_of_lt hi)).mpr ⟨hr, hunlocked, hpre, hzero⟩
    have hfree : C.globals.region f.post .owner r = freeEnclaveId := by
      rcases free_step hstep hcall with ⟨-, hpost⟩ | ⟨hfail, -⟩
      · rw [hpost]
        exact (Slot.read_freedState (a := .region .owner r) hr hr).trans (if_pos rfl)
      · exact absurd hpass hfail
    refine (tlbFlushes_lt_iff hm hbetween i).mp (hsafe (p ++ b :: m) f q r (by simp) hcall hpre hfree b ?_ i hi)
    exact ⟨hblocks, p, m, rfl, fun x hx hx' => hnone x hx ((hbetween x hx).blocks_iff.mp hx')⟩
  · -- it has been freed before
    have hbefore : ∀ x ∈ m₁, Sound C x := fun x hx => hbetween x (by simp [hx])
    obtain ⟨x, hx, hflush⟩ := (tlbFlushes_lt_iff hm.split.1 hbefore i).mp
      (hsafe (p ++ b :: m₁) f₁ (m₂ ++ f :: q) r (by simp) hcall₁ hpre hpost b
        ⟨hblocks, p, m₁, rfl, fun x hx hx' => hnone x (by simp [hx]) ((hbefore x hx).blocks_iff.mp hx')⟩ i hi)
    exact ⟨x, by simp [hx], hflush⟩

end Safety

/-- **TLB-flush safety.** From boot, with the cores' stamps at `0` and any number of cores, a
run of the protocol's calls that hits no owner and no stamp by chance is safe if and only if,
whenever a region is blocked while the clock is `0`, every core is flushed before the region is
next freed. -/
theorem safe_iff {tr : List (Step Machine Event)} (hboot : AfterBoot C s) (hstamps : StampsZero C s.mem)
    (hrun : Run (step C.globals) s tr s') (hcalls : ∀ st ∈ tr, ProtocolCall C st.label.call)
    (hspares : ∀ st ∈ tr, Spares C st) : Safe C tr ↔ ZeroClockFlushed C tr :=
  have hsound := sound_of_run hboot hstamps hrun hcalls hspares
  ⟨zeroClockFlushed_of_safe hrun hsound, safe_of_zeroClockFlushed hrun hsound⟩

/-- Region `1` is blocked, the TLBs are flushed, and region `1` is freed. -/
def blockFlushFree : List Call := [.blockDramRegion 0 1, .flushCachedDramRegions 0, .freeDramRegion 1]

theorem safe_blockFlushFree :
    Safe twoRegions (script twoRegions.globals (freshMachine twoRegions) blockFlushFree) := by
  refine (safe_iff (afterBoot_freshMachine _) (fun i hi => ?_) (run_script _ (by decide +kernel))
    (by decide +kernel) fun st hst core q hcall hpass howner => ?_).mpr ?_
  · obtain rfl : i = 0 := BitVec.eq_of_toNat_eq (Nat.lt_one_iff.mp hi)
    decide +kernel
  · simp only [script, blockFlushFree, List.mem_cons, List.not_mem_nil, or_false] at hst
    rcases hst with rfl | rfl | rfl
    · obtain ⟨rfl, rfl⟩ := Call.blockDramRegion.inj hcall
      exact absurd (by decide +kernel) howner
    · cases hcall
    · cases hcall
  · rintro p b m f q r htr ⟨core, hblock, -⟩ - - hfree - i hi
    have hcalls := congrArg (List.map fun st => st.label.call) htr
    rw [map_call_script, List.map_append, List.map_cons, List.map_append, List.map_cons, hblock, hfree,
      blockFlushFree] at hcalls
    have hflush : Call.flushCachedDramRegions 0 ∈ m.map fun st => st.label.call := by
      generalize (p.map fun st => st.label.call) = P at hcalls
      generalize (m.map fun st => st.label.call) = M at hcalls
      -- the first call is the one that blocks, the third the one that frees
      rcases P with _ | ⟨_, _ | ⟨_, _ | ⟨_, P⟩⟩⟩
      · rcases M with _ | ⟨c, M⟩
        · simp at hcalls
        · rw [(List.cons.inj (List.cons.inj hcalls).2).1]
          exact List.mem_cons_self
      · simp at hcalls
      · simp at hcalls
      · simp at hcalls
    obtain ⟨st, hst, hcall⟩ := List.mem_map.mp hflush
    obtain rfl : i = 0 := BitVec.eq_of_toNat_eq (Nat.lt_one_iff.mp hi)
    exact ⟨st, hst, hcall⟩

/-- The calls of a run that frees a region nobody has flushed. -/
def earlyFree : List Call := [.blockDramRegion 0 1, .freeDramRegion 1]

/-- A region blocked while the clock is `0` is freed at once, without any flush. -/
theorem not_safe : ∃ (C : Config) (s s' : Machine) (tr : List (Step Machine Event)),
    AfterBoot C s ∧ C.globals.blockClock s = 0 ∧ StampsZero C s.mem ∧ Run (step C.globals) s tr s' ∧
      (∀ st ∈ tr, ProtocolCall C st.label.call) ∧ ¬ Safe C tr := by
  refine ⟨twoRegions, freshMachine twoRegions, _, script twoRegions.globals (freshMachine twoRegions) earlyFree,
    afterBoot_freshMachine _, by decide +kernel, fun i hi => ?_, run_script _ (by decide +kernel),
    by decide +kernel, fun hsafe => ?_⟩
  · obtain rfl : i = 0 := BitVec.eq_of_toNat_eq (Nat.lt_one_iff.mp hi)
    decide +kernel
  · have hlast := hsafe [_] _ [] 1 rfl rfl (by decide +kernel) (by decide +kernel) _
      ⟨⟨⟨0, rfl⟩, by decide +kernel⟩, [], [], rfl, by simp⟩ 0 (by decide)
    exact lt_irrefl _ hlast

end TlbFlush

end Sanctum
