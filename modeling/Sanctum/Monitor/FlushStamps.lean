import Sanctum.Monitor.LockBalance
import Sanctum.Monitor.Owners

/-!
# Freeing a blocked region after the flushes

Once a region is blocked and every core has flushed its TLBs, `free_dram_region` is to free it.
It compares the region's stamp, the value of `block_clock` when it was blocked, with the
cores' stamps, which `flush_cached_dram_regions` is to set to the clock's value of the time. But
the flush stores the clock where `flushed_at` points, and leaves the stamp as it is.

So what decides is what the stamps were when the region was blocked: a run of flushes, and of calls
on other regions, changes neither the region's stamp nor the cores', as long as no store
through an address the code has not checked hits them (`run_stamped`), and the region
can be freed exactly if all the cores' stamps were equal to the clock (`freeable_iff`).

The locks are as the comments have them, and others may hold any of them during each call.
-/

namespace Sanctum

namespace FlushStamps

open LockBalance

variable (C : Config)

/-! ### Calls in a row -/

/-- A call, the locks that others hold while it runs, and the number that it returns. -/
structure LockedEvent where
  /-- The call. -/
  call : Call
  /-- The locks that others hold. -/
  others : Word → Bool
  /-- The number. -/
  result : Word

/-- A call from beginning to end. -/
def lockedStep (s : Machine) (e : LockedEvent) (s' : Machine) : Prop :=
  ∃ t, (e.call.code C.globals).run lockExec (entered s e.others) = some (e.result, t) ∧ s' = t.machine

/-- A flush, or a call that blocks, frees or assigns another region than `r`. -/
def OtherCall (r : Word) : Call → Prop
  | .flushCachedDramRegions _ => True
  | .blockDramRegion _ q | .freeDramRegion q | .assignDramRegion q _ => q ≠ r
  | _ => False

/-- Where the call stores besides in the monitor's arrays: where `flushed_at` points, or in the
bitmap of an enclave. -/
def strayWord (s : Machine) : Call → Option Word
  | .flushCachedDramRegions core => some (C.globals.coreInfo s .flushedAt core)
  | .blockDramRegion _ q =>
    let owner := C.globals.region s .owner q
    if owner = nullEnclaveId then none else some (bitmapWord (enclaveRegionBitmap owner) q)
  | .assignDramRegion q newOwner =>
    if newOwner = nullEnclaveId then none else some (bitmapWord (enclaveRegionBitmap newOwner) q)
  | _ => none

/-- What decides whether region `r` can be freed: its owner, its stamp, and the cores' stamps. -/
def Watched (r : Word) (a : Slot) : Prop :=
  a = .region .owner r ∨ a = .region .blockedAt r ∨
    ∃ i : Word, i.toNat < C.coreCount.toNat ∧ a = .core .flushedAt i

/-- The call does not store there by chance. -/
def Spares (r : Word) (s : Machine) (c : Call) : Prop :=
  ∀ w ∈ strayWord C s c, ∀ a, Watched C r a → Memory.Apart (a.addr C) 8 w 8

variable {C} {r q : Word} {m : Memory} {s s' : Machine}

/-! ### What the calls do -/

section Posts

variable {α β : Type} {t : LockedMachine}

/-- First something that only looks. -/
theorem post_look {p : Monitor α} {f : α → Monitor β} {Q : β → LockedMachine → Prop} (hp : Looks p)
    (hf : ∀ a t', t'.machine = t.machine → Prog.Post lockExec (f a) t' Q) : Prog.Post lockExec (p >>= f) t Q :=
  hp.post.bind fun a t' ht' => hf a t' ht'

/-- First a load. -/
theorem post_load64 {a : Word} {f : Word → Monitor β} {Q : β → LockedMachine → Prop}
    (hf : Prog.Post lockExec (f (t.machine.mem.load64 a)) t Q) : Prog.Post lockExec (load64 a >>= f) t Q := by
  intro b t' hrun
  rw [Prog.run_bind, run_load64_lock, Option.bind_some] at hrun
  exact hf b t' hrun

/-- First something plain whose outcome is known. -/
theorem post_plain {p : Monitor α} {f : α → Monitor β} {a : α} {m : Machine} {Q : β → LockedMachine → Prop}
    (hp : Plain p)
    (hrun : p.run (exec .code) t.machine = some (a, m)) (hf : Prog.Post lockExec (f a) (t.on m) Q) :
    Prog.Post lockExec (p >>= f) t Q := by
  intro b t' hb
  rw [Prog.run_bind, run_plain hp, hrun, Option.map_some, Option.bind_some] at hb
  exact hf b t' hb

/-- First a lock is cleared. -/
theorem post_clear {a : Word} {f : Unit → Monitor β} {Q : β → LockedMachine → Prop}
    (hf : Prog.Post lockExec (f ()) (t.release a) Q) : Prog.Post lockExec (clear a >>= f) t Q := by
  intro b t' hrun
  rw [Prog.run_bind, run_clear_lock, Option.bind_some] at hrun
  exact hf b t' hrun

/-- An error, with the machine as it was, or `monitor_ok`, on the machine `s'`; then `P`. -/
def Outcome (P : Prop) (s s' : Machine) (e : ApiResult) (t : LockedMachine) : Prop :=
  (e ≠ .ok ∧ t.machine = s) ∨ (e = .ok ∧ P ∧ t.machine = s')

theorem Outcome.error {P : Prop} {e : ApiResult} (h : t.machine = s) (he : e ≠ .ok := by decide) :
    Outcome P s s' e t :=
  .inl ⟨he, h⟩

theorem Outcome.ok {P : Prop} (hP : P) (h : t.machine = s') : Outcome P s s' .ok t := .inr ⟨rfl, hP, h⟩

theorem post_blockDramRegion (core : Word) :
    Prog.Post lockExec (blockDramRegion C.globals core q) t
      (Outcome (q.toNat < C.regionCount) t.machine (blockedState C.globals t.machine q)) := by
  unfold blockDramRegion
  refine .ite (fun _ => .pure (.error rfl)) fun hdyn => ?_
  have hq := (C.isDynamicDramRegion_iff.mp (by simpa using hdyn)).2
  refine post_look (looks_testAndSet _) fun _ t₁ h₁ => .ite (fun _ => .pure (.error h₁)) fun _ => post_load64 ?_
  refine post_load64 (.ite (fun _ => post_clear (.pure (.error h₁))) fun _ => ?_)
  refine post_look (.and (.bind (looks_load64 _) fun _ => .pure _)) fun _ t₂ h₂ => ?_
  refine .ite (fun _ => post_clear (.pure (.error (h₂.trans h₁)))) fun _ => ?_
  refine post_look (looks_testAndSet _) fun _ t₃ h₃ => ?_
  refine .ite (fun _ => post_clear (.pure (.error (h₃.trans (h₂.trans h₁))))) fun _ => ?_
  refine post_look (.and (.bind (.request rfl) fun _ => .pure _)) fun _ t₄ h₄ => ?_
  have hmachine : t₄.machine = t.machine := h₄.trans (h₃.trans (h₂.trans h₁))
  refine .ite (fun _ => post_clear (post_clear (.pure (.error hmachine)))) fun _ => ?_
  refine post_plain (plain_blockRegion _ _) (a := ()) (m := blockedState C.globals t.machine q) ?_
    (post_clear (post_clear (.pure (.ok hq rfl))))
  rw [hmachine, h₁]
  exact run_blockRegion C.globals t.machine .code q

theorem post_assignDramRegion (newOwner : EnclaveId) :
    Prog.Post lockExec (assignDramRegion C.globals q newOwner) t
      (Outcome (q.toNat < C.regionCount) t.machine (assignedState C.globals t.machine q newOwner)) := by
  unfold assignDramRegion
  refine .ite (fun _ => .pure (.error rfl)) fun hvalid => ?_
  have hq : q.toNat < C.regionCount := C.isValidDramRegion_iff.mp (by simpa using hvalid)
  refine post_look (looks_testAndSet _) fun _ t₁ h₁ => .ite (fun _ => .pure (.error h₁)) fun _ => post_load64 ?_
  refine .ite (fun _ => post_clear (.pure (.error h₁))) fun _ => ?_
  refine post_look (looks_testAndSet _) fun _ t₂ h₂ => ?_
  have hmachine : t₂.machine = t.machine := h₂.trans h₁
  refine .ite (fun _ => post_clear (.pure (.error hmachine))) fun _ => post_load64 ?_
  refine .ite (fun _ => ?_) fun _ => post_clear (post_clear (.pure (.error hmachine)))
  have hwrites : Plain (assignRegion C.globals q newOwner) :=
    .bind (plain_store64 _ _) fun _ => .bind (plain_setEnclaveRegionBitmapBit _ _ _) fun _ =>
      .ite (fun _ => plain_setDrbMap _) fun _ => .pure _
  refine post_plain hwrites (a := ()) (m := assignedState C.globals t.machine q newOwner) ?_
    (post_clear (post_clear (.pure (.ok hq rfl))))
  rw [hmachine]
  exact run_assignRegion C.globals t.machine .code q newOwner

theorem post_freeDramRegion :
    Prog.Post lockExec (freeDramRegion C.globals q) t
      (Outcome (q.toNat < C.regionCount) t.machine (freedState C.globals t.machine q)) := by
  unfold freeDramRegion
  refine .ite (fun _ => .pure (.error rfl)) fun hvalid => ?_
  have hq : q.toNat < C.regionCount := C.isValidDramRegion_iff.mp (by simpa using hvalid)
  have hfree : ∀ t' : LockedMachine, t'.machine = t.machine → Prog.Post lockExec (do
      store64 (C.globals.regionField .owner q) freeEnclaveId
      clearDramRegionLock C.globals q
      return .ok : Monitor ApiResult) t'
      (Outcome (q.toNat < C.regionCount) t.machine (freedState C.globals t.machine q)) := by
    refine fun t' ht' => post_plain (plain_store64 _ _) (a := ()) (m := freedState C.globals t.machine q) ?_
      (post_clear (.pure (.ok hq rfl)))
    rw [ht']
    rfl
  refine post_look (looks_testAndSet _) fun _ t₁ h₁ => .ite (fun _ => .pure (.error h₁)) fun _ => post_load64 ?_
  refine .ite (fun _ => post_load64 ?_) fun _ => .ite (fun _ => post_load64 ?_) fun _ => post_clear (.pure (.error h₁))
  · have hcores : Looks (someCoreNotFlushed C.globals
        (t₁.machine.mem.load64 (C.globals.regionField .blockedAt q))) :=
      .findUp fun _ _ _ => .bind (looks_load64 _) fun _ => .pure _
    exact post_look hcores fun _ t₂ h₂ => .ite (fun _ => hfree t₂ (h₂.trans h₁)) fun _ =>
      post_clear (.pure (.error (h₂.trans h₁)))
  · exact .ite (fun _ => hfree t₁ h₁) fun _ => post_clear (.pure (.error h₁))

/-- What a call has done that returns an API result. -/
theorem outcome_of_run {p : Monitor ApiResult} {P : Prop} {v : Word} {t' : LockedMachine}
    (hp : Prog.Post lockExec p t (Outcome P t.machine s')) (hrun : (resultOf p).run lockExec t = some (v, t')) :
    (v ≠ 0 ∧ t'.machine = t.machine) ∨ (v = 0 ∧ P ∧ t'.machine = s') := by
  rw [resultOf, Prog.run_bind] at hrun
  obtain ⟨⟨e, u⟩, he, hrest⟩ := Option.bind_eq_some_iff.mp hrun
  obtain ⟨rfl, rfl⟩ := Prod.mk.inj (Option.some.inj hrest)
  rw [Ne, code_eq_zero]
  exact hp e u he

/-- What a call leaves behind that does something. -/
inductive Done (C : Config) (s : Machine) : Call → Machine → Prop where
  /-- The clock has been stored where `flushed_at` points. -/
  | flush {core : Word} : Done C s (.flushCachedDramRegions core) (flushedState C.globals s core)
  /-- The region is blocked. -/
  | block {core q : Word} (hq : q.toNat < C.regionCount) :
    Done C s (.blockDramRegion core q) (blockedState C.globals s q)
  /-- The region belongs to its new owner. -/
  | assign {q : Word} {newOwner : EnclaveId} (hq : q.toNat < C.regionCount) :
    Done C s (.assignDramRegion q newOwner) (assignedState C.globals s q newOwner)
  /-- The region is free. -/
  | free {q : Word} (hq : q.toNat < C.regionCount) : Done C s (.freeDramRegion q) (freedState C.globals s q)

/-- Another call does nothing, or what it is for. -/
theorem done_of_step {e : LockedEvent} (hstep : lockedStep C s e s') (hother : OtherCall r e.call) :
    s' = s ∨ Done C s e.call s' := by
  obtain ⟨c, others, v⟩ := e
  obtain ⟨u, hrun, rfl⟩ := hstep
  cases c with
  | flushCachedDramRegions core =>
    obtain ⟨-, rfl⟩ := Prod.mk.inj (Option.some.inj hrun)
    exact .inr .flush
  | blockDramRegion core q =>
    rcases outcome_of_run (post_blockDramRegion core) hrun with ⟨-, hu⟩ | ⟨-, hq, hu⟩
    · exact .inl hu
    · rw [hu]
      exact .inr (.block hq)
  | assignDramRegion q newOwner =>
    rcases outcome_of_run (post_assignDramRegion newOwner) hrun with ⟨-, hu⟩ | ⟨-, hq, hu⟩
    · exact .inl hu
    · rw [hu]
      exact .inr (.assign hq)
  | freeDramRegion q =>
    rcases outcome_of_run post_freeDramRegion hrun with ⟨-, hu⟩ | ⟨-, hq, hu⟩
    · exact .inl hu
    · rw [hu]
      exact .inr (.free hq)
  | _ => exact hother.elim

end Posts

/-! ### What the calls leave alone -/

/-- What is watched is a slot. -/
theorem Watched.valid {a : Slot} (h : Watched C r a) (hr : r.toNat < C.regionCount) : a.Valid C := by
  rcases h with rfl | rfl | ⟨i, hi, rfl⟩
  · exact hr
  · exact hr
  · exact hi

/-- A bit is set or cleared in the bitmap of the OS or in one that is spared. -/
theorem read_setBit {a : Slot} {owner : EnclaveId} {v : Bool} (ha : Watched C r a) (hr : r.toNat < C.regionCount)
    (hq : q.toNat < C.regionCount)
    (hspares : owner ≠ nullEnclaveId → Memory.Apart (a.addr C) 8 (bitmapWord (enclaveRegionBitmap owner) q) 8) :
    Slot.read C (m.setBit (C.globals.bitmapOf owner) q v) a = Slot.read C m a := by
  unfold Globals.bitmapOf
  split
  · refine C.read_setBit_osRegionBitmap hq (ha.valid hr) fun k hk => ?_
    rcases ha with rfl | rfl | ⟨i, hi, rfl⟩ <;> cases hk
  · next howner => exact Memory.load64_store64_of_apart (hspares howner)

/-- What `block_dram_region(q)` of `owner` leaves in a slot that is watched. -/
theorem read_blockedMem {a : Slot} (m : Memory) (owner : EnclaveId) (ha : Watched C r a)
    (hr : r.toNat < C.regionCount)
    (hq : q.toNat < C.regionCount)
    (hspares : owner ≠ nullEnclaveId → Memory.Apart (a.addr C) 8 (bitmapWord (enclaveRegionBitmap owner) q) 8) :
    Slot.read C (blockedMem C.globals m q owner) a =
      if a = .region .blockedAt q then Slot.read C m .clock
      else if a = .region .owner q then blockedEnclaveId
      else Slot.read C m a := by
  have hclock : a ≠ .clock := by rcases ha with rfl | rfl | ⟨i, -, rfl⟩ <;> simp
  have hprevious : a ≠ .region .previousOwner q := by rcases ha with rfl | rfl | ⟨i, -, rfl⟩ <;> simp
  rw [blockedMem, read_setBit ha hr hq hspares, Slot.read_blockStores (ha.valid hr) hq, if_neg hclock, if_neg hprevious]

/-- A field of another region is not watched. -/
theorem Watched.ne_region {a : Slot} {f : RegionField} (ha : Watched C r a) (hne : q ≠ r) : a ≠ .region f q := by
  rintro rfl
  rcases ha with h | h | ⟨i, -, h⟩
  · exact hne (Slot.region.inj h).2
  · exact hne (Slot.region.inj h).2
  · cases h

/-- The step leaves alone what decides about `r`, unless it stores there by chance. -/
theorem step_watched {e : LockedEvent} (hr : r.toNat < C.regionCount) (hstep : lockedStep C s e s')
    (hother : OtherCall r e.call) (hspares : Spares C r s e.call) {a : Slot} (ha : Watched C r a) :
    Slot.read C s'.mem a = Slot.read C s.mem a := by
  obtain rfl | hdone := done_of_step hstep hother
  · rfl
  obtain ⟨c, others, v⟩ := e
  cases hdone with
  | flush => exact Memory.load64_store64_of_apart (hspares _ rfl a ha)
  | block hq =>
    refine (read_blockedMem _ _ ha hr hq fun howner => hspares _ (if_neg howner) a ha).trans ?_
    rw [if_neg (ha.ne_region hother), if_neg (ha.ne_region hother)]
  | assign hq =>
    refine (read_setBit ha hr hq fun howner => hspares _ (if_neg howner) a ha).trans ?_
    rw [Slot.read_store_region C (ha.valid hr) hq, if_neg (ha.ne_region hother)]
  | free hq => rw [Slot.read_freedState (ha.valid hr) hq, if_neg (ha.ne_region hother)]

/-- **The stamps stand still**: a run of flushes, and of calls on other regions, leaves alone what
decides about `r`, as long as nothing is stored there by chance. -/
theorem run_stamped {tr : List (Step Machine LockedEvent)} (hr : r.toNat < C.regionCount)
    (hrun : Run (lockedStep C) s tr s') (hothers : ∀ st ∈ tr, OtherCall r st.label.call)
    (hspares : ∀ st ∈ tr, Spares C r st.pre st.label.call) {a : Slot} (ha : Watched C r a) :
    Slot.read C s'.mem a = Slot.read C s.mem a := by
  have h := hrun.invariant_of (P := fun st => OtherCall r st.label.call ∧ Spares C r st.pre st.label.call)
    (I := fun u => Slot.read C u.mem a = Slot.read C s.mem a) (fun st hst => ⟨hothers st hst, hspares st hst⟩) rfl
  exact h fun _ ih hstep hst => (step_watched hr hstep hst.1 hst.2 ha).trans ih

/-! ### Blocking, and freeing -/

/-- A region just blocked has the stamp that the clock had. -/
theorem blocked_stamped {core : Word} {others : Word → Bool}
    (hblock : lockedStep C s ⟨.blockDramRegion core r, others, 0⟩ s')
    (hspares : Spares C r s (.blockDramRegion core r)) :
    r.toNat < C.regionCount ∧ C.globals.region s' .owner r = blockedEnclaveId ∧
      C.globals.region s' .blockedAt r = C.globals.blockClock s ∧
      ∀ i : Word, i.toNat < C.coreCount.toNat →
        C.globals.coreInfo s' .flushedAt i = C.globals.coreInfo s .flushedAt i := by
  obtain ⟨t, hrun, rfl⟩ := hblock
  rcases outcome_of_run (post_blockDramRegion core) hrun with ⟨hv, -⟩ | ⟨-, hr, ht⟩
  · exact absurd rfl hv
  rw [ht]
  have hread : ∀ {a : Slot}, Watched C r a → _ := fun {a} ha =>
    read_blockedMem s.mem (C.globals.region s .owner r) ha hr hr fun howner => hspares _ (if_neg howner) a ha
  refine ⟨hr, ?_, ?_, fun i hi => ?_⟩
  · exact (hread (.inl rfl)).trans (by simp)
  · exact (hread (.inr (.inl rfl))).trans (if_pos rfl)
  · exact (hread (.inr (.inr ⟨i, hi, rfl⟩))).trans (by simp; rfl)

/-- Freeing region `r` returns `monitor_ok`, and the region is free. -/
def Frees (C : Config) (s : Machine) (others : Word → Bool) (r : Word) : Prop :=
  ∃ s', lockedStep C s ⟨.freeDramRegion r, others, 0⟩ s' ∧ C.globals.region s' .owner r = freeEnclaveId

/-- No core's stamp is below that of region `r`. -/
def NoneBehind (C : Config) (s : Machine) (r : Word) : Prop :=
  ∀ i < C.coreCount.toNat, ¬ C.globals.coreInfo s .flushedAt (BitVec.ofNat 64 i) < C.globals.region s .blockedAt r

instance : Decidable (NoneBehind C s r) := inferInstanceAs (Decidable (∀ i < C.coreCount.toNat, _))

/-- What the core loop finds. -/
theorem run_someCoreNotFlushed_lock {u : LockedMachine} (hu : u.machine = s) :
    ∃ x, (someCoreNotFlushed C.globals (C.globals.region s .blockedAt r)).run lockExec u = some (x, u) ∧
      (x.isNone = true ↔ NoneBehind C s r) := by
  subst hu
  refine ⟨_, Prog.run_findUp lockExec (f := fun i => if C.globals.coreInfo u.machine .flushedAt (BitVec.ofNat 64 i) <
    C.globals.region u.machine .blockedAt r then some () else none) (fun _ => rfl) _ _, ?_⟩
  rw [Option.isNone_iff_eq_none, Prog.firstUp_eq_none_iff]
  simp [NoneBehind]

/-- What `free_dram_region` does with a blocked region whose lock is free. -/
theorem run_freeDramRegion_blocked {u : LockedMachine} (hr : r.toNat < C.regionCount)
    (hlock : u.held (C.globals.regionLock r) = false)
    (hblocked : C.globals.region u.machine .owner r = blockedEnclaveId) :
    (freeDramRegion C.globals r).run lockExec u =
      if NoneBehind C u.machine r then some (.ok, u.on (freedState C.globals u.machine r))
      else some (.invalidState, u) := by
  have hvalid : isValidDramRegion C.globals r = true := C.isValidDramRegion_iff.mpr hr
  have hlocked : (testAndSetDramRegionLock C.globals r).run lockExec u = some (false, u.acquire _ hlock) :=
    run_testAndSet_free hlock
  have howner : (readDramRegionOwner C.globals r).run lockExec (u.acquire _ hlock) =
      some (C.globals.region u.machine .owner r, u.acquire _ hlock) := rfl
  obtain ⟨x, hcores, hx⟩ := run_someCoreNotFlushed_lock (C := C) (r := r) (u.acquire_machine hlock)
  have hclear : ∀ (m : Machine) (e : ApiResult), (clearDramRegionLock C.globals r >>= fun _ =>
      (pure e : Monitor ApiResult)).run lockExec ((u.acquire _ hlock).on m) = some (e, u.on m) :=
    fun m e => congrArg (fun v : LockedMachine => some (e, v.on m)) (LockedMachine.release_acquire hlock)
  unfold freeDramRegion
  rw [hvalid]
  simp only [Bool.not_true, Bool.false_eq_true, if_false, Prog.run_bind, hlocked, Option.bind_some, howner, hblocked,
    if_true, run_load64_lock]
  rw [show (u.acquire _ hlock).machine.mem.load64 (C.globals.regionField .blockedAt r) =
    C.globals.region u.machine .blockedAt r from rfl, hcores, Option.bind_some]
  by_cases hstamp : NoneBehind C u.machine r
  · rw [if_pos hstamp, if_pos (hx.mpr hstamp)]
    exact hclear _ _
  · rw [if_neg hstamp, if_neg fun hnone => hstamp (hx.mp hnone)]
    exact hclear u.machine _

/-- A blocked region whose lock is free can be freed exactly if no core's stamp is below its own. -/
theorem frees_iff {others : Word → Bool} (hr : r.toNat < C.regionCount)
    (hblocked : C.globals.region s .owner r = blockedEnclaveId) (hlock : others (C.globals.regionLock r) = false) :
    Frees C s others r ↔ NoneBehind C s r := by
  have hfree : (entered s others).held (C.globals.regionLock r) = false := by rw [held_entered]; exact hlock
  have hrun := run_freeDramRegion_blocked hr hfree hblocked
  constructor
  · rintro ⟨s', ⟨t, ht, rfl⟩, -⟩
    by_contra hstamp
    change (resultOf (freeDramRegion C.globals r)).run lockExec (entered s others) = some (0, t) at ht
    rw [resultOf, Prog.run_bind, hrun.trans (if_neg hstamp)] at ht
    exact absurd (Prod.mk.inj (Option.some.inj ht)).1 (show ApiResult.invalidState.code ≠ 0 by decide)
  · intro hstamp
    refine ⟨freedState C.globals s r, ⟨(entered s others).on (freedState C.globals s r), ?_, rfl⟩, ?_⟩
    · change (resultOf (freeDramRegion C.globals r)).run lockExec (entered s others) = _
      rw [resultOf, Prog.run_bind, hrun.trans (if_pos hstamp)]
      rfl
    · exact (Slot.read_freedState (a := .region .owner r) hr hr).trans (if_pos rfl)

/-- **A blocked region can be freed exactly if no stamp was behind.** Whatever calls on other regions
and flushes follow, and whether or not every core is among those that flush, a region just
blocked can be freed afterwards if and only if every core's `flushed_at` was equal to the clock when
the region was blocked. -/
theorem freeable_iff {core : Word} {others₀ others : Word → Bool} {s₀ : Machine}
    {tr : List (Step Machine LockedEvent)}
    (hstamps : ∀ i : Word, i.toNat < C.coreCount.toNat → C.globals.coreInfo s₀ .flushedAt i ≤ C.globals.blockClock s₀)
    (hblock : lockedStep C s₀ ⟨.blockDramRegion core r, others₀, 0⟩ s)
    (hspares₀ : Spares C r s₀ (.blockDramRegion core r)) (hrun : Run (lockedStep C) s tr s')
    (hothers : ∀ st ∈ tr, OtherCall r st.label.call) (hspares : ∀ st ∈ tr, Spares C r st.pre st.label.call)
    (hlock : others (C.globals.regionLock r) = false) :
    Frees C s' others r ↔
      ∀ i : Word, i.toNat < C.coreCount.toNat → C.globals.coreInfo s₀ .flushedAt i = C.globals.blockClock s₀ := by
  obtain ⟨hr, howner, hblockedAt, hflushedAt⟩ := blocked_stamped hblock hspares₀
  have hread : ∀ {a : Slot}, Watched C r a → Slot.read C s'.mem a = Slot.read C s.mem a :=
    run_stamped hr hrun hothers hspares
  have hclock : C.globals.region s' .blockedAt r = C.globals.blockClock s₀ := (hread (.inr (.inl rfl))).trans hblockedAt
  have hcore : ∀ i : Word, i.toNat < C.coreCount.toNat →
      C.globals.coreInfo s' .flushedAt i = C.globals.coreInfo s₀ .flushedAt i := fun i hi =>
    (hread (.inr (.inr ⟨i, hi, rfl⟩))).trans (hflushedAt i hi)
  have hbound := C.coreCount.isLt
  rw [frees_iff hr ((hread (.inl rfl)).trans howner) hlock, NoneBehind, hclock]
  constructor
  · intro h i hi
    have hle := h i.toNat hi
    rw [BitVec.ofNat_toNat, BitVec.setWidth_eq, hcore i hi, BitVec.not_lt] at hle
    exact BitVec.le_antisymm (hstamps i hi) hle
  · intro h i hi
    have hi' : (BitVec.ofNat 64 i).toNat < C.coreCount.toNat := by
      rw [BitVec.toNat_ofNat, Nat.mod_eq_of_lt (hi.trans hbound)]
      exact hi
    rw [hcore _ hi', h _ hi']
    exact BitVec.lt_irrefl _

/-! ### Two regions -/

/-- The machine after a call while nobody holds a lock. -/
def lockedAfter (C : Config) (s : Machine) (c : Call) : Machine :=
  ((c.code C.globals).run lockExec (entered s fun _ => false)).elim s fun x => x.2.machine

theorem lockedStep_lockedAfter {c : Call} {v : Word}
    (h : ((c.code C.globals).run lockExec (entered s fun _ => false)).map Prod.fst = some v) :
    lockedStep C s ⟨c, fun _ => false, v⟩ (lockedAfter C s c) := by
  obtain ⟨⟨v, t⟩, ht, rfl⟩ := Option.map_eq_some_iff.mp h
  exact ⟨t, ht, by rw [lockedAfter, ht]; rfl⟩

/-- With `flushed_at` at `0`, the clock goes to where the `enclave_id` of core `0` is. -/
theorem spares_flush {core : Word} (hr : r.toNat < C.regionCount) (hcores : 0 < C.coreCount.toNat)
    (hcore : C.globals.coreInfo s .flushedAt core = 0) : Spares C r s (.flushCachedDramRegions core) := by
  rintro w ⟨⟩ a ha
  rw [hcore, ← Slot.addr_enclaveId_zero (C := C)]
  refine Slot.apart C (ha.valid hr) hcores ?_
  rcases ha with rfl | rfl | ⟨i, -, rfl⟩ <;> simp

/-- A region of the OS is blocked without a store by chance. -/
theorem spares_block {core : Word} (howner : C.globals.region s .owner q = nullEnclaveId) :
    Spares C r s (.blockDramRegion core q) := by
  intro w hw
  change w ∈ (if _ = _ then none else some _) at hw
  rw [if_pos howner] at hw
  cases hw

/-- Region `1` of a fresh machine is blocked. -/
def blockedFresh : Machine := lockedAfter twoRegions (freshMachine twoRegions) (.blockDramRegion 0 1)

/-- Region `1`, blocked when the clock is `0`, can be freed after a flush. -/
theorem freeable_fresh :
    Frees twoRegions (lockedAfter twoRegions blockedFresh (.flushCachedDramRegions 0)) (fun _ => false) 1 ↔
      ∀ i : Word, i.toNat < 1 → twoRegions.globals.coreInfo (freshMachine twoRegions) .flushedAt i =
        twoRegions.globals.blockClock (freshMachine twoRegions) :=
  freeable_iff (fun i hi => by
      obtain rfl : i = 0 := BitVec.eq_of_toNat_eq (Nat.lt_one_iff.mp hi)
      decide +kernel)
    (lockedStep_lockedAfter (c := .blockDramRegion 0 1) (by decide +kernel)) (spares_block (by decide +kernel))
    (.snoc .nil (lockedStep_lockedAfter (v := 0) (by decide +kernel))) (by simp [OtherCall])
    (by simpa using spares_flush (by decide) (by decide) (by decide +kernel)) rfl

/-- The machine after region `1` of a fresh one has been blocked, freed and given back. -/
def secondTime : Machine :=
  afterAll twoRegions.globals (freshMachine twoRegions) [.blockDramRegion 0 1, .freeDramRegion 1, .assignDramRegion 1 0]

/-- Blocked a second time, when the clock is `1`, region `1` cannot be freed, though the only
core has flushed its TLBs. -/
theorem not_freeable :
    ∃ (C : Config) (core r : Word) (s₀ s₁ s₂ : Machine) (tr : List (Step Machine LockedEvent)),
      (∀ i : Word, i.toNat < C.coreCount.toNat → C.globals.coreInfo s₀ .flushedAt i ≤ C.globals.blockClock s₀) ∧
      lockedStep C s₀ ⟨.blockDramRegion core r, fun _ => false, 0⟩ s₁ ∧ Run (lockedStep C) s₁ tr s₂ ∧
      (∀ st ∈ tr, OtherCall r st.label.call) ∧
      (∀ i : Word, i.toNat < C.coreCount.toNat → ∃ st ∈ tr, st.label.call = .flushCachedDramRegions i) ∧
      ¬ Frees C s₂ (fun _ => false) r := by
  refine ⟨twoRegions, 0, 1, secondTime, lockedAfter twoRegions secondTime (.blockDramRegion 0 1), _, _, fun i hi => ?_,
    lockedStep_lockedAfter (by decide +kernel),
    .snoc .nil (lockedStep_lockedAfter (c := .flushCachedDramRegions 0) (v := 0) (by decide +kernel)),
    by simp [OtherCall],
    fun i hi => ⟨_, List.mem_append_right _ (List.mem_singleton.mpr rfl), ?_⟩, fun hfrees => ?_⟩
  · obtain rfl : i = 0 := BitVec.eq_of_toNat_eq (Nat.lt_one_iff.mp hi)
    decide +kernel
  · obtain rfl : i = 0 := BitVec.eq_of_toNat_eq (Nat.lt_one_iff.mp hi)
    rfl
  · have hbehind := (frees_iff (by decide) (by decide +kernel) rfl).mp hfrees
    exact absurd hbehind (by decide +kernel)

end FlushStamps

end Sanctum
