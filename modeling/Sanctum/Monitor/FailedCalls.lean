import Sanctum.Monitor.Api
import Sanctum.Monitor.BootInit

/-!
# Calls that fail

A call that returns anything but `monitor_ok` has changed nothing, lock flags apart
(`failed_unchanged`), whichever way the flags are read. The reason is the same in each
call: it first looks and locks (`Quiet`), and once it has begun to write it does not fail
any more (`Succeeds`). A program built in this way `FailsQuietly`, and the rules for that
follow the code.
-/

namespace Sanctum

namespace FailedCalls

/-! ### What is unchanged -/

/-- `s'` is `s`, but for the bytes of lock flags; and if flags are passed by value, for
nothing. -/
structure Unchanged (l : LockReading) (flag : Word → Prop) (s s' : Machine) : Prop where
  /-- Besides memory nothing has changed. -/
  others : s' = { s with mem := s'.mem }
  /-- In memory only flags have. -/
  mem : ∀ b, ¬ flag b → s'.mem b = s.mem b
  /-- Not even these have, if flags are passed by value. -/
  code : l = .code → s' = s

variable {l : LockReading} {flag : Word → Prop} {s s' s'' : Machine} {α β : Type}

theorem Unchanged.refl (s : Machine) : Unchanged l flag s s := ⟨rfl, fun _ _ => rfl, fun _ => rfl⟩

theorem Unchanged.trans (h : Unchanged l flag s s') (h' : Unchanged l flag s' s'') : Unchanged l flag s s'' where
  others := by rw [h'.others, h.others]
  mem b hb := (h'.mem b hb).trans (h.mem b hb)
  code hl := (h'.code hl).trans (h.code hl)

/-- A flag is written back. -/
theorem unchanged_writeBack {a : Word} (f : BitVec 32) (ha : ∀ b, Memory.Within a 4 b → flag b) :
    Unchanged l flag s { s with mem := l.writeBack s.mem a f } := by
  refine ⟨rfl, fun b hb => ?_, fun hl => by subst hl; rfl⟩
  cases l with
  | code => rfl
  | documented => exact Memory.store32_of_not_within fun h => hb (ha b h)

/-! ### Programs that look, fail, or succeed -/

/-- The program changes nothing but flags. -/
def Quiet (l : LockReading) (flag : Word → Prop) (p : Monitor α) : Prop :=
  ∀ s, Prog.Post (exec l) p s fun _ s' => Unchanged l flag s s'

/-- The program returns `monitor_ok`, or has changed nothing but flags. -/
def FailsQuietly (l : LockReading) (flag : Word → Prop) (p : Monitor ApiResult) : Prop :=
  ∀ s, Prog.Post (exec l) p s fun e s' => e ≠ .ok → Unchanged l flag s s'

/-- The program returns `monitor_ok` if it returns. -/
def Succeeds (l : LockReading) (p : Monitor ApiResult) : Prop := ∀ s, Prog.Post (exec l) p s fun e _ => e = .ok

theorem Quiet.pure (a : α) : Quiet l flag (pure a) := fun s => .pure (.refl s)

theorem Quiet.bind {p : Monitor α} {f : α → Monitor β} (hp : Quiet l flag p) (hf : ∀ a, Quiet l flag (f a)) :
    Quiet l flag (p >>= f) :=
  fun s => (hp s).bind fun a s' hs' => (hf a s').mono fun _ _ h => hs'.trans h

theorem Quiet.ite {c : Prop} [Decidable c] {p q : Monitor α} (hp : Quiet l flag p) (hq : Quiet l flag q) :
    Quiet l flag (if c then p else q) := by
  split
  · exact hp
  · exact hq

theorem Quiet.andThen {c : Bool} {p : Monitor Bool} (hp : Quiet l flag p) : Quiet l flag (andThen c p) :=
  .ite hp (.pure _)

theorem quiet_load64 (a : Word) : Quiet l flag (load64 a) := by
  intro s w s' hrun
  rw [run_load64, Option.some.injEq, Prod.mk.injEq] at hrun
  exact hrun.2 ▸ .refl s

theorem quiet_readDmaRange : Quiet l flag readDmaRange := by
  intro s w s' hrun
  rw [run_readDmaRange, Option.some.injEq, Prod.mk.injEq] at hrun
  exact hrun.2 ▸ .refl s

theorem quiet_testAndSet {a : Word} (ha : ∀ b, Memory.Within a 4 b → flag b) : Quiet l flag (testAndSet a) := by
  intro s w s' hrun
  have hstate : s' = { s with mem := l.writeBack s.mem a 1 } :=
    (Prod.mk.inj (Option.some.inj hrun)).2.symm
  exact hstate ▸ unchanged_writeBack 1 ha

theorem quiet_clear {a : Word} (ha : ∀ b, Memory.Within a 4 b → flag b) : Quiet l flag (clear a) := by
  intro s w s' hrun
  have hstate : s' = { s with mem := l.writeBack s.mem a 0 } := (Prod.mk.inj (Option.some.inj hrun)).2.symm
  exact hstate ▸ unchanged_writeBack 0 ha

theorem Quiet.findUp {body : ℕ → Monitor (Option β)} {n i : ℕ}
    (hb : ∀ j, i ≤ j → j < i + n → Quiet l flag (body j)) : Quiet l flag (Prog.findUp body n i) := fun s =>
  Prog.Post.findUp (P := Unchanged l flag s) (.refl s) fun j s' h1 h2 hs' =>
    (hb j h1 h2 s').mono fun _ _ h => hs'.trans h

theorem Quiet.forUp {body : ℕ → Monitor Unit} {n i : ℕ}
    (hb : ∀ j, i ≤ j → j < i + n → Quiet l flag (body j)) : Quiet l flag (Prog.forUp body n i) := fun s =>
  Prog.Post.forUp (P := Unchanged l flag s) (.refl s) fun j s' h1 h2 hs' =>
    (hb j h1 h2 s').mono fun _ _ h => hs'.trans h

theorem Quiet.whileSome {body : α → Monitor (α ⊕ β)} {n : ℕ} {a : α} (hb : ∀ a, Quiet l flag (body a)) :
    Quiet l flag (Prog.whileSome body n a) := fun s =>
  Prog.Post.whileSome (P := Unchanged l flag s) (.refl s) fun b s' hs' =>
    (hb b s').mono fun _ _ h => hs'.trans h

theorem Quiet.failsQuietly {p : Monitor ApiResult} (hp : Quiet l flag p) : FailsQuietly l flag p :=
  fun s => (hp s).mono fun _ _ h _ => h

theorem Succeeds.failsQuietly {p : Monitor ApiResult} (hp : Succeeds l p) : FailsQuietly l flag p :=
  fun s => (hp s).mono fun _ _ h hne => absurd h hne

/-- An early exit. -/
theorem FailsQuietly.pure (e : ApiResult) : FailsQuietly l flag (pure e) := (Quiet.pure e).failsQuietly

/-- First look, then go on. -/
theorem FailsQuietly.bind {p : Monitor α} {f : α → Monitor ApiResult} (hp : Quiet l flag p)
    (hf : ∀ a, FailsQuietly l flag (f a)) : FailsQuietly l flag (p >>= f) :=
  fun s => (hp s).bind fun a s' hs' => (hf a s').mono fun _ _ h hne => hs'.trans (h hne)

theorem FailsQuietly.ite {c : Prop} [Decidable c] {p q : Monitor ApiResult} (hp : FailsQuietly l flag p)
    (hq : FailsQuietly l flag q) : FailsQuietly l flag (if c then p else q) := by
  split
  · exact hp
  · exact hq

/-- A check of an argument. -/
theorem FailsQuietly.check {c : Prop} [Decidable c] {e : ApiResult} {p : Monitor ApiResult}
    (hp : ¬ c → FailsQuietly l flag p) : FailsQuietly l flag (if c then Pure.pure e else p) := by
  split
  · exact .pure e
  · next hc => exact hp hc

/-- What comes after a step that may fail does not fail. -/
theorem FailsQuietly.seq {p rest : Monitor ApiResult} {error : ApiResult → Monitor ApiResult}
    (hp : FailsQuietly l flag p) (herror : ∀ e, Quiet l flag (error e)) (hrest : Succeeds l rest) :
    FailsQuietly l flag (p >>= fun e => if e ≠ .ok then error e else rest) := by
  refine fun s => (hp s).bind fun e s' hs' => ?_
  split
  · next hne => exact (herror e s').mono fun _ _ h _ => (hs' hne).trans h
  · exact (hrest s').mono fun _ _ h hne => absurd h hne

/-- What is done in the end is done whatever the result. -/
theorem FailsQuietly.finally {p : Monitor ApiResult} {q : Monitor Unit} (hp : FailsQuietly l flag p)
    (hq : Quiet l flag q) : FailsQuietly l flag (p >>= fun e => q >>= fun _ => Pure.pure e) :=
  fun s => (hp s).bind fun _ s' hs' => (hq s').bind fun _ _ hs'' => .pure fun hne => (hs' hne).trans hs''

theorem Succeeds.ok : Succeeds l (pure .ok) := fun _ => .pure rfl

theorem Succeeds.bind {p : Monitor α} {f : α → Monitor ApiResult} (hf : ∀ a, Succeeds l (f a)) :
    Succeeds l (p >>= f) :=
  fun _ => Prog.Post.bind (Q := fun _ _ => True) (fun _ _ _ => trivial) fun a s' _ => hf a s'

/-! ### The calls -/

variable (C : Config)

/-- The bytes of a region's lock flag. -/
def RegionFlag (b : Word) : Prop :=
  ∃ r : Word, r.toNat < C.regionCount ∧ Memory.Within (C.globals.regionLock r) 4 b

variable {C}

section Calls

variable (hflag : ∀ b, RegionFlag C b → flag b)

include hflag

theorem quiet_testAndSetDramRegionLock {r : Word} (hr : r.toNat < C.regionCount) :
    Quiet l flag (testAndSetDramRegionLock C.globals r) := quiet_testAndSet fun b hb => hflag b ⟨r, hr, hb⟩

theorem quiet_clearDramRegionLock {r : Word} (hr : r.toNat < C.regionCount) :
    Quiet l flag (clearDramRegionLock C.globals r) := quiet_clear fun b hb => hflag b ⟨r, hr, hb⟩

theorem failsQuietly_blockDramRegion (core r : Word) : FailsQuietly l flag (blockDramRegion C.globals core r) := by
  unfold blockDramRegion
  refine .check fun hdynamic => ?_
  have hr := (C.isDynamicDramRegion_iff.mp (by simpa using hdynamic)).2
  have hclear := quiet_clearDramRegionLock (l := l) hflag hr
  refine .bind (quiet_testAndSetDramRegionLock hflag hr) fun _ => .ite (.pure _) ?_
  refine .bind (quiet_load64 _) fun owner => .bind (quiet_load64 _) fun _ => .ite (.bind hclear fun _ => .pure _) ?_
  refine .bind (.andThen (.bind (quiet_load64 _) fun _ => .pure _)) fun _ => .ite (.bind hclear fun _ => .pure _) ?_
  have hr' := C.toNat_dramRegionFor_lt owner
  have hclear' := quiet_clearDramRegionLock (l := l) hflag hr'
  refine .bind (quiet_testAndSetDramRegionLock hflag hr') fun _ => .ite (.bind hclear fun _ => .pure _) ?_
  refine .bind (.andThen (.bind quiet_readDmaRange fun _ => .pure _)) fun _ =>
    .ite (.bind hclear' fun _ => .bind hclear fun _ => .pure _) ?_
  -- the writes
  exact (Succeeds.bind fun _ => .bind fun _ => .bind fun _ => .ok).failsQuietly

theorem failsQuietly_setDmaRange (base mask : Word) : FailsQuietly l flag (setDmaRange C.globals base mask) := by
  have h0 : (0 : Word).toNat < C.regionCount := C.regionCount_pos
  have hclear := quiet_clearDramRegionLock (l := l) hflag h0
  have hstripes : ∀ last, Quiet l flag (setDmaRangeStripes C.globals base last) := by
    intro last
    refine .whileSome fun b => .ite ?_ (.pure _)
    have hr := C.toNat_dramRegionFor_lt b.1
    refine .bind (.andThen (quiet_testAndSetDramRegionLock hflag hr)) fun _ => .ite (.pure _) ?_
    refine .bind (quiet_load64 _) fun _ => ?_
    exact .ite (.bind (quiet_clearDramRegionLock hflag hr) fun _ => .pure _) (.pure _)
  unfold setDmaRange
  refine .check fun _ => .check fun _ => .bind (quiet_testAndSetDramRegionLock hflag h0) fun _ => .ite (.pure _) ?_
  refine .bind (hstripes _) fun result => ?_
  match result with
  | none => exact fun s _ _ hrun => nomatch hrun
  | some none => exact .bind hclear fun _ => .pure _
  | some (some _) => exact (Succeeds.bind fun _ => .bind fun _ => .ok).failsQuietly

theorem failsQuietly_createMetadataRegion (r : Word) : FailsQuietly l flag (createMetadataRegion C.globals r) := by
  unfold createMetadataRegion
  refine .check fun hvalid => ?_
  have hr := C.isValidDramRegion_iff.mp (by simpa using hvalid)
  have hclear := quiet_clearDramRegionLock (l := l) hflag hr
  refine .bind (quiet_testAndSetDramRegionLock hflag hr) fun _ => .ite (.pure _) ?_
  refine .bind (quiet_load64 _) fun _ => .ite (.bind hclear fun _ => .pure _) ?_
  exact (Succeeds.bind fun _ => .bind fun _ => .ok).failsQuietly

theorem failsQuietly_assignDramRegion (r : Word) (newOwner : EnclaveId) :
    FailsQuietly l flag (assignDramRegion C.globals r newOwner) := by
  unfold assignDramRegion
  refine .check fun hvalid => ?_
  have hr := C.isValidDramRegion_iff.mp (by simpa using hvalid)
  have hclear := quiet_clearDramRegionLock (l := l) hflag hr
  refine .bind (quiet_testAndSetDramRegionLock hflag hr) fun _ => .ite (.pure _) ?_
  refine .bind (quiet_load64 _) fun _ => .ite (.bind hclear fun _ => .pure _) ?_
  have hr' := C.toNat_dramRegionFor_lt newOwner
  have hclear' := quiet_clearDramRegionLock (l := l) hflag hr'
  refine .bind (quiet_testAndSetDramRegionLock hflag hr') fun _ => .ite (.bind hclear fun _ => .pure _) ?_
  refine .bind (.bind (quiet_load64 _) fun _ => .pure _) fun _ => .ite ?_ ?_
  · exact (Succeeds.bind fun _ => .bind fun _ => .bind fun _ => .ok).failsQuietly
  · exact .bind hclear' fun _ => .bind hclear fun _ => .pure _

theorem failsQuietly_freeDramRegion (r : Word) : FailsQuietly l flag (freeDramRegion C.globals r) := by
  unfold freeDramRegion
  refine .check fun hvalid => ?_
  have hr := C.isValidDramRegion_iff.mp (by simpa using hvalid)
  have hclear := quiet_clearDramRegionLock (l := l) hflag hr
  have hfail : FailsQuietly l flag
      (clearDramRegionLock C.globals r >>= fun _ => pure .invalidState : Monitor ApiResult) :=
    .bind hclear fun _ => .pure _
  have hfree : Succeeds l (do
      store64 (C.globals.regionField .owner r) freeEnclaveId
      clearDramRegionLock C.globals r
      return .ok) := .bind fun _ => .bind fun _ => .ok
  have hcores : ∀ blockedAt, Quiet l flag (someCoreNotFlushed C.globals blockedAt) := fun _ =>
    .findUp fun _ _ _ => .bind (quiet_load64 _) fun _ => .pure _
  refine .bind (quiet_testAndSetDramRegionLock hflag hr) fun _ => .ite (.pure _) ?_
  refine .bind (quiet_load64 _) fun _ => .ite ?_ (.ite ?_ hfail)
  · exact .bind (quiet_load64 _) fun _ => .bind (hcores _) fun _ => .ite hfree.failsQuietly hfail
  · exact .bind (quiet_load64 _) fun _ => .ite hfree.failsQuietly hfail

/-! #### Metadata -/

theorem quiet_lockMetadataRegionFor (a : Word) : Quiet l flag (lockMetadataRegionFor C.globals a) := by
  unfold lockMetadataRegionFor
  have hr := C.toNat_dramRegionFor_lt a
  refine .ite (.pure _) (.bind (quiet_testAndSetDramRegionLock hflag hr) fun _ => .ite (.pure _) ?_)
  refine .bind (quiet_load64 _) fun _ => .ite ?_ (.pure _)
  exact .bind (quiet_clearDramRegionLock hflag hr) fun _ => .pure _

omit hflag in
theorem failsQuietly_assignMetadataPages (a pageCount owner type freeInfo : Word) :
    FailsQuietly l flag (assignMetadataPages C.globals a pageCount owner type freeInfo) := by
  unfold assignMetadataPages
  have hentries : Quiet l flag (someEntryTaken (metadataPageInfoFor C.globals a) pageCount) :=
    .findUp fun _ _ _ => .bind (quiet_load64 _) fun _ => .pure _
  refine .check fun _ => .bind hentries fun _ => .ite (.pure _) ?_
  exact (Succeeds.bind fun _ => .bind fun _ => .ok).failsQuietly

theorem quiet_lockEnclave {unset : Word} {id : EnclaveId} (hunset : unset.toNat < C.regionCount)
    (hid : ∀ b, Memory.Within (enclaveLock id) 4 b → flag b) : Quiet l flag (lockEnclave C.globals unset id) := by
  unfold lockEnclave
  have hclear := quiet_clearDramRegionLock (l := l) hflag hunset
  refine .ite (.pure _) (.bind (quiet_lockMetadataRegionFor hflag id) fun _ => .ite (.pure _) ?_)
  refine .bind (quiet_load64 _) fun _ => .ite (.bind hclear fun _ => .pure _) ?_
  refine .bind (quiet_testAndSet hid) fun _ => .ite (.bind hclear fun _ => .pure _) ?_
  exact .bind hclear fun _ => .pure _

theorem failsQuietly_createEnclave {unset : Word} (id : EnclaveId) (evBase evMask mailboxCount : Word) (debug : Bool)
    (hunset : unset.toNat < C.regionCount) :
    FailsQuietly l flag (createEnclave C.globals unset id evBase evMask mailboxCount debug) := by
  unfold createEnclave
  have hclear := quiet_clearDramRegionLock (l := l) hflag hunset
  refine .check fun _ => .check fun _ => .bind (quiet_lockMetadataRegionFor hflag id) fun _ => .ite (.pure _) ?_
  refine .bind (quiet_load64 _) fun _ => .ite (.bind hclear fun _ => .pure _) ?_
  refine .seq (failsQuietly_assignMetadataPages _ _ _ _ _) (fun e => .bind hclear fun _ => .pure e) ?_
  exact .bind fun _ => .bind fun _ => .ok

theorem failsQuietly_assignThread {lockUnset unset : Word} {id : EnclaveId} (threadId : Word)
    (hlockUnset : lockUnset.toNat < C.regionCount) (hunset : unset.toNat < C.regionCount)
    (hid : ∀ b, Memory.Within (enclaveLock id) 4 b → flag b) :
    FailsQuietly l flag (assignThread C.globals lockUnset unset id threadId) := by
  unfold assignThread
  have hunlock : Quiet l flag (unlockEnclave id) := quiet_clear hid
  refine .bind (quiet_lockEnclave hflag hlockUnset hid) fun _ => .ite (.pure _) ?_
  refine .bind (quiet_lockMetadataRegionFor hflag threadId) fun _ => .ite (.bind hunlock fun _ => .pure _) ?_
  have herror : ∀ e : ApiResult, Quiet l flag (clearDramRegionLock C.globals unset >>= fun _ =>
      unlockEnclave id >>= fun _ => pure e : Monitor ApiResult) :=
    fun e => .bind (quiet_clearDramRegionLock hflag hunset) fun _ => .bind hunlock fun _ => .pure e
  refine .bind (quiet_load64 _) fun _ => .ite (.seq (failsQuietly_assignMetadataPages _ _ _ _ _) herror ?_)
    (.seq (.pure _) herror ?_)
  · exact .bind fun _ => .bind fun _ => .bind fun _ => .bind fun _ => .ok
  · exact .bind fun _ => .bind fun _ => .bind fun _ => .bind fun _ => .ok

theorem failsQuietly_loadThread {lockUnset unset : Word} {id : EnclaveId}
    (threadId entryPc entryStack faultPc faultStack : Word)
    (hlockUnset : lockUnset.toNat < C.regionCount) (hunset : unset.toNat < C.regionCount)
    (hid : ∀ b, Memory.Within (enclaveLock id) 4 b → flag b) :
    FailsQuietly l flag
      (loadThread C.globals lockUnset unset id threadId entryPc entryStack faultPc faultStack) := by
  unfold loadThread
  have hunlock : Quiet l flag (unlockEnclave id) := quiet_clear hid
  refine .bind (quiet_lockEnclave hflag hlockUnset hid) fun _ => .ite (.pure _) ?_
  refine .bind (quiet_lockMetadataRegionFor hflag threadId) fun _ => .ite (.bind hunlock fun _ => .pure _) ?_
  have herror : ∀ e : ApiResult, Quiet l flag (clearDramRegionLock C.globals unset >>= fun _ =>
      unlockEnclave id >>= fun _ => pure e : Monitor ApiResult) :=
    fun e => .bind (quiet_clearDramRegionLock hflag hunset) fun _ => .bind hunlock fun _ => .pure e
  refine .bind (quiet_load64 _) fun _ => .bind (.andThen (.bind (quiet_load64 _) fun _ => .pure _)) fun _ => ?_
  refine .ite (.seq (failsQuietly_assignMetadataPages _ _ _ _ _) herror ?_) (.seq (.pure _) herror ?_)
  · exact .bind fun _ => .bind fun _ => .bind fun _ => .ok
  · exact .bind fun _ => .bind fun _ => .bind fun _ => .ok

/-! #### Enclaves -/

theorem failsQuietly_validated {id : EnclaveId} {body : Monitor ApiResult} (hbody : FailsQuietly l flag body) :
    FailsQuietly l flag (validated C.globals id body) := by
  unfold validated
  have hr := C.toNat_clampedDramRegionFor_lt id
  have hclear := quiet_clearDramRegionLock (l := l) hflag hr
  refine .bind (quiet_testAndSetDramRegionLock hflag hr) fun _ => .ite (.pure _) ?_
  refine .bind (.ite (.pure _) (.bind (.bind (quiet_load64 _) fun _ => .pure _) fun _ => .pure _)) fun _ => ?_
  exact .ite (.bind hclear fun _ => .pure _) (hbody.finally hclear)

theorem failsQuietly_initEnclave (id : EnclaveId) : FailsQuietly l flag (initEnclave C.globals id) := by
  unfold initEnclave
  refine failsQuietly_validated hflag (.bind (quiet_load64 _) fun _ => .ite (.pure _) ?_)
  exact (Succeeds.bind fun _ => .bind fun _ => .ok).failsQuietly

theorem quiet_deleteEnclaveUnlock (regionBitmap dramRegion : Word) {n : ℕ} (hn : n ≤ C.regionCount) :
    Quiet l flag (deleteEnclaveUnlock C.globals regionBitmap dramRegion n) := by
  refine .forUp fun i _ hi => .ite (.pure _) (.bind (.bind (quiet_load64 _) fun _ => .pure _) fun _ => ?_)
  exact .ite (.pure _) (quiet_clearDramRegionLock hflag (by rw [C.toNat_ofNat_lt (by omega)]; omega))

theorem quiet_deleteEnclaveLock (regionBitmap dramRegion : Word) :
    Quiet l flag (deleteEnclaveLock C.globals regionBitmap dramRegion) := by
  refine .findUp fun i _ hi => .ite (.pure _) (.bind (.bind (quiet_load64 _) fun _ => .pure _) fun _ => ?_)
  have hcount : C.globals.dramRegionCount.toNat = C.regionCount := by simp
  have hr := C.toNat_ofNat_lt (i := i) (by omega)
  exact .ite (.pure _) (.bind (quiet_testAndSetDramRegionLock hflag (by omega)) fun _ => .ite (.pure _) (.pure _))

omit hflag in
/-- The locking loop stops at a region. -/
theorem lt_of_deleteEnclaveLock {regionBitmap dramRegion : Word} {n : ℕ}
    (hrun : (deleteEnclaveLock C.globals regionBitmap dramRegion).run (exec l) s = some (some n, s')) :
    n < C.regionCount := by
  have hcount : C.globals.dramRegionCount.toNat = C.regionCount := by simp
  obtain ⟨j, t, -, hj, hrun⟩ := Prog.exists_of_run_findUp hrun
  have hbody : Prog.Post (exec l) (do
      let r := BitVec.ofNat 64 j
      if r = dramRegion then return none
      if !(← readBitmapBit regionBitmap r) then return none
      if ← testAndSetDramRegionLock C.globals r then return some j
      return none) t fun x _ => ∀ i, x = some i → i = j :=
    .ite (fun _ => .pure nofun) fun _ => .after fun _ _ => .ite (fun _ => .pure nofun) fun _ =>
      .after fun _ _ => .ite (fun _ => .pure fun _ h => (Option.some.inj h).symm) fun _ => .pure nofun
  rw [hbody _ _ hrun n rfl]
  omega

theorem failsQuietly_deleteEnclave (id : EnclaveId) : FailsQuietly l flag (deleteEnclave C.globals id) := by
  unfold deleteEnclave
  refine failsQuietly_validated hflag (.bind (quiet_load64 _) fun _ => .ite (.pure _) fun s => ?_)
  intro e s'' hrun hne
  rw [Prog.run_bind] at hrun
  obtain ⟨⟨x, s'⟩, hlock, hrun⟩ := Option.bind_eq_some_iff.mp hrun
  refine (quiet_deleteEnclaveLock hflag _ _ s x s' hlock).trans ?_
  cases x with
  | some n =>
    -- a lock is taken: those before it are released
    have hunlock := quiet_deleteEnclaveUnlock (l := l) hflag (enclaveRegionBitmap id)
      (clampedDramRegionFor C.globals id) (lt_of_deleteEnclaveLock hlock).le
    exact (FailsQuietly.bind hunlock fun _ => .pure _) s' e s'' hrun hne
  | none => exact absurd ((Succeeds.bind fun _ => .bind fun _ => .ok) s' e s'' hrun) hne

omit hflag in
theorem quiet_readEnclaveRegionBitmapBit (id : EnclaveId) (r : Word) :
    Quiet l flag (readEnclaveRegionBitmapBit C.globals id r) :=
  .ite (.bind (quiet_load64 _) fun _ => .pure _) (.bind (quiet_load64 _) fun _ => .pure _)

/-- The page is copied only if the result is `monitor_ok`. -/
theorem failsQuietly_copyDebugEnclavePage (id : EnclaveId) (enclaveAddr osAddr : Word) (readFromEnclave : Bool) :
    FailsQuietly l flag (copyDebugEnclavePage C.globals id enclaveAddr osAddr readFromEnclave) := by
  unfold copyDebugEnclavePage
  have hr := C.toNat_clampedDramRegionFor_lt id
  have hclear := quiet_clearDramRegionLock (l := l) hflag hr
  have hr' := C.toNat_dramRegionFor_lt osAddr
  have hclear' := quiet_clearDramRegionLock (l := l) hflag hr'
  refine .check fun _ => .check fun _ => .bind (quiet_testAndSetDramRegionLock hflag hr) fun _ => .ite (.pure _) ?_
  refine .bind (quiet_testAndSetDramRegionLock hflag hr') fun _ => .ite (.bind hclear fun _ => .pure _) ?_
  refine .bind (quiet_load64 _) fun _ => .bind (quiet_load64 _) fun _ => ?_
  refine .bind (quiet_readEnclaveRegionBitmapBit id _) fun _ => .bind (quiet_load64 _) fun _ => ?_
  extract_lets result rest
  have hfail : FailsQuietly l flag (rest ()) := .bind hclear' fun _ => .bind hclear fun _ => .pure _
  by_cases hok : result = .ok
  · -- the page is copied, and nothing fails any more
    have hcopied : ∀ p : Monitor Unit, FailsQuietly l flag (p >>= rest) := fun p =>
      Succeeds.failsQuietly (.bind fun _ => .bind fun _ => .bind fun _ => hok ▸ .ok)
    rw [if_pos hok]
    exact .ite (hcopied _) (hcopied _)
  · rw [if_neg hok]
    exact hfail

end Calls

/-! ### All of them -/

variable (C) in
/-- The calls in question. What a call has not set is some region. -/
def MayFail : Call → Prop
  | .blockDramRegion .. | .setDmaRange .. | .createMetadataRegion _ | .assignDramRegion .. | .freeDramRegion _
  | .initEnclave _ | .deleteEnclave _ | .copyDebugEnclavePage .. => True
  | .createEnclave unset .. => unset.toNat < C.regionCount
  | .assignThread lockUnset unset .. | .loadThread lockUnset unset .. =>
    lockUnset.toNat < C.regionCount ∧ unset.toNat < C.regionCount
  | _ => False

variable (C) in
/-- The bytes of the lock flags a call may touch: those of the regions, and that of the enclave
it locks. -/
def LockFlag (c : Call) (b : Word) : Prop :=
  RegionFlag C b ∨
    match c with
    | .assignThread _ _ id _ | .loadThread _ _ id .. => Memory.Within (enclaveLock id) 4 b
    | _ => False

/-- **A call that fails has changed nothing**, whichever way flags are read, but for the flags
themselves. -/
theorem failed_unchanged {c : Call} {v : Word} (hc : MayFail C c)
    (hrun : (c.code C.globals).run (exec l) s = some (v, s')) (hv : v ≠ 0) : Unchanged l (LockFlag C c) s s' := by
  have hflag : ∀ b, RegionFlag C b → LockFlag C c b := fun _ => .inl
  have key : ∀ p : Monitor ApiResult, FailsQuietly l (LockFlag C c) p →
      (resultOf p).run (exec l) s = some (v, s') → Unchanged l (LockFlag C c) s s' := by
    intro p hp hrun
    obtain ⟨e, he, rfl⟩ := run_resultOf hrun
    exact hp s e s' he fun hok => hv (code_eq_zero.mpr hok)
  cases c with
  | blockDramRegion core r => exact key _ (failsQuietly_blockDramRegion hflag core r) hrun
  | setDmaRange base mask => exact key _ (failsQuietly_setDmaRange hflag base mask) hrun
  | createMetadataRegion r => exact key _ (failsQuietly_createMetadataRegion hflag r) hrun
  | assignDramRegion r newOwner => exact key _ (failsQuietly_assignDramRegion hflag r newOwner) hrun
  | freeDramRegion r => exact key _ (failsQuietly_freeDramRegion hflag r) hrun
  | initEnclave id => exact key _ (failsQuietly_initEnclave hflag id) hrun
  | deleteEnclave id => exact key _ (failsQuietly_deleteEnclave hflag id) hrun
  | copyDebugEnclavePage id enclaveAddr osAddr readFromEnclave =>
    exact key _ (failsQuietly_copyDebugEnclavePage hflag id enclaveAddr osAddr readFromEnclave) hrun
  | createEnclave unset id evBase evMask mailboxCount debug =>
    exact key _ (failsQuietly_createEnclave hflag id evBase evMask mailboxCount debug hc) hrun
  | assignThread lockUnset unset id threadId =>
    exact key _ (failsQuietly_assignThread hflag threadId hc.1 hc.2 fun _ => .inr) hrun
  | loadThread lockUnset unset id threadId entryPc entryStack faultPc faultStack =>
    exact key _ (failsQuietly_loadThread hflag threadId entryPc entryStack faultPc faultStack hc.1 hc.2
      fun _ => .inr) hrun
  | _ => exact hc.elim

/-- The OS's regions cannot be made metadata regions. -/
theorem unchanged_notFree :
    Unchanged .documented (LockFlag twoRegions (.createMetadataRegion 1)) (freshMachine twoRegions)
      ((((Call.createMetadataRegion 1).code twoRegions.globals).run (exec .documented) (freshMachine twoRegions)).get
        (by decide +kernel)).2 :=
  failed_unchanged (c := .createMetadataRegion 1) trivial (Option.some_get _).symm (by decide +kernel)

end FailedCalls

end Sanctum
