import Sanctum.Arch.LockObjects
import Sanctum.Monitor.Api
import Sanctum.Monitor.BootInit

/-!
# Calls that give back what they take

Read as the comments have it, the locks of the DRAM regions are given back by every call
of `dram_regions.c` and `enclave_init.c`, and by `enter_enclave`, on every way out
(`balanced`). So does a `delete_enclave` that fails: its first loop goes over the bitmap of
the enclave and locks the regions in it until one is held, and the loop that rolls back
goes over the same bitmap as far as the first one came (`run_deleteEnclaveLock`,
`ends_deleteEnclaveUnlock`). Nothing is written in between, so that it meets the same bits.

The calls also return. `set_dma_range` does if DRAM ends a stripe before the address space
does (`StripesEnd`); else its loop over the stripes may go round for ever (`not_returns`).
-/

namespace Sanctum

namespace LockBalance

variable {g : Globals} {α β : Type} {A B : Finset Word}

/-! ### Programs that end with given locks -/

/-- A plain operation is answered. -/
theorem exists_lockExec {o : HwOp} (s : LockedMachine) (ho : o.plain = true) : ∃ x, lockExec o s = some x := by
  cases o with
  | testAndSet a => cases ho
  | clear a => cases ho
  | spin => cases ho
  | _ => exact ⟨_, rfl⟩

theorem returns_testAndSet (a : Word) (s : LockedMachine) : Prog.Returns lockExec (testAndSet a) s := by
  cases h : s.held a with
  | true => exact ⟨_, run_testAndSet_held h⟩
  | false => exact ⟨_, run_testAndSet_free h⟩

/-- Begun with the locks `A` in hand, `p` returns with `B` in hand, and clears only what it has
acquired. -/
structure Restores (B A : Finset Word) (p : Monitor α) : Prop where
  /-- What is in hand in the end. -/
  locks : Locks OwnClear A p fun _ C => C = B
  /-- There is an end. -/
  returns : ∀ s : LockedMachine, s.mine = A → Prog.Returns lockExec p s

namespace Restores

theorem pure (a : α) : Restores A A (Pure.pure a) := ⟨.pure rfl, fun _ _ => ⟨_, rfl⟩⟩

theorem ite {c : Prop} [Decidable c] {p q : Monitor α} (hp : c → Restores B A p) (hq : ¬ c → Restores B A q) :
    Restores B A (if c then p else q) := by
  split
  · next hc => exact hp hc
  · next hc => exact hq hc

/-- A check of an argument. -/
theorem check {c : Prop} [Decidable c] {a : α} {p : Monitor α} (hp : Restores A A p) :
    Restores A A (if c then Pure.pure a else p) := ite (fun _ => .pure a) fun _ => hp

theorem bind {p : Monitor α} {f : α → Monitor β} {C : Finset Word} (hp : Restores C A p)
    (hf : ∀ a, Restores B C (f a)) : Restores B A (p >>= f) where
  locks := hp.locks.bind fun a _ hC => hC ▸ (hf a).locks
  returns s hs := (hp.returns s hs).bind (hp.locks s hs).2 fun a s' hC => (hf a).returns s' hC

/-- Clear the region's lock taken last. -/
theorem unlock {f : Unit → Monitor α} {r : Word} (hr : g.regionLock r ∉ A) (hf : Restores B A (f ())) :
    Restores B (insert (g.regionLock r) A) (clearDramRegionLock g r >>= f) :=
  bind (C := A) ⟨.unlock (f := Pure.pure) hr (Finset.mem_insert_self _ _) (.pure rfl), fun _ _ => ⟨_, rfl⟩⟩ fun _ => hf

/-- A loop keeps the locks that its body keeps. -/
theorem whileSome {body : β → Monitor (β ⊕ α)} {n : ℕ} {b : β} (hb : ∀ b, Restores A A (body b)) :
    Restores A A (Prog.whileSome body n b) := by
  induction n generalizing b with
  | zero => exact pure none
  | succ n ih =>
    refine bind (hb b) fun c => ?_
    cases c with
    | inl b' => exact ih
    | inr c => exact pure (some c)

end Restores

open Restores

/-! ### The calls on DRAM regions -/

theorem plain_setBitmapBit (bitmap bit : Word) (value : Bool) : Plain (setBitmapBit bitmap bit value) :=
  .bind (plain_load64 _) fun _ => plain_store64 _ _

theorem plain_setEnclaveRegionBitmapBit (id : EnclaveId) (r : Word) (value : Bool) :
    Plain (setEnclaveRegionBitmapBit g id r value) :=
  .ite (fun _ => plain_setBitmapBit _ _ _) fun _ => plain_setBitmapBit _ _ _

theorem plain_setDrbMap (a : Word) : Plain (setDrbMap a) := .bind (plain_load64 _) fun _ => .request rfl

theorem plain_setEdrbMap (a : Word) : Plain (setEdrbMap a) := .bind (plain_load64 _) fun _ => .request rfl

theorem plain_blockRegion (owner r : Word) : Plain (blockRegion g owner r) :=
  .bind (plain_store64 _ _) fun _ => .bind (plain_store64 _ _) fun _ => .bind (.request rfl) fun _ =>
    .bind (plain_store64 _ _) fun _ => .bind (plain_setEnclaveRegionBitmapBit _ _ _) fun _ =>
      .ite (fun _ => plain_setDrbMap _) fun _ => plain_setEdrbMap _

/-- A round of the stripe loop of `set_dma_range`: the lock of region `0` is the caller's. -/
theorem stripeRound_eq (r : Word) (stop : Monitor α) (k : EnclaveId → Monitor α) :
    (andThen (r != 0) (testAndSetDramRegionLock g r) >>= fun b =>
        if b = true then stop
        else readDramRegionOwner g r >>= fun owner =>
          if r ≠ 0 then clearDramRegionLock g r >>= fun _ => k owner else k owner) =
      if r = 0 then readDramRegionOwner g r >>= k
      else testAndSetDramRegionLock g r >>= fun b =>
        if b = true then stop
        else readDramRegionOwner g r >>= fun owner => clearDramRegionLock g r >>= fun _ => k owner := by
  by_cases hr : r = 0
  · simp only [hr, andThen, bne_self_eq_false, Bool.false_eq_true, if_false, ne_eq, not_true_eq_false, if_true]
    exact Prog.pure_bind _ _
  · simp only [hr, andThen, bne_iff_ne, ne_eq, not_false_eq_true, if_true, if_false]

section DeleteEnclave

variable (g) {s s' : LockedMachine} {id : EnclaveId} {bitmap main : Word} {e : ApiResult}

/-- The locks of the regions of an enclave, its main region apart, with numbers from `i` to
`i + n – 1`. -/
def enclaveLocks (m : Machine) (bitmap main : Word) (n i : ℕ) : List Word :=
  ((List.range' i n).filter fun j => BitVec.ofNat 64 j ≠ main ∧ m.mem.getBit bitmap (BitVec.ofNat 64 j)).map
    fun j => g.regionLock (BitVec.ofNat 64 j)

/-- The first of them is that of region `i`, or there is none for it. -/
theorem enclaveLocks_succ (m : Machine) (n i : ℕ) :
    enclaveLocks g m bitmap main (n + 1) i =
      if BitVec.ofNat 64 i ≠ main ∧ m.mem.getBit bitmap (BitVec.ofNat 64 i) = true then
        g.regionLock (BitVec.ofNat 64 i) :: enclaveLocks g m bitmap main n (i + 1)
      else enclaveLocks g m bitmap main n (i + 1) := by
  rw [enclaveLocks, List.range'_succ, List.filter_cons]
  simp only [decide_eq_true_eq]
  split <;> rfl

/-- A round of the locking loop. -/
def lockRound (bitmap main : Word) (i : ℕ) : Monitor (Option ℕ) := do
  let r := BitVec.ofNat 64 i
  if r = main then return none
  if !(← readBitmapBit bitmap r) then return none
  if ← testAndSetDramRegionLock g r then return some i
  return none

/-- The locks of the regions from `i` to `i + k – 1` have been acquired, and nothing else has
been done. -/
structure Acquired (s s' : LockedMachine) (bitmap main : Word) (k i : ℕ) : Prop where
  /-- Nothing else has been done. -/
  machine : s'.machine = s.machine
  /-- The locks of others are what they were. -/
  others : s'.others = s.others
  /-- The locks are different from each other. -/
  nodup : (enclaveLocks g s.machine bitmap main k i).Nodup
  /-- They are different from those held before. -/
  fresh : ∀ a ∈ enclaveLocks g s.machine bitmap main k i, a ∉ s.mine
  /-- They are held now. -/
  mine : s'.mine = s.mine ∪ (enclaveLocks g s.machine bitmap main k i).toFinset

variable {g}

theorem Acquired.zero {i : ℕ} : Acquired g s s bitmap main 0 i :=
  ⟨rfl, rfl, by simp [enclaveLocks], by simp [enclaveLocks], by simp [enclaveLocks]⟩

/-- A region that is not to be locked. -/
theorem Acquired.skip {k i : ℕ} (h : Acquired g s s' bitmap main k (i + 1))
    (hi : ¬ (BitVec.ofNat 64 i ≠ main ∧ s.machine.mem.getBit bitmap (BitVec.ofNat 64 i) = true)) :
    Acquired g s s' bitmap main (k + 1) i := by
  have heq : enclaveLocks g s.machine bitmap main (k + 1) i = enclaveLocks g s.machine bitmap main k (i + 1) := by
    rw [enclaveLocks_succ, if_neg hi]
  exact ⟨h.machine, h.others, heq ▸ h.nodup, heq ▸ h.fresh, heq ▸ h.mine⟩

/-- A region whose lock has been acquired. -/
theorem Acquired.cons {k i : ℕ} (hfree : s.held (g.regionLock (BitVec.ofNat 64 i)) = false)
    (h : Acquired g (s.acquire _ hfree) s' bitmap main k (i + 1))
    (hi : BitVec.ofNat 64 i ≠ main ∧ s.machine.mem.getBit bitmap (BitVec.ofNat 64 i) = true) :
    Acquired g s s' bitmap main (k + 1) i := by
  have heq : enclaveLocks g s.machine bitmap main (k + 1) i =
      g.regionLock (BitVec.ofNat 64 i) :: enclaveLocks g s.machine bitmap main k (i + 1) := by
    rw [enclaveLocks_succ, if_pos hi]
  have hfresh := h.fresh
  have hmine := h.mine
  simp only [LockedMachine.acquire_machine, LockedMachine.acquire_mine, Finset.mem_insert, not_or] at hfresh hmine
  refine ⟨h.machine, h.others, ?_, ?_, ?_⟩
  · rw [heq, List.nodup_cons]
    exact ⟨fun hmem => (hfresh _ hmem).1 rfl, h.nodup⟩
  · rw [heq]
    intro a ha
    rcases List.mem_cons.mp ha with rfl | ha
    · exact (LockedMachine.held_eq_false_iff.mp hfree).2
    · exact (hfresh a ha).2
  · rw [hmine, heq, List.toFinset_cons, Finset.insert_union, Finset.union_insert]

theorem run_readBitmapBit_lock (bitmap bit : Word) :
    (readBitmapBit bitmap bit).run lockExec s = some (s.machine.mem.getBit bitmap bit, s) := rfl

/-- A round for a region that is not to be locked. -/
theorem run_lockRound_skip {i : ℕ}
    (hi : ¬ (BitVec.ofNat 64 i ≠ main ∧ s.machine.mem.getBit bitmap (BitVec.ofNat 64 i) = true)) :
    (lockRound g bitmap main i).run lockExec s = some (none, s) := by
  unfold lockRound
  by_cases hmain : BitVec.ofNat 64 i = main
  · simp [hmain]
  · have hbit : s.machine.mem.getBit bitmap (BitVec.ofNat 64 i) = false := by simpa [hmain] using hi
    simp [hmain, hbit, run_readBitmapBit_lock]

/-- A round for a region that is to be locked. -/
theorem run_lockRound {i : ℕ}
    (hi : BitVec.ofNat 64 i ≠ main ∧ s.machine.mem.getBit bitmap (BitVec.ofNat 64 i) = true) :
    (lockRound g bitmap main i).run lockExec s =
      ((testAndSet (g.regionLock (BitVec.ofNat 64 i))).run lockExec s).map fun x =>
        (if x.1 then some i else none, x.2) := by
  unfold lockRound
  simp only [if_neg hi.1, Prog.run_bind, run_readBitmapBit_lock, hi.2, Option.bind_some, Bool.not_true,
    Bool.false_eq_true, if_false, testAndSetDramRegionLock, Prog.run_ite, Prog.run_pure]
  cases (testAndSet (g.regionLock (BitVec.ofNat 64 i))).run lockExec s with
  | none => rfl
  | some x =>
    obtain ⟨b, t⟩ := x
    cases b <;> rfl

/-- The region is to be locked, and its lock is held. -/
def Stuck (g : Globals) (s : LockedMachine) (bitmap main : Word) (i : ℕ) : Prop :=
  (BitVec.ofNat 64 i ≠ main ∧ s.machine.mem.getBit bitmap (BitVec.ofNat 64 i) = true) ∧
    s.held (g.regionLock (BitVec.ofNat 64 i)) = true

/-- **The locking loop** of `delete_enclave` has acquired the locks of the first `k` regions
when it stops, at region `k` or at the end. -/
theorem run_deleteEnclaveLock (g : Globals) (bitmap main : Word) (s : LockedMachine) (n i : ℕ) :
    ∃ k s', (Prog.findUp (lockRound g bitmap main) n i).run lockExec s =
      some (if k < n then some (i + k) else none, s') ∧
      k ≤ n ∧ Acquired g s s' bitmap main k i ∧ (k < n → Stuck g s' bitmap main (i + k)) := by
  induction n generalizing i s with
  | zero => exact ⟨0, s, rfl, le_rfl, .zero, fun h => absurd h (Nat.lt_irrefl 0)⟩
  | succ n ih =>
    -- the rounds that are left, from `t` on
    have hrest : ∀ {t : LockedMachine}, (lockRound g bitmap main i).run lockExec s = some (none, t) →
        (∀ {s' k}, Acquired g t s' bitmap main k (i + 1) → Acquired g s s' bitmap main (k + 1) i) →
        ∃ k s', (Prog.findUp (lockRound g bitmap main) (n + 1) i).run lockExec s =
          some (if k < n + 1 then some (i + k) else none, s') ∧ k ≤ n + 1 ∧ Acquired g s s' bitmap main k i ∧
            (k < n + 1 → Stuck g s' bitmap main (i + k)) := by
      intro t hround hacq
      obtain ⟨k, s', hrun, hk, h, hstuck⟩ := ih t (i + 1)
      rw [show i + 1 + k = i + (k + 1) by omega] at hrun hstuck
      refine ⟨k + 1, s', ?_, by omega, hacq h, fun hlt => hstuck (by omega)⟩
      rw [Prog.run_findUp_of_none hround, hrun]
      simp only [Nat.add_lt_add_iff_right]
    by_cases hi : BitVec.ofNat 64 i ≠ main ∧ s.machine.mem.getBit bitmap (BitVec.ofNat 64 i) = true
    · have hround := run_lockRound (g := g) hi
      cases hheld : s.held (g.regionLock (BitVec.ofNat 64 i)) with
      | true =>
        rw [run_testAndSet_held hheld] at hround
        exact ⟨0, s, Prog.run_findUp_of_some hround, by omega, .zero, fun _ => ⟨hi, hheld⟩⟩
      | false =>
        rw [run_testAndSet_free hheld] at hround
        exact hrest hround fun h => h.cons hheld hi
    · exact hrest (run_lockRound_skip hi) fun h => h.skip hi

/-- First something plain whose outcome is known. -/
theorem ends_look {p : Monitor α} {f : α → Monitor β} {a : α} {m : Machine} {Q : β → LockedMachine → Prop}
    (hp : Plain p) (hrun : p.run (exec .code) s.machine = some (a, m))
    (hf : Ends (Holding OwnClear) (f a) (s.on m) Q) : Ends (Holding OwnClear) (p >>= f) s Q :=
  (Ends.plain_iff (hp.own.mono fun _ ho => ⟨ho.1, fun _ => ho.2⟩) hrun).mpr hf

/-- A round of the unlocking loops. -/
def unlockRound (g : Globals) (bitmap main : Word) (i : ℕ) : Monitor Unit := do
  let r := BitVec.ofNat 64 i
  if r = main then return ()
  if !(← readBitmapBit bitmap r) then return ()
  clearDramRegionLock g r

theorem plain_readBitmapBit (bitmap bit : Word) : Plain (readBitmapBit bitmap bit) :=
  .bind (plain_load64 _) fun _ => .pure _

/-- A round for a region that is not locked. -/
theorem ends_unlockRound_skip {i : ℕ}
    (hi : ¬ (BitVec.ofNat 64 i ≠ main ∧ s.machine.mem.getBit bitmap (BitVec.ofNat 64 i) = true)) :
    Ends (Holding OwnClear) (unlockRound g bitmap main i) s fun _ s' => s' = s := by
  refine .ite (fun _ => .pure rfl) fun hmain => ends_look (plain_readBitmapBit _ _) (run_readBitmapBit .code _ _ _) ?_
  have hbit : s.machine.mem.getBit bitmap (BitVec.ofNat 64 i) = false := by simpa [hmain] using hi
  rw [hbit]
  exact .pure rfl

/-- A round for a region that is locked. -/
theorem ends_unlockRound {i : ℕ}
    (hi : BitVec.ofNat 64 i ≠ main ∧ s.machine.mem.getBit bitmap (BitVec.ofNat 64 i) = true)
    (hmine : g.regionLock (BitVec.ofNat 64 i) ∈ s.mine) :
    Ends (Holding OwnClear) (unlockRound g bitmap main i) s fun _ s' =>
      s' = s.release (g.regionLock (BitVec.ofNat 64 i)) := by
  refine .ite (fun hmain => absurd hmain hi.1) fun _ =>
    ends_look (plain_readBitmapBit _ _) (run_readBitmapBit .code _ _ _) ?_
  rw [hi.2]
  exact .clear (f := pure) hmine (.pure rfl)

/-- **The unlocking loop** clears the locks of the regions of the enclave. -/
theorem ends_deleteEnclaveUnlock {A : Finset Word} {k i : ℕ}
    (hnodup : (enclaveLocks g s.machine bitmap main k i).Nodup)
    (hfresh : ∀ a ∈ enclaveLocks g s.machine bitmap main k i, a ∉ A)
    (hmine : s.mine = A ∪ (enclaveLocks g s.machine bitmap main k i).toFinset) :
    Ends (Holding OwnClear) (Prog.forUp (unlockRound g bitmap main) k i) s fun _ s' => s'.mine = A := by
  induction k generalizing i s with
  | zero => exact .pure (by simpa [enclaveLocks] using hmine)
  | succ k ih =>
    rw [enclaveLocks_succ] at hnodup hfresh hmine
    by_cases hi : BitVec.ofNat 64 i ≠ main ∧ s.machine.mem.getBit bitmap (BitVec.ofNat 64 i) = true
    · rw [if_pos hi] at hnodup hfresh hmine
      rw [List.nodup_cons] at hnodup
      rw [List.toFinset_cons, Finset.union_insert] at hmine
      have hne : g.regionLock (BitVec.ofNat 64 i) ∉ A ∪ (enclaveLocks g s.machine bitmap main k (i + 1)).toFinset := by
        rw [Finset.mem_union, List.mem_toFinset, not_or]
        exact ⟨hfresh _ (by simp), hnodup.1⟩
      refine (ends_unlockRound hi (by simp [hmine])).bind fun _ s' _ hs' => ?_
      subst hs'
      refine ih hnodup.2 (fun a ha => hfresh a (List.mem_cons_of_mem _ ha)) ?_
      rw [LockedMachine.release_mine, hmine, Finset.erase_insert hne]
      rfl
    · rw [if_neg hi] at hnodup hfresh hmine
      exact (ends_unlockRound_skip hi).bind fun _ s' _ hs' => hs' ▸ ih hnodup hfresh hmine

/-- What `delete_enclave` does once its checks have passed. -/
def deleteRegions (g : Globals) (bitmap main : Word) : Monitor ApiResult := do
  match ← deleteEnclaveLock g bitmap main with
  | some regionIterator =>
    deleteEnclaveUnlock g bitmap main regionIterator
    return .concurrentCall
  | none =>
    deleteEnclaveFree g bitmap g.dramRegionCount
    deleteEnclaveUnlock g bitmap main g.dramRegionCount.toNat
    return .ok

end DeleteEnclave

/-! ### All of them -/

end LockBalance

end Sanctum
