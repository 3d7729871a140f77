import Mathlib.Data.Finset.Insert
import Sanctum.Arch.Machine

/-!
# Locks as objects

The third reading of the monitor's flags, next to the two of `LockReading`. A lock is an
object of its own, known by the address of its flag: to set the flag is to acquire the
lock, unless it is held, and to clear it is to release the lock. No store reaches it. This
is how the comments speak of locks, and it is the reading for all that is said about what
a call holds.

A `LockedMachine` is seen from one call: it knows which locks the call holds itself
(`mine`) and which of them others hold. The others do nothing while the call runs.

## What is proved

`Ends ok p s Q` says that `p`, begun on `s`, asks only what is `ok` with the locks it holds
at the time, and ends with a value and a state that satisfy `Q`; `Locks ok A p Q` says so of
every state in which the locks in hand are `A`. The rules for both follow the code. If a
call releases only what it has acquired, the others' locks stay as they are
(`others_of_sparesOthers`), so a call that ends with what it began with is `Balanced`
(`Ends.toBalanced`).
-/

namespace Sanctum

/-- A machine whose locks are objects, and a call that runs on it. -/
@[ext]
structure LockedMachine where
  /-- The machine. -/
  machine : Machine
  /-- The locks that others hold. -/
  others : Word → Bool
  /-- The locks that the call holds. -/
  mine : Finset Word
  /-- No lock is held twice. -/
  others_eq_false : ∀ a ∈ mine, others a = false

namespace LockedMachine

/-- The lock is held, by whomever. -/
def held (s : LockedMachine) (a : Word) : Bool := s.others a || decide (a ∈ s.mine)

/-- The call holds one more lock. -/
def acquire (s : LockedMachine) (a : Word) (h : s.held a = false) : LockedMachine where
  machine := s.machine
  others := s.others
  mine := insert a s.mine
  others_eq_false b hb := by
    rcases Finset.mem_insert.mp hb with rfl | hb
    · exact (Bool.or_eq_false_iff.mp h).1
    · exact s.others_eq_false b hb

/-- The lock is free, whoever held it. -/
def release (s : LockedMachine) (a : Word) : LockedMachine where
  machine := s.machine
  others := Function.update s.others a false
  mine := s.mine.erase a
  others_eq_false b hb := by
    rw [Function.update_of_ne (Finset.ne_of_mem_erase hb)]
    exact s.others_eq_false b (Finset.mem_of_mem_erase hb)

/-- The machine has changed. -/
def on (s : LockedMachine) (m : Machine) : LockedMachine := ⟨m, s.others, s.mine, s.others_eq_false⟩

variable {s s' : LockedMachine} {a : Word}

@[simp] theorem acquire_mine (h : s.held a = false) : (s.acquire a h).mine = insert a s.mine := rfl

@[simp] theorem acquire_machine (h : s.held a = false) : (s.acquire a h).machine = s.machine := rfl

@[simp] theorem acquire_others (h : s.held a = false) : (s.acquire a h).others = s.others := rfl

@[simp] theorem release_mine : (s.release a).mine = s.mine.erase a := rfl

@[simp] theorem release_machine : (s.release a).machine = s.machine := rfl

@[simp] theorem on_mine (m : Machine) : (s.on m).mine = s.mine := rfl

@[simp] theorem on_machine (m : Machine) : (s.on m).machine = m := rfl

@[simp] theorem on_others (m : Machine) : (s.on m).others = s.others := rfl

theorem held_eq_false_iff : s.held a = false ↔ s.others a = false ∧ a ∉ s.mine := by
  rw [held, Bool.or_eq_false_iff, decide_eq_false_iff_not]

/-- Releasing a lock that others do not hold, a call leaves those of others alone. -/
theorem release_others (h : s.others a = false) : (s.release a).others = s.others := by
  change Function.update s.others a false = s.others
  rw [← h, Function.update_eq_self]

/-- What has been acquired and released again. -/
theorem release_acquire (h : s.held a = false) : (s.acquire a h).release a = s := by
  obtain ⟨hothers, hmine⟩ := held_eq_false_iff.mp h
  exact LockedMachine.ext rfl (release_others hothers) (Finset.erase_insert hmine)

end LockedMachine

open LockedMachine

/-- What each operation does. But for the locks it is what it is on the machine. -/
def lockExec : Handler hardware LockedMachine
  | .testAndSet a, s => if h : s.held a = false then some (false, s.acquire a h) else some (true, s)
  | .clear a, s => some ((), s.release a)
  | o, s => (exec .code o s.machine).map fun x => (x.1, s.on x.2)

/-- The operation is not about a lock, and is no `while (true) {}`. -/
def HwOp.plain : HwOp → Bool
  | .testAndSet _ | .clear _ | .spin => false
  | _ => true

variable {α β : Type} {s s' : LockedMachine}

theorem lockExec_eq {o : HwOp} (ho : o.plain = true) :
    lockExec o s = (exec .code o s.machine).map fun x => (x.1, s.on x.2) := by
  cases o with
  | testAndSet a => cases ho
  | clear a => cases ho
  | spin => cases ho
  | _ => rfl

/-- A plain operation leaves the locks as they are. -/
theorem lockExec_plain {o : HwOp} {x : o.Answer} (ho : o.plain = true) (h : lockExec o s = some (x, s')) :
    exec .code o s.machine = some (x, s'.machine) ∧ s' = s.on s'.machine := by
  rw [lockExec_eq ho] at h
  obtain ⟨y, hy, hx⟩ := Option.map_eq_some_iff.mp h
  obtain ⟨rfl, rfl⟩ := Prod.mk.inj hx
  exact ⟨hy, rfl⟩

/-! ### Running -/

/-- The lock is held. -/
theorem run_testAndSet_held {a : Word} (h : s.held a = true) : (testAndSet a).run lockExec s = some (true, s) :=
  (Prog.run_request lockExec _ s).trans (dif_neg (by simp [h]))

/-- The lock is free. -/
theorem run_testAndSet_free {a : Word} (h : s.held a = false) :
    (testAndSet a).run lockExec s = some (false, s.acquire a h) :=
  (Prog.run_request lockExec _ s).trans (dif_pos h)

@[simp] theorem run_clear_lock (a : Word) : (clear a).run lockExec s = some ((), s.release a) := rfl

@[simp] theorem run_load64_lock (a : Word) :
    (load64 a).run lockExec s = some (s.machine.mem.load64 a, s) := rfl

@[simp] theorem run_readDmaRange_lock :
    readDmaRange.run lockExec s = some ((s.machine.dmaRangeStart, s.machine.dmaRangeEnd), s) := rfl

/-- A plain program runs as on the machine. -/
theorem run_plain {p : Monitor α} (hp : p.Only fun o : HwOp => o.plain = true) :
    p.run lockExec s = (p.run (exec .code) s.machine).map fun x => (x.1, s.on x.2) := by
  induction p generalizing s with
  | done a => rfl
  | ask o k ih =>
    rw [Prog.run, Prog.run, lockExec_eq hp.1]
    cases exec .code o s.machine with
    | none => rfl
    | some x => exact ih x.1 (hp.2 x.1)

/-! ### Plain programs -/

section PlainPrograms

/-- The program has nothing to do with locks, and no endless loop. -/
abbrev Plain (p : Monitor α) : Prop := p.Only fun o : HwOp => o.plain = true

theorem plain_load64 (a : Word) : Plain (load64 a) := .request rfl

theorem plain_store64 (a v : Word) : Plain (store64 a v) := .request rfl

theorem plain_bzero (a : Word) (n : ℕ) : Plain (bzero a n) := .request rfl

/-- `c && p`. -/
theorem Prog.Only.and {ok : HwOp → Prop} {c : Bool} {p : Monitor Bool} (hp : p.Only ok) :
    Prog.Only ok (if c then p else Pure.pure false) := .ite (fun _ => hp) fun _ => .pure _

end PlainPrograms

/-! ### Programs that look -/

/-- The operation leaves the machine as it is, whatever it does to the locks. -/
def HwOp.looks : HwOp → Bool
  | .load64 _ | .load32 _ | .testAndSet _ | .clear _ | .readDmaRange | .spin => true
  | _ => false

/-- The program only looks, and takes and releases locks. -/
abbrev Looks (p : Monitor α) : Prop := p.Only fun o : HwOp => o.looks = true

theorem lockExec_looks {o : HwOp} {x : o.Answer} (ho : o.looks = true) (h : lockExec o s = some (x, s')) :
    s'.machine = s.machine := by
  cases o with
  | testAndSet a =>
    rw [lockExec] at h
    split at h
    · rw [← (Prod.mk.inj (Option.some.inj h)).2]; rfl
    · rw [← (Prod.mk.inj (Option.some.inj h)).2]
  | clear a => rw [← (Prod.mk.inj (Option.some.inj h)).2]; rfl
  | load64 a => rw [← (Prod.mk.inj (Option.some.inj h)).2]; rfl
  | load32 a => rw [← (Prod.mk.inj (Option.some.inj h)).2]; rfl
  | readDmaRange => rw [← (Prod.mk.inj (Option.some.inj h)).2]; rfl
  | spin => cases h
  | _ => cases ho

/-- A program that only looks leaves the machine as it is. -/
theorem Looks.post {p : Monitor α} (hp : Looks p) : Prog.Post lockExec p s fun _ t => t.machine = s.machine :=
  Prog.Only.post hp rfl fun _ _ _ _ ho ht h => (lockExec_looks ho h).trans ht

theorem looks_load64 (a : Word) : Looks (load64 a) := .request rfl

theorem looks_testAndSet (a : Word) : Looks (testAndSet a) := .request rfl

theorem looks_clear (a : Word) : Looks (clear a) := .request rfl

/-! ### What a call holds -/

/-- The call clears no lock but its own. -/
def OwnClear : HwOp → Finset Word → Prop
  | .clear a, A => a ∈ A
  | _, _ => True

theorem ownClear_of_plain {o : HwOp} {A : Finset Word} (ho : o.plain = true) : OwnClear o A := by
  cases o with
  | clear a => cases ho
  | _ => trivial

/-- A plain program clears no lock. -/
theorem Plain.own {p : Monitor α} {A : Finset Word} (hp : Plain p) :
    p.Only fun o : HwOp => o.plain = true ∧ OwnClear o A :=
  hp.mono fun _ ho => ⟨ho, ownClear_of_plain ho⟩

/-- Begun on `s`, `p` asks only what is `ok` at the time, and if it ends, it ends with a value and
a state that satisfy `Q`. -/
def Ends (ok : HwOp → LockedMachine → Prop) (p : Monitor α) (s : LockedMachine) (Q : α → LockedMachine → Prop) :
    Prop :=
  p.Asks lockExec ok s ∧ Prog.Post lockExec p s Q

namespace Ends

variable {ok : HwOp → LockedMachine → Prop} {Q : α → LockedMachine → Prop}

/-! #### What it is for each kind of program -/

theorem pure_iff {a : α} : Ends ok (Pure.pure a) s Q ↔ Q a s :=
  ⟨fun h => h.2 a s rfl, fun h => ⟨trivial, .pure h⟩⟩

theorem if_pos_iff {c : Prop} [Decidable c] {p q : Monitor α} (hc : c) :
    Ends ok (if c then p else q) s Q ↔ Ends ok p s Q := by rw [if_pos hc]

theorem if_neg_iff {c : Prop} [Decidable c] {p q : Monitor α} (hc : ¬ c) :
    Ends ok (if c then p else q) s Q ↔ Ends ok q s Q := by rw [if_neg hc]

/-- What comes after something whose outcome is known. -/
theorem run_iff {p : Monitor α} {f : α → Monitor β} {a : α} {Q : β → LockedMachine → Prop}
    (hrun : p.run lockExec s = some (a, s')) :
    Ends ok (p >>= f) s Q ↔ p.Asks lockExec ok s ∧ Ends ok (f a) s' Q := by
  have hknown : ∀ b t, p.run lockExec s = some (b, t) → b = a ∧ t = s' := fun b t hb => by
    obtain ⟨rfl, rfl⟩ := Prod.mk.inj (Option.some.inj (hrun.symm.trans hb))
    exact ⟨rfl, rfl⟩
  constructor
  · intro h
    have hasks := Prog.asks_bind_iff.mp h.1
    refine ⟨hasks.1, hasks.2 a s' hrun, fun b t hb => h.2 b t ?_⟩
    rw [Prog.run_bind, hrun, Option.bind_some, hb]
  · rintro ⟨hp, hf⟩
    refine ⟨hp.bind fun b t hb => ?_, fun b t hb => hf.2 b t ?_⟩
    · obtain ⟨rfl, rfl⟩ := hknown b t hb
      exact hf.1
    · rwa [Prog.run_bind, hrun, Option.bind_some] at hb

theorem lock_iff_of_held {f : Bool → Monitor α} {a : Word} (h : s.held a = true) :
    Ends ok (testAndSet a >>= f) s Q ↔ ok (.testAndSet a) s ∧ Ends ok (f true) s Q := by
  rw [run_iff (run_testAndSet_held h)]
  exact and_congr_left' (and_iff_left fun _ _ _ => trivial)

theorem lock_iff_of_free {f : Bool → Monitor α} {a : Word} (h : s.held a = false) :
    Ends ok (testAndSet a >>= f) s Q ↔ ok (.testAndSet a) s ∧ Ends ok (f false) (s.acquire a h) Q := by
  rw [run_iff (run_testAndSet_free h)]
  exact and_congr_left' (and_iff_left fun _ _ _ => trivial)

theorem clear_iff {f : Unit → Monitor α} {a : Word} :
    Ends ok (Sanctum.clear a >>= f) s Q ↔ ok (.clear a) s ∧ Ends ok (f ()) (s.release a) Q := by
  rw [run_iff (run_clear_lock a)]
  exact and_congr_left' (and_iff_left fun _ _ _ => trivial)

/-- What comes after something plain whose outcome on the machine is known. -/
theorem plain_iff {p : Monitor α} {f : α → Monitor β} {a : α} {m : Machine} {Q : β → LockedMachine → Prop}
    (hp : p.Only fun o : HwOp => o.plain = true ∧ ∀ m, ok o (s.on m))
    (hrun : p.run (exec .code) s.machine = some (a, m)) : Ends ok (p >>= f) s Q ↔ Ends ok (f a) (s.on m) Q := by
  have hplain : p.run lockExec s = some (a, s.on m) := by
    rw [run_plain (hp.mono fun _ ho => ho.1), hrun]
    rfl
  rw [run_iff hplain, and_iff_right]
  refine hp.asks (P := fun t => t = s.on t.machine) rfl (fun o t ho ht => ht ▸ ho.2 _) fun o t x t' ho ht h => ?_
  rw [(lockExec_plain ho.1 h).2, ht]
  rfl

/-! #### Rules -/

theorem pure {a : α} (h : Q a s) : Ends ok (Pure.pure a) s Q := pure_iff.mpr h

theorem bind {p : Monitor α} {f : α → Monitor β} {R : α → LockedMachine → Prop} {Q : β → LockedMachine → Prop}
    (hp : Ends ok p s R) (hf : ∀ a s', p.run lockExec s = some (a, s') → R a s' → Ends ok (f a) s' Q) :
    Ends ok (p >>= f) s Q :=
  ⟨hp.1.bind fun a s' hrun => (hf a s' hrun (hp.2 a s' hrun)).1,
    Prog.Post.bind (Q := fun a s' => p.run lockExec s = some (a, s')) (fun _ _ hrun => hrun)
      fun a s' hrun => (hf a s' hrun (hp.2 a s' hrun)).2⟩

theorem mono {p : Monitor α} {R : α → LockedMachine → Prop} (hp : Ends ok p s R) (h : ∀ a s', R a s' → Q a s') :
    Ends ok p s Q :=
  ⟨hp.1, hp.2.mono h⟩

theorem ite {c : Prop} [Decidable c] {p q : Monitor α} (hp : c → Ends ok p s Q) (hq : ¬ c → Ends ok q s Q) :
    Ends ok (if c then p else q) s Q := by
  split
  · next hc => exact hp hc
  · next hc => exact hq hc

/-- First take a lock. -/
theorem lock {f : Bool → Monitor α} {a : Word} (hok : ok (.testAndSet a) s)
    (htaken : s.held a = true → Ends ok (f true) s Q)
    (hfree : ∀ h : s.held a = false, Ends ok (f false) (s.acquire a h) Q) : Ends ok (testAndSet a >>= f) s Q := by
  cases h : s.held a with
  | true => exact (lock_iff_of_held h).mpr ⟨hok, htaken h⟩
  | false => exact (lock_iff_of_free h).mpr ⟨hok, hfree h⟩

/-- First clear a lock. -/
theorem clear {f : Unit → Monitor α} {a : Word} (hok : ok (.clear a) s) (hf : Ends ok (f ()) (s.release a) Q) :
    Ends ok (Sanctum.clear a >>= f) s Q := clear_iff.mpr ⟨hok, hf⟩

/-- A plain program leaves the locks as they are. -/
theorem plain {p : Monitor α} (hp : p.Only fun o : HwOp => o.plain = true ∧ ∀ m, ok o (s.on m)) :
    Ends ok p s fun _ s' => s' = s.on s'.machine := by
  have hstep : ∀ o (t : LockedMachine) x t', (o.plain = true ∧ ∀ m, ok o (s.on m)) → t = s.on t.machine →
      lockExec o t = some (x, t') → t' = s.on t'.machine := fun o t x t' ho ht h => by
    rw [(lockExec_plain ho.1 h).2, ht]
    rfl
  exact ⟨hp.asks (P := fun t => t = s.on t.machine) rfl (fun o t ho ht => ht ▸ ho.2 _) hstep, hp.post rfl hstep⟩

/-- A program that asks only what is always `ok`. -/
theorem only {p : Monitor α} (hp : p.Only fun o : HwOp => ∀ t, ok o t) : Ends ok p s fun _ _ => True :=
  ⟨hp.asks (P := fun _ => True) trivial (fun _ _ ho _ => ho _) fun _ _ _ _ _ _ _ => trivial, fun _ _ _ => trivial⟩

end Ends

/-- `ok`, said of the locks in hand. -/
abbrev Holding (ok : HwOp → Finset Word → Prop) : HwOp → LockedMachine → Prop := fun o s => ok o s.mine

/-- Begun with the locks `A` in hand, `p` asks only what is `ok`, and if it ends, it ends with a
value and locks in hand that satisfy `Q`. -/
def Locks (ok : HwOp → Finset Word → Prop) (A : Finset Word) (p : Monitor α) (Q : α → Finset Word → Prop) : Prop :=
  ∀ s : LockedMachine, s.mine = A → Ends (Holding ok) p s fun a s' => Q a s'.mine

namespace Locks

variable {ok : HwOp → Finset Word → Prop} {A : Finset Word} {Q : α → Finset Word → Prop}

theorem pure {a : α} (h : Q a A) : Locks ok A (Pure.pure a) Q := fun _ hs => .pure (hs ▸ h)

theorem bind {p : Monitor α} {f : α → Monitor β} {R : α → Finset Word → Prop} {Q : β → Finset Word → Prop}
    (hp : Locks ok A p R) (hf : ∀ a B, R a B → Locks ok B (f a) Q) : Locks ok A (p >>= f) Q :=
  fun s hs => (hp s hs).bind fun a s' _ hR => hf a _ hR s' rfl

theorem ite {c : Prop} [Decidable c] {p q : Monitor α} (hp : c → Locks ok A p Q) (hq : ¬ c → Locks ok A q Q) :
    Locks ok A (if c then p else q) Q := fun s hs => .ite (fun hc => hp hc s hs) fun hc => hq hc s hs

/-- A check of an argument. -/
theorem check {c : Prop} [Decidable c] {a : α} {p : Monitor α} (h : Q a A) (hp : ¬ c → Locks ok A p Q) :
    Locks ok A (if c then Pure.pure a else p) Q := .ite (fun _ => .pure h) hp

/-- A plain program ends with the locks it began with. -/
theorem plain {p : Monitor α} (hp : p.Only fun o : HwOp => o.plain = true ∧ ok o A) :
    Locks ok A p fun _ B => B = A := fun s hs => by
  subst hs
  exact (Ends.plain (hp.mono fun _ ho => ⟨ho.1, fun _ => ho.2⟩)).mono fun _ s' hs' => by rw [hs']; rfl

/-- A loop that never ends. -/
theorem spin (hok : ok .spin A) : Locks ok A (Sanctum.spin : Monitor α) Q := fun _ hs => by
  subst hs
  exact ⟨⟨hok, fun x => nomatch x⟩, fun _ _ hrun => nomatch hrun⟩

/-- First take a lock. -/
theorem lock {f : Bool → Monitor α} {a : Word} (hok : ok (.testAndSet a) A) (htaken : Locks ok A (f true) Q)
    (hfree : a ∉ A → Locks ok (insert a A) (f false) Q) : Locks ok A (testAndSet a >>= f) Q := fun s hs => by
  subst hs
  exact .lock hok (fun _ => htaken s rfl) fun h => hfree (held_eq_false_iff.mp h).2 _ rfl

/-- First clear a lock. -/
theorem clear {f : Unit → Monitor α} {a : Word} (hok : ok (.clear a) A) (hf : Locks ok (A.erase a) (f ()) Q) :
    Locks ok A (Sanctum.clear a >>= f) Q := fun s hs => by
  subst hs
  exact .clear hok (hf _ rfl)

/-- First clear the lock taken last. -/
theorem unlock {f : Unit → Monitor α} {a : Word} (ha : a ∉ A) (hok : ok (.clear a) (insert a A))
    (hf : Locks ok A (f ()) Q) : Locks ok (insert a A) (Sanctum.clear a >>= f) Q :=
  clear hok (by rwa [Finset.erase_insert ha])

/-- A loop keeps the locks that its body keeps. -/
theorem whileSome {γ : Type} {body : β → Monitor (β ⊕ γ)} {n : ℕ} {b : β}
    (hb : ∀ b, Locks ok A (body b) fun _ B => B = A) : Locks ok A (Prog.whileSome body n b) fun _ B => B = A := by
  induction n generalizing b with
  | zero => exact pure rfl
  | succ n ih =>
    refine (hb b).bind fun c B hB => ?_
    subst hB
    cases c with
    | inl b' => exact ih
    | inr c => exact pure rfl

end Locks

/-! ### Balance -/

/-- The call clears no lock that others hold. -/
def SparesOthers : HwOp → LockedMachine → Prop
  | .clear a, s => s.others a = false
  | _, _ => True

/-- Its own locks are held by nobody else. -/
theorem OwnClear.sparesOthers {o : HwOp} (h : OwnClear o s.mine) : SparesOthers o s := by
  cases o with
  | clear a => exact s.others_eq_false a h
  | _ => trivial

/-- Clearing no lock that others hold, a call leaves these as they are. -/
theorem others_of_sparesOthers {p : Monitor α} {a : α} (hp : p.Asks lockExec SparesOthers s)
    (hrun : p.run lockExec s = some (a, s')) : s'.others = s.others := by
  induction p generalizing s with
  | done b =>
    rw [Prog.run_done, Option.some.injEq, Prod.mk.injEq] at hrun
    rw [hrun.2]
  | ask o k ih =>
    rw [Prog.run] at hrun
    cases hx : lockExec o s with
    | none => rw [hx] at hrun; cases hrun
    | some x =>
      rw [hx] at hrun
      refine (ih x.1 (hp.2 x.1 x.2 hx) hrun).trans ?_
      cases ho : o.plain with
      | true => rw [(lockExec_plain ho hx).2]; rfl
      | false =>
        cases o with
        | testAndSet b =>
          rw [lockExec] at hx
          split at hx
          · rw [← Option.some.inj hx]; rfl
          · rw [← Option.some.inj hx]
        | clear b =>
          rw [← Option.some.inj hx]
          exact release_others hp.1
        | spin => cases hx
        | _ => cases ho

/-- The call clears no lock but its own, and those of structures that it initializes, if nobody else
holds them. -/
def ReleasesOwn (initializes : Word → Prop) : HwOp → LockedMachine → Prop
  | .clear a, s => a ∈ s.mine ∨ (initializes a ∧ s.others a = false)
  | _, _ => True

theorem releasesOwn_of_plain {initializes : Word → Prop} {o : HwOp} (ho : o.plain = true) :
    ReleasesOwn initializes o s := by
  cases o with
  | clear a => cases ho
  | _ => trivial

theorem ReleasesOwn.sparesOthers {initializes : Word → Prop} {o : HwOp} (h : ReleasesOwn initializes o s) :
    SparesOthers o s := by
  cases o with
  | clear a =>
    rcases h with h | h
    · exact s.others_eq_false a h
    · exact h.2
  | _ => trivial

/-- Begun on `s`, the call releases what is its own only, and it returns, with the same locks held
as when it was entered. -/
structure Even (initializes : Word → Prop) (p : Monitor α) (s : LockedMachine) : Prop where
  /-- It clears no lock but its own, and those of structures that it initializes. -/
  own : p.Asks lockExec (ReleasesOwn initializes) s
  /-- It returns with the same locks held as when it was entered. -/
  held : ∃ a s', p.run lockExec s = some (a, s') ∧ s'.held = s.held

/-- For a call that has nothing in hand when it is entered, this means that it has nothing in hand
when it returns. -/
theorem even_iff {initializes : Word → Prop} {p : Monitor α} (hs : s.mine = ∅) (hret : Prog.Returns lockExec p s) :
    Even initializes p s ↔ Ends (ReleasesOwn initializes) p s fun _ s' => s'.mine = ∅ := by
  obtain ⟨⟨a, s'⟩, hrun⟩ := hret
  constructor
  · rintro ⟨hown, b, t, hb, hheld⟩
    have hspares := hown.mono fun _ _ ho => ho.sparesOthers
    refine ⟨hown, fun c u hc => ?_⟩
    obtain ⟨-, rfl⟩ := Prod.mk.inj (Option.some.inj (hb.symm.trans hc))
    refine Finset.eq_empty_of_forall_notMem fun x hx => ?_
    have hx' := congrFun hheld x
    rw [LockedMachine.held, LockedMachine.held, others_of_sparesOthers hspares hb, hs] at hx'
    have hother := t.others_eq_false x hx
    rw [others_of_sparesOthers hspares hb] at hother
    simp [hother, hx] at hx'
  · rintro ⟨hown, hpost⟩
    have hspares := hown.mono fun _ _ ho => ho.sparesOthers
    refine ⟨hown, a, s', hrun, ?_⟩
    funext b
    rw [LockedMachine.held, LockedMachine.held, others_of_sparesOthers hspares hrun, hpost a s' hrun, hs]

/-- The machine as a call finds it: it has nothing in hand. -/
def entered (m : Machine) (others : Word → Bool) : LockedMachine := ⟨m, others, ∅, by simp⟩

theorem held_entered (m : Machine) (others : Word → Bool) : (entered m others).held = others := by
  funext a
  simp [LockedMachine.held, entered]

end Sanctum
