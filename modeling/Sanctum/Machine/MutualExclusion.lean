import Mathlib.Data.List.Basic
import Mathlib.Tactic.Tauto

/-!
# Mutual exclusion

A history of a lock is a list of events, oldest first: attempts to take the lock, each
with what the caller was told, and releases. Who makes them does not matter. `Exclusive`
says that the answers are those of a lock.

`FlagAfter` is about a lock that is one: the answers are the value of a flag that an
attempt sets and a release clears (`FlagAfter.attempt`, `FlagAfter.release`).
`exclusive_iff_of_constant` is about one that is none: every attempt gets the same answer.
-/

namespace Sanctum

/-- An event in the history of a lock. -/
inductive LockEvent where
  /-- An attempt to take the lock. It fails if the lock is `held`. -/
  | attempt (held : Bool)
  /-- The lock is given back. -/
  | release
  deriving DecidableEq

namespace LockEvent

/-- The event is an attempt. -/
def isAttempt : LockEvent → Bool
  | attempt _ => true
  | release => false

/-- If the event is an attempt, it is told `held`. -/
def Says (held : Bool) (e : LockEvent) : Prop := ∀ b, e = attempt b → b = held

end LockEvent

open LockEvent

/-- The answers are those of a lock. -/
structure Exclusive (h : List LockEvent) : Prop where
  /-- Once the lock is taken, attempts before the next release fail. -/
  untilRelease : ∀ p q t b, h = p ++ attempt false :: q ++ attempt b :: t → release ∉ q → b = true
  /-- The first attempt after a release does not. -/
  afterRelease : ∀ p q t b, h = p ++ release :: q ++ attempt b :: t → (∀ e ∈ q, e.isAttempt = false) → b = false

/-- Between two attempts there is always a release. -/
def ReleasedBetween (h : List LockEvent) : Prop :=
  ∀ p q t b c, h = p ++ attempt b :: q ++ attempt c :: t → release ∈ q

/-- There is no attempt after a release. -/
def NoneAfterRelease (h : List LockEvent) : Prop :=
  ∀ p q t b, h ≠ p ++ release :: q ++ attempt b :: t

variable {h : List LockEvent}

/-! ### A lock that always answers the same -/

/-- If there is an attempt after a release, there is a first one. -/
theorem exists_first_attempt {p q t : List LockEvent} {b : Bool} (heq : h = p ++ release :: q ++ attempt b :: t) :
    ∃ p' q' t' c, h = p' ++ release :: q' ++ attempt c :: t' ∧ ∀ e ∈ q', e.isAttempt = false := by
  induction q generalizing p with
  | nil => exact ⟨p, [], t, b, heq, by simp⟩
  | cons e q ih =>
    cases e with
    | attempt c =>
      refine ⟨p, [], q ++ attempt b :: t, c, ?_, by simp⟩
      rw [heq]
      simp
    | release =>
      refine ih (p := p ++ [release]) ?_
      rw [heq]
      simp

/-- **A lock that always answers the same** is exclusive only as long as nobody can tell:
one that is never held as long as nobody tries to take it twice, one that is always held
as long as nobody tries after a release. -/
theorem exclusive_iff_of_constant {held : Bool} (hconst : ∀ e ∈ h, Says held e) :
    Exclusive h ↔ if held then NoneAfterRelease h else ReleasedBetween h := by
  have hanswer : ∀ p t b, h = p ++ attempt b :: t → b = held := fun p t b heq =>
    hconst (attempt b) (by rw [heq]; simp) b rfl
  cases held with
  | false =>
    rw [if_neg (by simp)]
    constructor
    · intro hex p q t b c heq
      by_contra hq
      obtain rfl := hanswer p (q ++ attempt c :: t) b (by rw [heq]; simp)
      exact absurd ((hex.untilRelease p q t c heq hq).symm.trans (hanswer _ t c heq)) (by decide)
    · intro hrel
      refine ⟨fun p q t b heq hq => absurd (hrel p q t _ b heq) hq, fun p q t b heq _ => hanswer _ t b heq⟩
  | true =>
    rw [if_pos rfl]
    constructor
    · intro hex p q t b heq
      obtain ⟨p', q', t', c, heq', hq'⟩ := exists_first_attempt heq
      exact absurd ((hex.afterRelease p' q' t' c heq' hq').symm.trans (hanswer _ t' c heq')) (by decide)
    · intro hnone
      exact ⟨fun p q t b heq _ => hanswer _ t b heq, fun p q t b heq => absurd heq (hnone p q t b)⟩

/-! ### A lock with a flag -/

/-- What a history says about a flag that attempts set and releases clear. -/
structure FlagAfter (h : List LockEvent) (flag : Bool) : Prop where
  /-- The answers so far are those of a lock. -/
  exclusive : Exclusive h
  /-- The flag is set if the lock has been taken. -/
  taken : ∀ p q, h = p ++ attempt false :: q → release ∉ q → flag = true
  /-- It is clear if the lock has been released. -/
  released : ∀ p q, h = p ++ release :: q → (∀ e ∈ q, e.isAttempt = false) → flag = false

/-- Nothing has happened. -/
theorem FlagAfter.nil (flag : Bool) : FlagAfter [] flag :=
  ⟨⟨by simp, by simp⟩, by simp, by simp⟩

/-- A list that ends in `e`, cut in two before an element, ends in `e`. -/
theorem eq_concat_cases {α : Type} {h p q : List α} {e x : α} (heq : h ++ [e] = p ++ x :: q) :
    (p = h ∧ x = e ∧ q = []) ∨ ∃ q', q = q' ++ [e] ∧ h = p ++ x :: q' := by
  rcases List.eq_nil_or_concat q with rfl | ⟨q', y, rfl⟩
  · obtain ⟨rfl, hx⟩ := List.append_inj' heq rfl
    exact .inl ⟨rfl, (List.cons.inj hx).1.symm, rfl⟩
  · rw [List.concat_eq_append, ← List.cons_append, ← List.append_assoc] at heq
    obtain ⟨rfl, hy⟩ := List.append_inj' heq rfl
    rw [(List.cons.inj hy).1, List.concat_eq_append]
    exact .inr ⟨q', rfl, rfl⟩

/-- An attempt is told the flag, and sets it. -/
theorem FlagAfter.attempt {flag : Bool} (hflag : FlagAfter h flag) :
    FlagAfter (h ++ [LockEvent.attempt flag]) true := by
  refine ⟨⟨fun p q t b heq hq => ?_, fun p q t b heq hq => ?_⟩, fun _ _ _ _ => rfl, fun p q heq hq => ?_⟩
  · rcases eq_concat_cases heq with ⟨hp, hb, -⟩ | ⟨t', -, heq'⟩
    · obtain rfl := LockEvent.attempt.inj hb
      exact hflag.taken p q hp.symm hq
    · exact hflag.exclusive.untilRelease p q t' b heq' hq
  · rcases eq_concat_cases heq with ⟨hp, hb, -⟩ | ⟨t', -, heq'⟩
    · obtain rfl := LockEvent.attempt.inj hb
      exact hflag.released p q hp.symm hq
    · exact hflag.exclusive.afterRelease p q t' b heq' hq
  · rcases eq_concat_cases heq with ⟨-, hb, -⟩ | ⟨q', rfl, -⟩
    · exact absurd hb (by simp)
    · exact absurd (hq (.attempt flag) (by simp)) (by simp [isAttempt])

/-- A release clears it. -/
theorem FlagAfter.release {flag : Bool} (hflag : FlagAfter h flag) :
    FlagAfter (h ++ [LockEvent.release]) false := by
  refine ⟨⟨fun p q t b heq hq => ?_, fun p q t b heq hq => ?_⟩, fun p q heq hq => ?_, fun _ _ _ _ => rfl⟩
  · rcases eq_concat_cases heq with ⟨-, hb, -⟩ | ⟨t', -, heq'⟩
    · exact absurd hb (by simp)
    · exact hflag.exclusive.untilRelease p q t' b heq' hq
  · rcases eq_concat_cases heq with ⟨-, hb, -⟩ | ⟨t', -, heq'⟩
    · exact absurd hb (by simp)
    · exact hflag.exclusive.afterRelease p q t' b heq' hq
  · rcases eq_concat_cases heq with ⟨-, hb, -⟩ | ⟨q', rfl, -⟩
    · exact absurd hb (by simp)
    · exact absurd (by simp) hq

end Sanctum
