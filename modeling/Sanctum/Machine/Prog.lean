import Mathlib.Order.Nat
import Mathlib.Data.Option.Basic

/-!
# Programs over an interface

A program that computes with its own values and reaches the world only by asking
it to do things: an `Interface` says what may be asked and what kind of answer
each question gets, and a `Prog` is a tree of questions, the rest of the program
depending on each answer. What the questions *mean* is left to a `Handler`, so
one program text can be given several meanings and cut between any two of its
questions.

`run` executes a program with a handler on a state. A handler may refuse to
answer (`none`): the program then never returns.

## What is proved

* `run_bind` — running a sequence is running its parts one after the other.
* `iterUp_induction`, `run_findUp` — induction over a counting loop, and a search whose
  body is a read-only test as the search `firstUp`.
* `Post.bind`, `Post.forUp`, `Post.whileSome` — partial-correctness rules, for
  loops by an invariant.
* `Only.asks` — a program none of whose questions is bad, whatever the answers, asks no
  bad question in any run; the rules for `Only` follow the program text.
* `Leads.bind`, `Leads.whileSome` — total correctness, with what is asked on the way, for a loop by its
  rounds; `run_whileSome_of_never`, a loop that does not end.
-/

namespace Sanctum

/-- What a program may ask, and the kind of answer each question gets. -/
structure Interface where
  /-- The questions. -/
  Op : Type
  /-- The answers to a question. -/
  Answer : Op → Type

/-- A program: it is done, or it asks a question and goes on with the answer. -/
inductive Prog (I : Interface) (α : Type) : Type where
  /-- The program is done, with a value. -/
  | done (a : α)
  /-- Ask `o`, and go on as `k` says. -/
  | ask (o : I.Op) (k : I.Answer o → Prog I α)

/-- A meaning for an interface on states `σ`: an answer and a new state for each
question, or no answer at all. -/
abbrev Handler (I : Interface) (σ : Type) := (o : I.Op) → σ → Option (I.Answer o × σ)

namespace Prog

variable {I : Interface} {σ α β γ : Type}

/-- One program after another. -/
def bind : Prog I α → (α → Prog I β) → Prog I β
  | done a, f => f a
  | ask o k, f => ask o fun x => (k x).bind f

instance : Monad (Prog I) where
  pure := done
  bind := bind

theorem pure_bind (a : α) (f : α → Prog I β) : (pure a : Prog I α) >>= f = f a := rfl

theorem bind_assoc (p : Prog I α) (f : α → Prog I β) (k : β → Prog I γ) :
    p >>= f >>= k = p >>= fun a => f a >>= k := by
  change (p.bind f).bind k = p.bind fun a => (f a).bind k
  induction p with
  | done a => rfl
  | ask o c ih => exact congrArg (ask o) (funext fun x => ih x)

theorem ite_bind (c : Prop) [Decidable c] (p q : Prog I α) (f : α → Prog I β) :
    (if c then p else q) >>= f = if c then p >>= f else q >>= f := by
  split <;> rfl

/-- Just ask `o`. -/
def request (o : I.Op) : Prog I (I.Answer o) := ask o done

/-! ### Running -/

/-- Run a program. -/
def run (h : Handler I σ) : Prog I α → σ → Option (α × σ)
  | done a, s => some (a, s)
  | ask o k, s =>
    match h o s with
    | none => none
    | some (x, s') => (k x).run h s'

variable (h : Handler I σ)

@[simp] theorem run_pure (a : α) (s : σ) : (pure a : Prog I α).run h s = some (a, s) := rfl

@[simp] theorem run_done (a : α) (s : σ) : (done a : Prog I α).run h s = some (a, s) := rfl

theorem run_request (o : I.Op) (s : σ) : (request o).run h s = h o s := by
  unfold request
  rw [run]
  cases h o s with
  | none => rfl
  | some x => rfl

@[simp] theorem run_bind (p : Prog I α) (f : α → Prog I β) (s : σ) :
    (p >>= f).run h s = (p.run h s).bind fun x => (f x.1).run h x.2 := by
  change (p.bind f).run h s = _
  induction p generalizing s with
  | done a => rfl
  | ask o k ih =>
    rw [bind, run, run]
    cases h o s with
    | none => rfl
    | some x => exact ih x.1 x.2

@[simp] theorem run_ite (c : Prop) [Decidable c] (p q : Prog I α) (s : σ) :
    (if c then p else q).run h s = if c then p.run h s else q.run h s := by
  split <;> rfl

/-! ### Loops -/

/-- `for i = i, .., i + n – 1: body i`. -/
def forUp (body : ℕ → Prog I Unit) : ℕ → ℕ → Prog I Unit
  | 0, _ => pure ()
  | n + 1, i => body i >>= fun _ => forUp body n (i + 1)

/-- `for i = i, .., i + n – 1`, left at the first `i` whose body gives a value. -/
def findUp (body : ℕ → Prog I (Option β)) : ℕ → ℕ → Prog I (Option β)
  | 0, _ => pure none
  | n + 1, i => body i >>= fun
    | some b => pure (some b)
    | none => findUp body n (i + 1)

/-- A loop with a loop variable, left when the body gives a result instead of the
variable's next value; `none` if that has not happened after `n` rounds. -/
def whileSome (body : β → Prog I (β ⊕ γ)) : ℕ → β → Prog I (Option γ)
  | 0, _ => pure none
  | n + 1, b => body b >>= fun
    | .inl b' => whileSome body n b'
    | .inr c => pure (some c)

/-- The states `f i, f (i + 1), .., f (i + n – 1)` go through, one after the other. -/
def iterUp (f : ℕ → σ → σ) : ℕ → ℕ → σ → σ
  | 0, _, s => s
  | n + 1, i, s => iterUp f n (i + 1) (f i s)

/-- The first value among `f i, .., f (i + n – 1)`. -/
def firstUp (f : ℕ → Option β) : ℕ → ℕ → Option β
  | 0, _ => none
  | n + 1, i =>
    match f i with
    | some b => some b
    | none => firstUp f n (i + 1)

/-- A search whose body only reads. -/
theorem run_findUp {body : ℕ → Prog I (Option β)} {f : ℕ → Option β} {s : σ}
    (hb : ∀ i, (body i).run h s = some (f i, s)) (n i : ℕ) :
    (findUp body n i).run h s = some (firstUp f n i, s) := by
  induction n generalizing i with
  | zero => rfl
  | succ n ih =>
    rw [findUp, run_bind, hb, Option.bind_some, firstUp]
    cases f i with
    | none => exact ih (i + 1)
    | some b => rfl

variable {h} in
/-- A counting loop that does nothing. -/
theorem run_forUp_nothing {body : ℕ → Prog I Unit} {n i : ℕ} {s : σ} (hb : ∀ i, (body i).run h s = some ((), s)) :
    (forUp body n i).run h s = some ((), s) := by
  induction n generalizing i with
  | zero => rfl
  | succ n ih => rw [forUp, run_bind, hb, Option.bind_some, ih]

variable {h} in
/-- A search whose first round finds nothing. -/
theorem run_findUp_of_none {body : ℕ → Prog I (Option β)} {n i : ℕ} {s t : σ}
    (hb : (body i).run h s = some (none, t)) :
    (findUp body (n + 1) i).run h s = (findUp body n (i + 1)).run h t := by
  rw [findUp, run_bind, hb, Option.bind_some]

variable {h} in
/-- A search that ends in its first round. -/
theorem run_findUp_of_some {body : ℕ → Prog I (Option β)} {n i : ℕ} {s t : σ} {b : β}
    (hb : (body i).run h s = some (some b, t)) : (findUp body (n + 1) i).run h s = some (some b, t) := by
  rw [findUp, run_bind, hb, Option.bind_some, run_pure]

theorem firstUp_eq_none_iff {f : ℕ → Option β} {n i : ℕ} :
    firstUp f n i = none ↔ ∀ j, i ≤ j → j < i + n → f j = none := by
  induction n generalizing i with
  | zero => simp only [firstUp, true_iff]; omega
  | succ n ih =>
    rw [firstUp]
    cases hf : f i with
    | some b =>
      simp only [reduceCtorEq, false_iff, not_forall]
      exact ⟨i, le_rfl, by omega, by simp [hf]⟩
    | none =>
      simp only [ih]
      constructor
      · intro hj j h1 h2
        rcases Nat.eq_or_lt_of_le h1 with rfl | h1
        · exact hf
        · exact hj j h1 (by omega)
      · exact fun hj j h1 h2 => hj j (by omega) (by omega)

/-- What holds before the first step, and after each step of an iteration if it held
before it, holds in the end. -/
theorem iterUp_induction {P : ℕ → σ → Prop} {f : ℕ → σ → σ} {n i : ℕ} {s : σ} (h0 : P i s)
    (hf : ∀ j s, i ≤ j → j < i + n → P j s → P (j + 1) (f j s)) : P (i + n) (iterUp f n i s) := by
  induction n generalizing i s with
  | zero => exact h0
  | succ n ih =>
    have h := ih (hf i s le_rfl (by omega) h0) fun j s h1 h2 => hf j s (by omega) (by omega)
    rwa [show i + 1 + n = i + (n + 1) by omega] at h

/-! ### Partial correctness -/

/-- If `p` returns from `s`, it returns a value and a state satisfying `Q`. -/
def Post (p : Prog I α) (s : σ) (Q : α → σ → Prop) : Prop :=
  ∀ a s', p.run h s = some (a, s') → Q a s'

variable {h}

theorem Post.bind {p : Prog I α} {f : α → Prog I β} {s : σ} {Q : α → σ → Prop} {R : β → σ → Prop}
    (hp : Post h p s Q) (hf : ∀ a s', Q a s' → Post h (f a) s' R) : Post h (p >>= f) s R := by
  intro b s'' hrun
  rw [run_bind] at hrun
  obtain ⟨⟨a, s'⟩, ha, hb⟩ := Option.bind_eq_some_iff.mp hrun
  exact hf a s' (hp a s' ha) b s'' hb

theorem Post.mono {p : Prog I α} {s : σ} {Q R : α → σ → Prop} (hp : Post h p s Q)
    (hQ : ∀ a s', Q a s' → R a s') : Post h p s R :=
  fun a s' hrun => hQ a s' (hp a s' hrun)

theorem Post.pure {a : α} {s : σ} {Q : α → σ → Prop} (hQ : Q a s) :
    Post h (Pure.pure a : Prog I α) s Q := by
  intro b s' hrun
  rw [run_pure, Option.some.injEq, Prod.mk.injEq] at hrun
  obtain ⟨rfl, rfl⟩ := hrun
  exact hQ

theorem Post.ite {c : Prop} [Decidable c] {p q : Prog I α} {s : σ} {Q : α → σ → Prop} (hp : c → Post h p s Q)
    (hq : ¬ c → Post h q s Q) : Post h (if c then p else q) s Q := by
  split
  · next hc => exact hp hc
  · next hc => exact hq hc

/-- What comes of a sequence whatever comes of its first part. -/
theorem Post.after {p : Prog I α} {f : α → Prog I β} {s : σ} {R : β → σ → Prop} (hf : ∀ a s', Post h (f a) s' R) :
    Post h (p >>= f) s R :=
  Post.bind (Q := fun _ _ => True) (fun _ _ _ => trivial) fun a s' _ => hf a s'

/-- A counting loop keeps what its body keeps. -/
theorem Post.forUp {body : ℕ → Prog I Unit} {P : σ → Prop} {n i : ℕ} {s : σ} (h0 : P s)
    (hb : ∀ j s, i ≤ j → j < i + n → P s → Post h (body j) s fun _ s' => P s') :
    Post h (forUp body n i) s fun _ s' => P s' := by
  induction n generalizing i s with
  | zero => exact Post.pure h0
  | succ n ih =>
    refine Post.bind (hb i s le_rfl (by omega) h0) fun _ s' hs' => ?_
    exact ih hs' fun j s h1 h2 => hb j s (by omega) (by omega)

/-- What a search finds one of its rounds has found. -/
theorem exists_of_run_findUp {body : ℕ → Prog I (Option β)} {n i : ℕ} {s s' : σ} {b : β}
    (hrun : (findUp body n i).run h s = some (some b, s')) :
    ∃ j t, i ≤ j ∧ j < i + n ∧ (body j).run h t = some (some b, s') := by
  induction n generalizing i s with
  | zero => nomatch hrun
  | succ n ih =>
    rw [findUp, run_bind] at hrun
    obtain ⟨⟨x, t⟩, hx, hrun⟩ := Option.bind_eq_some_iff.mp hrun
    cases x with
    | some c =>
      rw [run_pure, Option.some.injEq, Prod.mk.injEq] at hrun
      obtain ⟨hc, rfl⟩ := hrun
      exact ⟨i, s, le_rfl, by omega, hc ▸ hx⟩
    | none =>
      obtain ⟨j, t', h1, h2, hj⟩ := ih hrun
      exact ⟨j, t', by omega, by omega, hj⟩

/-- A search keeps what its body keeps. -/
theorem Post.findUp {body : ℕ → Prog I (Option β)} {P : σ → Prop} {n i : ℕ} {s : σ} (h0 : P s)
    (hb : ∀ j s, i ≤ j → j < i + n → P s → Post h (body j) s fun _ s' => P s') :
    Post h (findUp body n i) s fun _ s' => P s' := by
  induction n generalizing i s with
  | zero => exact Post.pure h0
  | succ n ih =>
    refine Post.bind (hb i s le_rfl (by omega) h0) fun b s' hs' => ?_
    cases b with
    | some b => exact Post.pure hs'
    | none => exact ih hs' fun j s h1 h2 => hb j s (by omega) (by omega)

/-- A loop keeps what its body keeps. -/
theorem Post.whileSome {body : β → Prog I (β ⊕ γ)} {P : σ → Prop} {n : ℕ} {b : β} {s : σ} (h0 : P s)
    (hb : ∀ b s, P s → Post h (body b) s fun _ s' => P s') :
    Post h (whileSome body n b) s fun _ s' => P s' := by
  induction n generalizing b s with
  | zero => exact Post.pure h0
  | succ n ih =>
    refine Post.bind (hb b s h0) fun c s' hs' => ?_
    cases c with
    | inl b' => exact ih hs'
    | inr c => exact Post.pure hs'

/-- A loop with an invariant that speaks of the loop variable. -/
theorem Post.whileSome_inv {body : β → Prog I (β ⊕ γ)} {P : β → σ → Prop} {Q : γ → σ → Prop} {n : ℕ} {b : β} {s : σ}
    (h0 : P b s) (hb : ∀ b s, P b s → Post h (body b) s fun c s' => c.elim (P · s') (Q · s')) :
    Post h (Prog.whileSome body n b) s fun c s' => ∀ c', c = some c' → Q c' s' := by
  induction n generalizing b s with
  | zero => exact Post.pure nofun
  | succ n ih =>
    refine Post.bind (hb b s h0) fun c s' hs' => ?_
    cases c with
    | inl b' => exact ih hs'
    | inr c => exact Post.pure fun c' hc => Option.some.inj hc ▸ hs'

/-! ### Returning -/

/-- `p` returns. -/
def Returns (h : Handler I σ) (p : Prog I α) (s : σ) : Prop := ∃ x, p.run h s = some x

theorem Returns.pure (a : α) (s : σ) : Returns h (Pure.pure a : Prog I α) s := ⟨_, rfl⟩

theorem Returns.ite {c : Prop} [Decidable c] {p q : Prog I α} {s : σ} (hp : c → Returns h p s)
    (hq : ¬ c → Returns h q s) : Returns h (if c then p else q) s := by
  split
  · next hc => exact hp hc
  · next hc => exact hq hc

theorem Returns.bind {p : Prog I α} {f : α → Prog I β} {s : σ} {Q : α → σ → Prop} (hp : Returns h p s)
    (hpost : Post h p s Q) (hf : ∀ a s', Q a s' → Returns h (f a) s') : Returns h (p >>= f) s := by
  obtain ⟨⟨a, s'⟩, ha⟩ := hp
  obtain ⟨x, hx⟩ := hf a s' (hpost a s' ha)
  exact ⟨x, by rw [run_bind, ha, Option.bind_some, hx]⟩

/-- Whatever the answers are, `p` asks only questions that are `ok`. -/
def Only (ok : I.Op → Prop) : Prog I α → Prop
  | done _ => True
  | ask o k => ok o ∧ ∀ x, (k x).Only ok

section Only

variable {ok : I.Op → Prop}

theorem Only.pure (a : α) : (Pure.pure a : Prog I α).Only ok := trivial

theorem Only.request {o : I.Op} (ho : ok o) : (Prog.request o).Only ok := ⟨ho, fun _ => trivial⟩

theorem Only.bind {p : Prog I α} {f : α → Prog I β} (hp : p.Only ok) (hf : ∀ a, (f a).Only ok) :
    (p >>= f).Only ok := by
  change (p.bind f).Only ok
  induction p with
  | done a => exact hf a
  | ask o k ih => exact ⟨hp.1, fun x => ih x (hp.2 x)⟩

theorem Only.ite {c : Prop} [Decidable c] {p q : Prog I α} (hp : c → p.Only ok) (hq : ¬ c → q.Only ok) :
    (if c then p else q).Only ok := by
  split
  · next hc => exact hp hc
  · next hc => exact hq hc

theorem Only.forUp {body : ℕ → Prog I Unit} {n i : ℕ} (hb : ∀ j, i ≤ j → j < i + n → (body j).Only ok) :
    (Prog.forUp body n i).Only ok := by
  induction n generalizing i with
  | zero => exact trivial
  | succ n ih =>
    exact (hb i le_rfl (by omega)).bind fun _ => ih fun j h1 h2 => hb j (by omega) (by omega)

theorem Only.findUp {body : ℕ → Prog I (Option β)} {n i : ℕ} (hb : ∀ j, i ≤ j → j < i + n → (body j).Only ok) :
    (Prog.findUp body n i).Only ok := by
  induction n generalizing i with
  | zero => exact trivial
  | succ n ih =>
    refine (hb i le_rfl (by omega)).bind fun b => ?_
    cases b with
    | some b => exact trivial
    | none => exact ih fun j h1 h2 => hb j (by omega) (by omega)

theorem Only.whileSome {body : β → Prog I (β ⊕ γ)} {n : ℕ} {b : β} (hb : ∀ b, (body b).Only ok) :
    (Prog.whileSome body n b).Only ok := by
  induction n generalizing b with
  | zero => exact trivial
  | succ n ih =>
    refine (hb b).bind fun c => ?_
    cases c with
    | inl b' => exact ih
    | inr c => exact trivial

/-- A weaker condition. -/
theorem Only.mono {ok' : I.Op → Prop} {p : Prog I α} (hp : p.Only ok) (h : ∀ o, ok o → ok' o) : p.Only ok' := by
  induction p with
  | done a => exact trivial
  | ask o k ih => exact ⟨h o hp.1, fun x => ih x (hp.2 x)⟩

/-- What is kept by every question that is `ok` is kept by a program that asks no other. -/
theorem Only.post {p : Prog I α} {P : σ → Prop} {s : σ} (hp : p.Only ok) (h0 : P s)
    (hstep : ∀ o s x s', ok o → P s → h o s = some (x, s') → P s') : Post h p s fun _ s' => P s' := by
  induction p generalizing s with
  | done a => exact Post.pure h0
  | ask o k ih =>
    intro b s'' hrun
    rw [run] at hrun
    cases ho : h o s with
    | none => rw [ho] at hrun; cases hrun
    | some x =>
      rw [ho] at hrun
      exact ih x.1 (hp.2 x.1) (hstep o s x.1 x.2 hp.1 h0 ho) b s'' hrun

/-- A program all of whose questions are answered returns. -/
theorem Only.returns {p : Prog I α} {s : σ} (hp : p.Only ok) (hok : ∀ o s, ok o → ∃ x, h o s = some x) :
    Returns h p s := by
  induction p generalizing s with
  | done a => exact ⟨_, rfl⟩
  | ask o k ih =>
    obtain ⟨x, hx⟩ := hok o s hp.1
    obtain ⟨y, hy⟩ := ih x.1 (hp.2 x.1) (s := x.2)
    exact ⟨y, by rw [run, hx]; exact hy⟩

end Only

/-! ### What a run asks -/

section Trace

variable (h)

/-- The questions that the run from `s` asks, with the answers they get. -/
def trace : Prog I α → σ → List ((o : I.Op) × I.Answer o)
  | done _, _ => []
  | ask o k, s =>
    match h o s with
    | none => []
    | some (x, s') => ⟨o, x⟩ :: (k x).trace s'

variable {h}

theorem trace_pure (a : α) (s : σ) : (Pure.pure a : Prog I α).trace h s = [] := rfl

theorem trace_request {o : I.Op} {s s' : σ} {x : I.Answer o} (hx : h o s = some (x, s')) :
    (request o).trace h s = [⟨o, x⟩] := by
  rw [request, trace, hx]
  rfl

/-- A sequence asks what its parts ask, one after the other. -/
theorem trace_bind {p : Prog I α} {f : α → Prog I β} {s s' : σ} {a : α} (hrun : p.run h s = some (a, s')) :
    (p >>= f).trace h s = p.trace h s ++ (f a).trace h s' := by
  change (p.bind f).trace h s = _
  induction p generalizing s with
  | done b =>
    obtain ⟨rfl, rfl⟩ := Prod.mk.inj (Option.some.inj hrun)
    rfl
  | ask o k ih =>
    rw [run] at hrun
    rw [bind, trace, trace]
    cases hx : h o s with
    | none => rw [hx] at hrun; cases hrun
    | some x =>
      rw [hx] at hrun
      exact congrArg _ (ih x.1 hrun)

/-- What a program asks, it asks as the first part of a sequence too. -/
theorem trace_prefix (p : Prog I α) (f : α → Prog I β) (s : σ) : p.trace h s <+: (p >>= f).trace h s := by
  change _ <+: (p.bind f).trace h s
  induction p generalizing s with
  | done a => exact List.nil_prefix
  | ask o k ih =>
    rw [bind, trace, trace]
    cases h o s with
    | none => exact List.nil_prefix
    | some x => exact (List.cons_prefix_cons).mpr ⟨rfl, ih x.1 x.2⟩

end Trace

/-! ### Questions asked where they may be -/

variable (h)

/-- Every question `p` asks on its way from `s` is `ok` where it is asked. -/
def Asks (ok : I.Op → σ → Prop) : Prog I α → σ → Prop
  | done _, _ => True
  | ask o k, s => ok o s ∧ ∀ x s', h o s = some (x, s') → (k x).Asks ok s'

variable {h}

theorem Asks.bind {ok : I.Op → σ → Prop} {p : Prog I α} {f : α → Prog I β} {s : σ}
    (hp : p.Asks h ok s) (hf : ∀ a s', p.run h s = some (a, s') → (f a).Asks h ok s') :
    (p >>= f).Asks h ok s := by
  change (p.bind f).Asks h ok s
  induction p generalizing s with
  | done a => exact hf a s rfl
  | ask o k ih =>
    refine ⟨hp.1, fun x s' hx => ih x (hp.2 x s' hx) fun a s'' ha => hf a s'' ?_⟩
    rw [run, hx]
    exact ha

theorem Asks.mono {ok ok' : I.Op → σ → Prop} {p : Prog I α} {s : σ} (hp : p.Asks h ok s)
    (hok : ∀ o s, ok o s → ok' o s) : p.Asks h ok' s := by
  induction p generalizing s with
  | done a => exact trivial
  | ask o k ih => exact ⟨hok o s hp.1, fun x s' hx => ih x (hp.2 x s' hx)⟩

theorem asks_bind_iff {ok : I.Op → σ → Prop} {p : Prog I α} {f : α → Prog I β} {s : σ} :
    (p >>= f).Asks h ok s ↔ p.Asks h ok s ∧ ∀ a s', p.run h s = some (a, s') → (f a).Asks h ok s' := by
  refine ⟨fun hpf => ?_, fun hpf => hpf.1.bind hpf.2⟩
  change (p.bind f).Asks h ok s at hpf
  induction p generalizing s with
  | done a =>
    refine ⟨trivial, fun b s' hb => ?_⟩
    obtain ⟨rfl, rfl⟩ := Prod.mk.inj (Option.some.inj hb)
    exact hpf
  | ask o k ih =>
    refine ⟨⟨hpf.1, fun x s' hx => (ih x (hpf.2 x s' hx)).1⟩, fun b s'' hb => ?_⟩
    rw [run] at hb
    cases hx : h o s with
    | none => rw [hx] at hb; cases hb
    | some x =>
      rw [hx] at hb
      exact (ih x.1 (hpf.2 x.1 x.2 hx)).2 b s'' hb

theorem Asks.ite {ok : I.Op → σ → Prop} {c : Prop} [Decidable c] {p q : Prog I α} {s : σ} (hp : c → p.Asks h ok s)
    (hq : ¬ c → q.Asks h ok s) : (if c then p else q).Asks h ok s := by
  split
  · next hc => exact hp hc
  · next hc => exact hq hc

/-- A program that asks only `ok` questions asks only these in any run, as long as an invariant
makes them good. -/
theorem Only.asks {ok : I.Op → Prop} {ok' : I.Op → σ → Prop} {p : Prog I α} {P : σ → Prop} {s : σ} (hp : p.Only ok)
    (h0 : P s) (hok : ∀ o s, ok o → P s → ok' o s) (hstep : ∀ o s x s', ok o → P s → h o s = some (x, s') → P s') :
    p.Asks h ok' s := by
  induction p generalizing s with
  | done a => exact trivial
  | ask o k ih =>
    exact ⟨hok o s hp.1 h0, fun x s' hx => ih x (hp.2 x) (hstep o s x s' hp.1 h0 hx)⟩

/-- A loop asks what its body asks. -/
theorem Asks.forUp {ok : I.Op → σ → Prop} {body : ℕ → Prog I Unit} {P : σ → Prop} {n i : ℕ} {s : σ} (h0 : P s)
    (hb : ∀ j s, P s → (body j).Asks h ok s) (hpost : ∀ j s, P s → Post h (body j) s fun _ s' => P s') :
    (forUp body n i).Asks h ok s := by
  induction n generalizing i s with
  | zero => exact trivial
  | succ n ih => exact (hb i s h0).bind fun a s' hrun => ih (hpost i s h0 a s' hrun)

/-! ### What comes of a run -/

/-- `p` goes from `s` to `s'` with value `a`, and every question on its way is `ok`. -/
def Leads (h : Handler I σ) (ok : I.Op → σ → Prop) (p : Prog I α) (s : σ) (a : α) (s' : σ) : Prop :=
  p.run h s = some (a, s') ∧ p.Asks h ok s

section Leads

variable {ok : I.Op → σ → Prop}

theorem Leads.pure (a : α) (s : σ) : Leads h ok (Pure.pure a : Prog I α) s a s := ⟨rfl, trivial⟩

theorem Leads.request {o : I.Op} {s s' : σ} {x : I.Answer o} (ho : ok o s) (hx : h o s = some (x, s')) :
    Leads h ok (Prog.request o) s x s' :=
  ⟨(run_request h o s).trans hx, ho, fun _ _ _ => trivial⟩

theorem Leads.bind {p : Prog I α} {f : α → Prog I β} {s s' s'' : σ} {a : α} {b : β} (hp : Leads h ok p s a s')
    (hf : Leads h ok (f a) s' b s'') : Leads h ok (p >>= f) s b s'' := by
  refine ⟨by rw [run_bind, hp.1, Option.bind_some, hf.1], hp.2.bind fun a' t hrun => ?_⟩
  rw [hp.1, Option.some.injEq, Prod.mk.injEq] at hrun
  obtain ⟨rfl, rfl⟩ := hrun
  exact hf.2

/-- **A loop whose rounds are known**: `n` rounds go on, and the next one is the last. -/
theorem Leads.whileSome {body : β → Prog I (β ⊕ γ)} {b : ℕ → β} {t : ℕ → σ} {c : γ} {n k : ℕ}
    (hstep : ∀ i < n, Leads h ok (body (b i)) (t i) (.inl (b (i + 1))) (t (i + 1)))
    (hlast : Leads h ok (body (b n)) (t n) (.inr c) (t n)) (hk : n < k) :
    Leads h ok (Prog.whileSome body k (b 0)) (t 0) (some c) (t n) := by
  induction n generalizing b t k with
  | zero =>
    cases k with
    | zero => exact absurd hk (Nat.lt_irrefl 0)
    | succ k => exact hlast.bind (.pure _ _)
  | succ n ih =>
    cases k with
    | zero => exact absurd hk (Nat.not_lt_zero _)
    | succ k =>
      refine (hstep 0 (Nat.succ_pos n)).bind ?_
      exact ih (b := fun i => b (i + 1)) (t := fun i => t (i + 1)) (fun i hi => hstep (i + 1) (Nat.succ_lt_succ hi))
        hlast (Nat.lt_of_succ_lt_succ hk)

end Leads

/-- A loop whose every round goes on does not come to an end. -/
theorem run_whileSome_of_never {body : β → Prog I (β ⊕ γ)} {P : β → σ → Prop}
    (hbody : ∀ b s, P b s → ∃ b' s', (body b).run h s = some (.inl b', s') ∧ P b' s') (k : ℕ) {b : β} {s : σ}
    (hb : P b s) : ∃ s', (whileSome body k b).run h s = some (none, s') := by
  induction k generalizing b s with
  | zero => exact ⟨s, rfl⟩
  | succ k ih =>
    obtain ⟨b', s', hrun, hb'⟩ := hbody b s hb
    obtain ⟨s'', hrest⟩ := ih hb'
    exact ⟨s'', by rw [whileSome, run_bind, hrun, Option.bind_some]; exact hrest⟩

end Prog

end Sanctum
