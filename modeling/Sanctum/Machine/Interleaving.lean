import Mathlib.Logic.Function.Basic
import Sanctum.Machine.Prog
import Sanctum.Machine.Run

/-!
# Programs side by side

A `Pool` is a state that threads share, and for each thread the program it has still to
run. In one `PoolStep` a thread that has nothing to do begins a program, or a thread has its
next question answered. A program is thus cut between any two of its questions, and anything
the others do may come in between.

A `Protocol` says what the threads agree on: an invariant of the state, and for each thread
what it may rely on, whatever the others do. In return each step of a thread must keep what
the others rely on (`Guarantee`). `Safe` says that a program does its part of this from a
given state on, `Triple` that it does so from every state with a given property, and what it
has achieved in the end. The rules for triples follow the program text.

## What is proved

* `Triple.request`, `Triple.only`, `Triple.bind`, .. — the rules.
* `Protocol.run_guarantee` — if all programs that threads may begin do their part, the
  invariant holds whatever the threads have done, and every step keeps what the threads rely
  on that have not taken it.
-/

namespace Sanctum

/-- Threads and the state they share. -/
structure Pool (I : Interface) (ι α σ : Type) where
  /-- What each thread has still to do. -/
  thread : ι → Prog I α
  /-- The state. -/
  state : σ

variable {I : Interface} {ι α β γ σ : Type}

section Steps

variable [DecidableEq ι]

/-- Thread `i` goes on: it begins one of the programs in `starts`, or its next question is
answered. -/
inductive PoolStep (h : ι → Handler I σ) (starts : Prog I α → Prop) (P : Pool I ι α σ) (i : ι) :
    Pool I ι α σ → Prop where
  /-- The thread has done its program, and begins another one. -/
  | start {a : α} {p : Prog I α} (hdone : P.thread i = .done a) (hp : starts p) :
    PoolStep h starts P i ⟨Function.update P.thread i p, P.state⟩
  /-- The thread has a question answered. -/
  | ask {o : I.Op} {k : I.Answer o → Prog I α} {x : I.Answer o} {s' : σ} (hask : P.thread i = .ask o k)
    (hx : h i o P.state = some (x, s')) : PoolStep h starts P i ⟨Function.update P.thread i (k x), s'⟩

/-- The pool after a turn of a thread, which is to begin a program or to go on, if it can. -/
def Pool.turn (h : ι → Handler I σ) (P : Pool I ι α σ) : ι × Option (Prog I α) → Option (Pool I ι α σ)
  | (i, some p) =>
    match P.thread i with
    | .done _ => some ⟨Function.update P.thread i p, P.state⟩
    | .ask _ _ => none
  | (i, none) =>
    match P.thread i with
    | .done _ => none
    | .ask o k => (h i o P.state).map fun x => ⟨Function.update P.thread i (k x.1), x.2⟩

/-- The pool after turns, one after the other. -/
def Pool.turns (h : ι → Handler I σ) : Pool I ι α σ → List (ι × Option (Prog I α)) → Option (Pool I ι α σ)
  | P, [] => some P
  | P, t :: ts => (P.turn h t).bind fun P' => Pool.turns h P' ts

theorem Pool.step_turn {h : ι → Handler I σ} {starts : Prog I α → Prop} {P P' : Pool I ι α σ}
    {t : ι × Option (Prog I α)} (ht : P.turn h t = some P') (hstarts : ∀ p, t.2 = some p → starts p) :
    PoolStep h starts P t.1 P' := by
  obtain ⟨i, p⟩ := t
  cases hthread : P.thread i with
  | done a =>
    cases p with
    | none => simp [Pool.turn, hthread] at ht
    | some p =>
      simp only [Pool.turn, hthread, Option.some.injEq] at ht
      exact ht ▸ .start hthread (hstarts p rfl)
  | ask o k =>
    cases p with
    | some p => simp [Pool.turn, hthread] at ht
    | none =>
      simp only [Pool.turn, hthread] at ht
      obtain ⟨⟨x, s'⟩, hx, rfl⟩ := Option.map_eq_some_iff.mp ht
      exact .ask hthread hx

theorem Pool.run_turns {h : ι → Handler I σ} {starts : Prog I α → Prop} {P P' : Pool I ι α σ}
    {ts : List (ι × Option (Prog I α))} (hts : P.turns h ts = some P')
    (hstarts : ∀ t ∈ ts, ∀ p, t.2 = some p → starts p) : ∃ tr, Run (PoolStep h starts) P tr P' := by
  induction ts generalizing P with
  | nil => exact ⟨[], Option.some.inj hts ▸ .nil⟩
  | cons t ts ih =>
    obtain ⟨P₁, hP₁, hrest⟩ := Option.bind_eq_some_iff.mp hts
    obtain ⟨tr, htr⟩ := ih hrest fun t' ht' => hstarts t' (List.mem_cons_of_mem _ ht')
    exact ⟨_, Run.append (.snoc .nil (Pool.step_turn hP₁ (hstarts t List.mem_cons_self))) htr⟩

end Steps

/-- What threads agree on. -/
structure Protocol (I : Interface) (ι σ : Type) where
  /-- The meaning of the questions when thread `i` asks them. -/
  exec : ι → Handler I σ
  /-- What always holds. -/
  Inv : σ → Prop
  /-- What thread `i` relies on, from one of its steps to the next. -/
  rely : ι → σ → σ → Prop
  /-- Doing nothing is allowed. -/
  refl : ∀ i s, rely i s s
  /-- One thing after another is allowed. -/
  trans : ∀ {i s t u}, rely i s t → rely i t u → rely i s u

namespace Protocol

variable (π : Protocol I ι σ)

/-- What thread `i` does is something the others rely on. -/
def Guarantee (i : ι) (s s' : σ) : Prop := ∀ j, j ≠ i → π.rely j s s'

/-- Thread `i` relies on `P` to stay. -/
def Stable (i : ι) (P : σ → Prop) : Prop := ∀ s t, π.rely i s t → P s → P t

/-- Run by thread `i` from `s` on, with the others coming in between, the program keeps the
invariant and what the others rely on, and ends with a value and a state that satisfy `Q`. -/
def Safe (i : ι) (Q : α → σ → Prop) : Prog I α → σ → Prop
  | .done a, s => Q a s
  | .ask o k, s => ∀ t, π.rely i s t → π.Inv t → ∀ x t', π.exec i o t = some (x, t') →
      π.Guarantee i t t' ∧ π.Inv t' ∧ Safe i Q (k x) t'

/-- The program is safe from every state that satisfies `P`. -/
def Triple (i : ι) (P : σ → Prop) (p : Prog I α) (Q : α → σ → Prop) : Prop := ∀ s, P s → π.Safe i Q p s

variable {π} {i : ι} {P P' : σ → Prop}

/-! ### Rules -/

theorem Safe.mono {Q Q' : α → σ → Prop} {p : Prog I α} {s : σ} (h : π.Safe i Q p s) (hQ : ∀ a s, Q a s → Q' a s) :
    π.Safe i Q' p s := by
  induction p generalizing s with
  | done a => exact hQ a s h
  | ask o k ih =>
    intro t hst hinv x t' hx
    obtain ⟨hguar, hinv', hk⟩ := h t hst hinv x t' hx
    exact ⟨hguar, hinv', ih x hk⟩

theorem Safe.bind {Q : α → σ → Prop} {R : β → σ → Prop} {p : Prog I α} {f : α → Prog I β} {s : σ}
    (hp : π.Safe i Q p s) (hf : ∀ a, π.Triple i (Q a) (f a) R) : π.Safe i R (p >>= f) s := by
  change π.Safe i R (p.bind f) s
  induction p generalizing s with
  | done a => exact hf a s hp
  | ask o k ih =>
    intro t hst hinv x t' hx
    obtain ⟨hguar, hinv', hk⟩ := hp t hst hinv x t' hx
    exact ⟨hguar, hinv', ih x hk⟩

/-- What the others do before a program begins does not matter. -/
theorem Safe.rely {p : Prog I α} {s t : σ} (h : π.Safe i (fun _ _ => True) p s) (hst : π.rely i s t) :
    π.Safe i (fun _ _ => True) p t := by
  cases p with
  | done a => exact trivial
  | ask o k => exact fun u htu hinv x u' hx => h u (π.trans hst htu) hinv x u' hx

namespace Triple

variable {Q : α → σ → Prop} {R : β → σ → Prop}

theorem pure {a : α} (h : ∀ s, P s → Q a s) : π.Triple i P (Pure.pure a : Prog I α) Q := h

theorem bind {p : Prog I α} {f : α → Prog I β} (hp : π.Triple i P p Q) (hf : ∀ a, π.Triple i (Q a) (f a) R) :
    π.Triple i P (p >>= f) R :=
  fun s hs => (hp s hs).bind hf

theorem ite {c : Prop} [Decidable c] {p q : Prog I α} (hp : c → π.Triple i P p Q) (hq : ¬ c → π.Triple i P q Q) :
    π.Triple i P (if c then p else q) Q := by
  split
  · next hc => exact hp hc
  · next hc => exact hq hc

theorem pre {p : Prog I α} (hp : π.Triple i P' p Q) (h : ∀ s, P s → P' s) : π.Triple i P p Q :=
  fun s hs => hp s (h s hs)

theorem post {Q' : α → σ → Prop} {p : Prog I α} (hp : π.Triple i P p Q') (h : ∀ a s, Q' a s → Q a s) :
    π.Triple i P p Q :=
  fun s hs => (hp s hs).mono h

/-- What does not depend on the state may be assumed. -/
theorem of_fact {c : Prop} {p : Prog I α} (hp : c → π.Triple i P p Q) : π.Triple i (fun s => c ∧ P s) p Q :=
  fun s hs => hp hs.1 s hs.2

/-- A question, asked in any state in which the thread's condition holds. -/
theorem request {o : I.Op} {Q : I.Answer o → σ → Prop} (hP : π.Stable i P)
    (h : ∀ s x s', π.Inv s → P s → π.exec i o s = some (x, s') → π.Guarantee i s s' ∧ π.Inv s' ∧ Q x s') :
    π.Triple i P (Prog.request o) Q :=
  fun s hs t hst hinv x t' hx => h t x t' hinv (hP s t hst hs) hx

/-- A program that does nothing that anyone could mind. -/
theorem only {ok : I.Op → Prop} {p : Prog I α} (hp : p.Only ok) (hP : π.Stable i P)
    (h : ∀ o s x s', ok o → π.Inv s → π.exec i o s = some (x, s') → (∀ j, π.rely j s s') ∧ π.Inv s') :
    π.Triple i P p fun _ => P := by
  intro s hs
  induction p generalizing s with
  | done a => exact hs
  | ask o k ih =>
    intro t hst hinv x t' hx
    obtain ⟨hrely, hinv'⟩ := h o t x t' hp.1 hinv hx
    exact ⟨fun j _ => hrely j, hinv', ih x (hp.2 x) t' (hP t t' (hrely i) (hP s t hst hs))⟩

/-- A loop with an invariant that speaks of the loop variable. -/
theorem whileSome {P : β → σ → Prop} {Q : γ → σ → Prop} {body : β → Prog I (β ⊕ γ)}
    (hbody : ∀ b, π.Triple i (P b) (body b) fun c s => c.elim (P · s) (Q · s)) (n : ℕ) (b : β) :
    π.Triple i (P b) (Prog.whileSome body n b) fun c s => ∀ c', c = some c' → Q c' s := by
  induction n generalizing b with
  | zero => exact pure fun _ _ => nofun
  | succ n ih =>
    refine (hbody b).bind fun c => ?_
    cases c with
    | inl b' => exact ih b'
    | inr c => exact pure fun s hs c' hc => Option.some.inj hc ▸ hs

end Triple

/-! ### Pools -/

/-- What holds between the steps of a pool. -/
structure PoolInv (π : Protocol I ι σ) (P : Pool I ι α σ) : Prop where
  /-- The invariant of the state. -/
  inv : π.Inv P.state
  /-- Every thread does its part. -/
  safe : ∀ i, π.Safe i (fun _ _ => True) (P.thread i) P.state

variable [DecidableEq ι] {starts : Prog I α → Prop}

/-- **One step** keeps what holds, and what the other threads rely on. -/
theorem PoolInv.step {P P' : Pool I ι α σ} (h : PoolInv π P) (hstep : PoolStep π.exec starts P i P')
    (hstarts : ∀ j p, starts p → π.Triple j (fun _ => True) p fun _ _ => True) :
    PoolInv π P' ∧ π.Guarantee i P.state P'.state := by
  -- the thread that has gone on has done its part, the others have been kept what they rely on
  have key : ∀ (q : Prog I α) (s' : σ), π.Guarantee i P.state s' → π.Safe i (fun _ _ => True) q s' →
      ∀ j, π.Safe j (fun _ _ => True) (Function.update P.thread i q j) s' := by
    intro q s' hguar hq j
    by_cases hj : j = i
    · subst hj
      rwa [Function.update_self]
    · rw [Function.update_of_ne hj]
      exact (h.safe j).rely (hguar j hj)
  cases hstep with
  | start _ hp =>
    have hguar : π.Guarantee i P.state P.state := fun j _ => π.refl j _
    exact ⟨⟨h.inv, key _ _ hguar (hstarts i _ hp _ trivial)⟩, hguar⟩
  | ask hask hx =>
    have hsafe := h.safe i
    rw [hask] at hsafe
    obtain ⟨hguar, hinv, hk⟩ := hsafe P.state (π.refl i _) h.inv _ _ hx
    exact ⟨⟨hinv, key _ _ hguar hk⟩, hguar⟩

/-- **A whole run.** -/
theorem run_guarantee {P P' : Pool I ι α σ} {tr : List (Step (Pool I ι α σ) ι)}
    (hrun : Run (PoolStep π.exec starts) P tr P')
    (hstarts : ∀ j p, starts p → π.Triple j (fun _ => True) p fun _ _ => True) (h : PoolInv π P) :
    PoolInv π P' ∧ ∀ st ∈ tr, π.Guarantee st.label st.pre.state st.post.state := by
  refine hrun.history (P := fun tr P => PoolInv π P ∧ ∀ st ∈ tr, π.Guarantee st.label st.pre.state st.post.state)
    ⟨h, by simp⟩ fun tr P i P' _ ih hstep => ?_
  obtain ⟨hP', hguar⟩ := ih.1.step hstep hstarts
  refine ⟨hP', fun st hst => ?_⟩
  rcases List.mem_append.mp hst with hst | hst
  · exact ih.2 st hst
  · rw [List.mem_singleton.mp hst]
    exact hguar

end Protocol

end Sanctum
