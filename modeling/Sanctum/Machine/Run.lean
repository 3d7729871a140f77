import Mathlib.Order.Nat

/-!
# Runs of a labelled transition system

A run from `s` is a list of steps, oldest first, each starting where the one
before it ended. The steps are kept whole — the state before, the label, and the
state after — so that a property of a run can speak of what happened when.

`Run.invariant` is the induction rule for states (`Run.invariant_of` the one for runs
whose steps are known to satisfy something), `Run.history` the one for what the run
so far and the state together satisfy, and `Run.split` takes a run apart at one of
its steps.
-/

namespace Sanctum

/-- A step of a run. -/
structure Step (σ ℓ : Type) where
  /-- The state before. -/
  pre : σ
  /-- What happened. -/
  label : ℓ
  /-- The state after. -/
  post : σ

variable {σ ℓ : Type}

/-- `Run step s tr s'`: the steps `tr` lead from `s` to `s'`. -/
inductive Run (step : σ → ℓ → σ → Prop) (s : σ) : List (Step σ ℓ) → σ → Prop where
  /-- Nothing has happened yet. -/
  | nil : Run step s [] s
  /-- One more step. -/
  | snoc {tr : List (Step σ ℓ)} {s' s'' : σ} {l : ℓ} :
      Run step s tr s' → step s' l s'' → Run step s (tr ++ [⟨s', l, s''⟩]) s''

namespace Run

variable {step : σ → ℓ → σ → Prop} {s s' : σ} {tr : List (Step σ ℓ)}

/-- What holds at the start and is kept by every step holds of the run so far and
the state it has reached. -/
theorem history {P : List (Step σ ℓ) → σ → Prop} (h : Run step s tr s') (h0 : P [] s)
    (hstep : ∀ tr s' l s'', Run step s tr s' → P tr s' → step s' l s'' → P (tr ++ [⟨s', l, s''⟩]) s'') :
    P tr s' := by
  induction h with
  | nil => exact h0
  | snoc hr hs ih => exact hstep _ _ _ _ hr ih hs

/-- What holds at the start and is kept by every step holds of every state reached. -/
theorem invariant {P : σ → Prop} (h : Run step s tr s') (h0 : P s)
    (hstep : ∀ s l s', P s → step s l s' → P s') : P s' :=
  h.history (P := fun _ => P) h0 fun _ _ _ _ _ hP hs => hstep _ _ _ hP hs

/-- `Run.invariant` for runs all of whose steps satisfy `P`. -/
theorem invariant_of {P : Step σ ℓ → Prop} {I : σ → Prop} (h : Run step s tr s') (hP : ∀ st ∈ tr, P st) (h0 : I s)
    (hstep : ∀ st, I st.pre → step st.pre st.label st.post → P st → I st.post) : I s' := by
  refine h.history (P := fun tr s' => (∀ st ∈ tr, P st) → I s') (fun _ => h0) (fun tr s l s' _ ih hs hall => ?_) hP
  exact hstep ⟨s, l, s'⟩ (ih fun st hst => hall st (List.mem_append_left _ hst)) hs (hall _ (by simp))

/-- One run after another. -/
theorem append {tr' : List (Step σ ℓ)} {s'' : σ} (h : Run step s tr s') (h' : Run step s' tr' s'') :
    Run step s (tr ++ tr') s'' := by
  induction h' with
  | nil => rwa [List.append_nil]
  | snoc _ hs ih => rw [← List.append_assoc]; exact ih.snoc hs

/-- A run taken apart at one of its steps. -/
theorem split {p q : List (Step σ ℓ)} {st : Step σ ℓ} (h : Run step s (p ++ st :: q) s') :
    Run step s p st.pre ∧ step st.pre st.label st.post ∧ Run step st.post q s' := by
  generalize htr : p ++ st :: q = tr at h
  induction h generalizing q with
  | nil => simp at htr
  | @snoc tr u u' l hr hs ih =>
    rcases List.eq_nil_or_concat q with rfl | ⟨q', x, rfl⟩
    · obtain ⟨rfl, hst⟩ := List.append_inj' htr rfl
      simp only [List.cons.injEq, and_true] at hst
      subst hst
      exact ⟨hr, hs, .nil⟩
    · rw [List.concat_eq_append, ← List.cons_append, ← List.append_assoc] at htr
      obtain ⟨hpq, hx⟩ := List.append_inj' htr rfl
      simp only [List.cons.injEq, and_true] at hx
      subst hx
      obtain ⟨h₁, h₂, h₃⟩ := ih hpq
      rw [List.concat_eq_append]
      exact ⟨h₁, h₂, .snoc h₃ hs⟩

theorem mem (h : Run step s tr s') {st : Step σ ℓ} (hst : st ∈ tr) :
    step st.pre st.label st.post := by
  obtain ⟨p, q, rfl⟩ := List.append_of_mem hst
  exact h.split.2.1

end Run

end Sanctum
