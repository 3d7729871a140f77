import Mathlib.Data.List.Nodup
import Mathlib.Data.Fin.Basic

/-!
# Loops over an array in place

Two kinds of loops. In one, each round has a part of the array to itself and computes it from this part: then the
order of the rounds does not matter (`foldl_apart`). In the other, each round puts a value in one place, and takes
what was there to the next round (`moveAlong`): the values move one place on along a cycle.
-/

namespace Sanctum

variable {V κ α ι : Type}

/-- A loop leaves alone what none of its rounds has. -/
theorem foldl_untouched {g : V → κ → α} {step : V → ι → V} {o : ι → κ → Prop}
    (hkeep : ∀ v i k, ¬ o i k → g (step v i) k = g v k) {is : List ι} {k : κ} (hk : ∀ i ∈ is, ¬ o i k) (v : V) :
    g (is.foldl step v) k = g v k := by
  induction is generalizing v with
  | nil => rfl
  | cons i is ih =>
    rw [List.foldl_cons, ih fun j hj => hk j (List.mem_cons_of_mem i hj)]
    exact hkeep v i k (hk i List.mem_cons_self)

/-- **A loop whose rounds have different parts.** Each part becomes what its round makes of it. -/
theorem foldl_apart {g : V → κ → α} {step : V → ι → V} {o : ι → κ → Prop}
    (hkeep : ∀ v i k, ¬ o i k → g (step v i) k = g v k)
    (hlocal : ∀ i v v', (∀ k, o i k → g v k = g v' k) → ∀ k, o i k → g (step v i) k = g (step v' i) k)
    {is : List ι} (hnodup : is.Nodup) (hown : ∀ i ∈ is, ∀ j ∈ is, ∀ k, o i k → o j k → i = j) {i : ι} {k : κ}
    (hi : i ∈ is) (hk : o i k) (v : V) : g (is.foldl step v) k = g (step v i) k := by
  induction is generalizing v with
  | nil => nomatch hi
  | cons j is ih =>
    obtain ⟨hj, hnodup⟩ := List.nodup_cons.mp hnodup
    have hrest : ∀ i ∈ is, ∀ j ∈ is, ∀ k, o i k → o j k → i = j := fun i hi j hj =>
      hown i (List.mem_cons_of_mem _ hi) j (List.mem_cons_of_mem _ hj)
    rw [List.foldl_cons]
    rcases List.mem_cons.mp hi with rfl | hi'
    · refine foldl_untouched hkeep (fun l hl hlk => hj ?_) _
      rwa [hown i List.mem_cons_self l (List.mem_cons_of_mem _ hl) k hk hlk]
    · rw [ih hnodup hrest hi']
      refine hlocal i _ _ (fun k' hk' => hkeep v j k' fun hjk => hj ?_) k hk
      rwa [hown j List.mem_cons_self i (List.mem_cons_of_mem _ hi') k' hjk hk']

/-! ### Moving along -/

variable {n : ℕ}

/-- `for i: j = p(i + 1); t' = v[j]; v[j] = f(i, t); t = t'`, the first `m` rounds. -/
def moveAlong (p : ℕ → Fin n) (f : ℕ → α → α) (v : Vector α n) (t : α) (m : ℕ) : Vector α n × α :=
  (List.range m).foldl (fun s i => (s.1.set (p (i + 1)) (f i s.2), s.1[p (i + 1)])) (v, t)

theorem moveAlong_succ (p : ℕ → Fin n) (f : ℕ → α → α) (v : Vector α n) (t : α) (m : ℕ) :
    moveAlong p f v t (m + 1) = ((moveAlong p f v t m).1.set (p (m + 1)) (f m (moveAlong p f v t m).2),
      (moveAlong p f v t m).1[p (m + 1)]) := by
  rw [moveAlong, List.range_succ, List.foldl_append]
  rfl

/-- Places that the values do not come by. -/
theorem moveAlong_untouched {p : ℕ → Fin n} {f : ℕ → α → α} {v : Vector α n} {t : α} {m : ℕ} {k : Fin n}
    (hk : ∀ i < m, p (i + 1) ≠ k) : (moveAlong p f v t m).1[k] = v[k] := by
  induction m with
  | zero => rfl
  | succ m ih =>
    rw [moveAlong_succ]
    dsimp only
    have hne : (p (m + 1)).val ≠ k.val := fun h => hk m (Nat.lt_succ_self m) (Fin.ext h)
    rw [Fin.getElem_fin, Vector.getElem_set_ne _ _ hne, ← Fin.getElem_fin]
    exact ih fun i hi => hk i (Nat.lt_succ_of_lt hi)

/-- **Values move one place on**, if they come by no place twice. -/
theorem moveAlong_spec {p : ℕ → Fin n} {f : ℕ → α → α} {v : Vector α n} {m : ℕ}
    (hp : ∀ i < m, ∀ j < m, p (i + 1) = p (j + 1) → i = j) {i : ℕ} (hi : i < m) :
    (moveAlong p f v v[p 0] m).1[p (i + 1)] = f i v[p i] := by
  -- what is carried is what was in the last place
  have hcarried : ∀ j < m, (moveAlong p f v v[p 0] j).2 = v[p j] := by
    intro j hj
    cases j with
    | zero => rfl
    | succ j =>
      rw [moveAlong_succ]
      exact moveAlong_untouched fun l hl h => absurd (hp l (by omega) j (by omega) h) (by omega)
  induction m with
  | zero => omega
  | succ m ih =>
    rw [moveAlong_succ]
    dsimp only
    rcases Nat.lt_succ_iff_lt_or_eq.mp hi with hlt | rfl
    · have hne : (p (m + 1)).val ≠ (p (i + 1)).val := fun h =>
        absurd (hp m (Nat.lt_succ_self m) i hi (Fin.ext h)) (by omega)
      rw [Fin.getElem_fin, Vector.getElem_set_ne _ _ hne, ← Fin.getElem_fin]
      exact ih (fun i hi j hj => hp i (by omega) j (by omega)) hlt fun j hj => hcarried j (by omega)
    · rw [Fin.getElem_fin, Vector.getElem_set_self, hcarried i hi]

end Sanctum
