import Mathlib.Algebra.BigOperators.Intervals
import Mathlib.Algebra.BigOperators.Ring.Finset
import Mathlib.Algebra.Order.Ring.Int
import Mathlib.Data.Int.ModEq
import Mathlib.Tactic.Positivity
import Mathlib.Tactic.Ring

/-!
# Numbers in limbs

A large number is kept in limbs: integers that may be negative, and larger than the distance to the next limb. Code
that computes with such numbers is a list of lines: a line carries from one limb into another, or folds a limb into
others because its weight is congruent to theirs.

The limbs are signed machine words, and nothing may leave their range on the way. That is decided by intervals:
`bound` follows what a line does to a list of intervals, one for each limb, and refuses a line that might overflow.

## What is proved

* `value_exec`, `value_run` — lines that keep the number modulo `N`, and a list of them.
* `exec_of_bound`, `run_of_bound` — what the intervals allow does not overflow, and stays in the intervals.
-/

namespace Sanctum

namespace Limbs

/-- A limb for every index. -/
abbrev Digits := ℕ → ℤ

/-- The number is one of a signed word of 64 bits. -/
def Fits (v : ℤ) : Prop := -2 ^ 63 ≤ v ∧ v < 2 ^ 63

instance (v : ℤ) : Decidable (Fits v) := inferInstanceAs (Decidable (_ ∧ _))

/-- A number that must fit. -/
def checked (v : ℤ) : Option ℤ := if Fits v then some v else none

theorem checked_of_fits {v : ℤ} (h : Fits v) : checked v = some v := if_pos h

theorem eq_of_checked {v x : ℤ} (h : checked v = some x) : x = v := by
  rw [checked] at h
  split at h
  · exact (Option.some.inj h).symm
  · nomatch h

/-! ### Lines -/

/-- A few lines of code. -/
inductive Op where
  /-- `carry = (sᵢ + half) >> bits; sⱼ += carry * factor; sᵢ -= carry << bits`. -/
  | carry (i j bits : ℕ) (half factor : ℤ)
  /-- `sⱼ += sᵢ * k`, or `sⱼ -= sᵢ * (-k)` for a negative `k`, for each of the terms; `sᵢ = 0`. -/
  | fold (i : ℕ) (terms : List (ℕ × ℤ))
  deriving DecidableEq

/-- `sⱼ += sᵢ * k`, or `sⱼ -= sᵢ * (-k)`. -/
def addMul (i : ℕ) (s : Digits) (t : ℕ × ℤ) : Option Digits := do
  let p ← checked (s i * |t.2|)
  let v ← checked (if 0 ≤ t.2 then s t.1 + p else s t.1 - p)
  return Function.update s t.1 v

/-- What a line does. There is no result if a number does not fit. -/
def Op.exec : Op → Digits → Option Digits
  | carry i j bits half factor, s => do
    let t ← checked (s i + half)
    let c := t >>> bits
    let p ← checked (c * factor)
    let v ← checked (s j + p)
    let q ← checked (c * 2 ^ bits)
    let u ← checked (s i - q)
    return Function.update (Function.update s j v) i u
  | fold i terms, s => do
    let s' ← terms.foldlM (addMul i) s
    return Function.update s' i 0

/-- Lines, one after the other. -/
def run (ops : List Op) (s : Digits) : Option Digits := ops.foldlM (fun s op => op.exec s) s

theorem run_append (ops ops' : List Op) (s : Digits) : run (ops ++ ops') s = (run ops s).bind (run ops') :=
  List.foldlM_append

/-! ### The number -/

variable (w : ℕ → ℤ) (n : ℕ)

/-- The number in the first `n` limbs, limb `i` of weight `w i`. -/
def value (s : Digits) : ℤ := ∑ i ∈ Finset.range n, s i * w i

variable {w n} {s s' : Digits}

/-- A limb is changed. -/
theorem value_update {i : ℕ} (hi : i < n) (v : ℤ) :
    value w n (Function.update s i v) = value w n s + (v - s i) * w i := by
  have hmem : i ∈ Finset.range n := Finset.mem_range.mpr hi
  have hother : ∀ k ∈ (Finset.range n).erase i, Function.update s i v k * w k = s k * w k := by
    intro k hk
    rw [Function.update_of_ne (Finset.ne_of_mem_erase hk)]
  rw [value, value, ← Finset.add_sum_erase _ _ hmem, ← Finset.add_sum_erase _ (fun k => s k * w k) hmem,
    Finset.sum_congr rfl hother, Function.update_self]
  ring

/-- Limbs that are zero do not count. -/
theorem value_of_zero {m : ℕ} (hm : m ≤ n) (hs : ∀ i < n, m ≤ i → s i = 0) : value w n s = value w m s := by
  refine (Finset.sum_subset (Finset.range_subset_range.mpr hm) fun i hi hlow => ?_).symm
  rw [hs i (Finset.mem_range.mp hi) (Nat.le_of_not_lt fun h => hlow (Finset.mem_range.mpr h)), zero_mul]

/-- What a line takes the number modulo. -/
def Op.Keeps (w : ℕ → ℤ) (n : ℕ) (N : ℤ) : Op → Prop
  | carry i j bits _ factor => i < n ∧ j < n ∧ i ≠ j ∧ N ∣ factor * w j - 2 ^ bits * w i
  | fold i terms => i < n ∧ (∀ t ∈ terms, t.1 < n ∧ t.1 ≠ i) ∧ N ∣ (terms.map fun t => t.2 * w t.1).sum - w i

instance (N : ℤ) (op : Op) : Decidable (op.Keeps w n N) := by
  cases op <;> unfold Op.Keeps <;> infer_instance

theorem addMul_eq {i : ℕ} {t : ℕ × ℤ} (h : addMul i s t = some s') :
    s' = Function.update s t.1 (s t.1 + s i * t.2) := by
  obtain ⟨p, hp, h⟩ := Option.bind_eq_some_iff.mp h
  obtain ⟨v, hv, h⟩ := Option.bind_eq_some_iff.mp h
  obtain rfl := eq_of_checked hp
  obtain rfl := eq_of_checked hv
  rw [← Option.some.inj h]
  congr 1
  split
  · next hk => rw [abs_of_nonneg hk]
  · next hk =>
    rw [abs_of_neg (not_le.mp hk)]
    ring

/-- The terms of a fold are added to the number, and the limb stays as it is. -/
theorem value_terms {i : ℕ} {terms : List (ℕ × ℤ)} (hterms : ∀ t ∈ terms, t.1 < n ∧ t.1 ≠ i)
    (h : terms.foldlM (addMul i) s = some s') :
    value w n s' = value w n s + s i * (terms.map fun t => t.2 * w t.1).sum ∧ s' i = s i := by
  induction terms generalizing s with
  | nil =>
    obtain rfl := Option.some.inj h
    simp
  | cons t terms ih =>
    rw [List.foldlM_cons] at h
    obtain ⟨s₁, h₁, h⟩ := Option.bind_eq_some_iff.mp h
    obtain ⟨ht, hne⟩ := hterms t (List.mem_cons_self ..)
    obtain ⟨hvalue, hsame⟩ := ih (fun t ht => hterms t (List.mem_cons_of_mem _ ht)) h
    have hi : s₁ i = s i := by
      rw [addMul_eq h₁, Function.update_of_ne (Ne.symm hne)]
    refine ⟨?_, hsame.trans hi⟩
    rw [hvalue, hi, addMul_eq h₁, value_update ht, List.map_cons, List.sum_cons]
    ring

/-- A fold. -/
theorem value_fold {i : ℕ} {terms : List (ℕ × ℤ)} (hi : i < n) (hterms : ∀ t ∈ terms, t.1 < n ∧ t.1 ≠ i)
    (h : (Op.fold i terms).exec s = some s') :
    value w n s' = value w n s + s i * ((terms.map fun t => t.2 * w t.1).sum - w i) := by
  obtain ⟨s₁, h₁, h⟩ := Option.bind_eq_some_iff.mp h
  obtain ⟨hvalue, hsame⟩ := value_terms (w := w) hterms h₁
  rw [← Option.some.inj h, value_update hi, hvalue, hsame]
  ring

/-- **A line keeps the number** modulo `N`. -/
theorem value_exec {N : ℤ} {op : Op} (hop : op.Keeps w n N) (h : op.exec s = some s') :
    N ∣ value w n s' - value w n s := by
  cases op with
  | carry i j bits half factor =>
    obtain ⟨hi, hj, hne, hdvd⟩ := hop
    obtain ⟨t, -, h⟩ := Option.bind_eq_some_iff.mp h
    obtain ⟨p, hp, h⟩ := Option.bind_eq_some_iff.mp h
    obtain ⟨v, hv, h⟩ := Option.bind_eq_some_iff.mp h
    obtain ⟨q, hq, h⟩ := Option.bind_eq_some_iff.mp h
    obtain ⟨u, hu, h⟩ := Option.bind_eq_some_iff.mp h
    rw [← Option.some.inj h, value_update hi, value_update hj, Function.update_of_ne hne, eq_of_checked hu,
      eq_of_checked hv,
      eq_of_checked hp, eq_of_checked hq]
    refine (hdvd.mul_left (t >>> bits)).trans (dvd_of_eq ?_)
    ring
  | fold i terms =>
    obtain ⟨hi, hterms, hdvd⟩ := hop
    rw [value_fold hi hterms h]
    refine (hdvd.mul_left (s i)).trans (dvd_of_eq ?_)
    ring

/-- **So do lines that keep it.** -/
theorem value_run {N : ℤ} {ops : List Op} (hops : ∀ op ∈ ops, op.Keeps w n N) (h : run ops s = some s') :
    N ∣ value w n s' - value w n s := by
  induction ops generalizing s with
  | nil =>
    obtain rfl := Option.some.inj h
    simp
  | cons op ops ih =>
    rw [run, List.foldlM_cons] at h
    obtain ⟨s₁, h₁, h⟩ := Option.bind_eq_some_iff.mp h
    have hhead := value_exec (hops op (List.mem_cons_self ..)) h₁
    have htail := ih (fun op hop => hops op (List.mem_cons_of_mem _ hop)) h
    exact (htail.add hhead).trans (dvd_of_eq (by ring))

/-! ### Intervals -/

/-- The numbers from one to another. -/
abbrev Interval := ℤ × ℤ

/-- The number is in the interval. -/
def Interval.Has (I : Interval) (v : ℤ) : Prop := I.1 ≤ v ∧ v ≤ I.2

/-- All numbers of the interval fit. -/
def Interval.Safe (I : Interval) : Prop := -2 ^ 63 ≤ I.1 ∧ I.2 < 2 ^ 63

instance (I : Interval) : Decidable I.Safe := inferInstanceAs (Decidable (_ ∧ _))

theorem Interval.Has.checked {I : Interval} {v : ℤ} (h : I.Has v) (hI : I.Safe) : checked v = some v :=
  checked_of_fits ⟨hI.1.trans h.1, lt_of_le_of_lt h.2 hI.2⟩

/-- The sums. -/
def Interval.add (I J : Interval) : Interval := (I.1 + J.1, I.2 + J.2)

/-- The differences. -/
def Interval.sub (I J : Interval) : Interval := (I.1 - J.2, I.2 - J.1)

/-- The multiples by a number that is not negative. -/
def Interval.scale (I : Interval) (k : ℤ) : Interval := (I.1 * k, I.2 * k)

/-- The quotients by a power of two. -/
def Interval.shift (I : Interval) (bits : ℕ) : Interval := (I.1 >>> bits, I.2 >>> bits)

section Interval

variable {I J : Interval} {u v : ℤ}

theorem Interval.Has.add (hu : I.Has u) (hv : J.Has v) : (I.add J).Has (u + v) :=
  ⟨add_le_add hu.1 hv.1, add_le_add hu.2 hv.2⟩

theorem Interval.Has.sub (hu : I.Has u) (hv : J.Has v) : (I.sub J).Has (u - v) :=
  ⟨sub_le_sub hu.1 hv.2, sub_le_sub hu.2 hv.1⟩

theorem Interval.Has.scale (hu : I.Has u) {k : ℤ} (hk : 0 ≤ k) : (I.scale k).Has (u * k) :=
  ⟨mul_le_mul_of_nonneg_right hu.1 hk, mul_le_mul_of_nonneg_right hu.2 hk⟩

theorem Interval.Has.shift (hu : I.Has u) (bits : ℕ) : (I.shift bits).Has (u >>> bits) := by
  simp only [Interval.Has, Interval.shift, Int.shiftRight_eq_div_pow]
  exact ⟨Int.ediv_le_ediv (by positivity) hu.1, Int.ediv_le_ediv (by positivity) hu.2⟩

end Interval

/-- An interval for each of the first limbs. The others are zero. -/
abbrev Bounds := List Interval

/-- The interval of a limb. -/
def Bounds.at (B : Bounds) (i : ℕ) : Interval := B.getD i (0, 0)

/-- Every limb is in its interval. -/
def Bounds.Has (B : Bounds) (s : Digits) : Prop := ∀ i, (B.at i).Has (s i)

/-- The bounds after a term of a fold. -/
def boundTerm (i : ℕ) (B : Bounds) (t : ℕ × ℤ) : Option Bounds :=
  let p := (B.at i).scale |t.2|
  let v := if 0 ≤ t.2 then (B.at t.1).add p else (B.at t.1).sub p
  if t.1 < B.length ∧ p.Safe ∧ v.Safe then some (B.set t.1 v) else none

/-- The bounds after a line, if nothing within the bounds before it overflows. -/
def Op.bound : Op → Bounds → Option Bounds
  | carry i j bits half factor, B =>
    let t := (B.at i).add (half, half)
    let c := t.shift bits
    let p := c.scale factor
    let v := (B.at j).add p
    let q := c.scale (2 ^ bits)
    let u := (-half, 2 ^ bits - 1 - half)
    if 0 ≤ factor ∧ i < B.length ∧ j < B.length ∧ t.Safe ∧ p.Safe ∧ v.Safe ∧ q.Safe ∧ Interval.Safe u then
      some ((B.set j v).set i u) else none
  | fold i terms, B => do
    let B' ← terms.foldlM (boundTerm i) B
    if i < B'.length then return B'.set i (0, 0) else none

/-- The bounds after lines. -/
def boundRun (ops : List Op) (B : Bounds) : Option Bounds := ops.foldlM (fun B op => op.bound B) B

variable {B B' : Bounds}

/-- A limb and its interval are changed. -/
theorem Bounds.Has.update (h : B.Has s) {i : ℕ} (hi : i < B.length) {I : Interval} {v : ℤ} (hv : I.Has v) :
    Bounds.Has (B.set i I) (Function.update s i v) := by
  intro k
  by_cases hk : k = i
  · subst hk
    rw [Function.update_self, Bounds.at, List.getD_eq_getElem?_getD, List.getElem?_set_self hi]
    exact hv
  · rw [Function.update_of_ne hk, Bounds.at, List.getD_eq_getElem?_getD, List.getElem?_set_ne (Ne.symm hk),
      ← List.getD_eq_getElem?_getD]
    exact h k

theorem Bounds.Has.of_at (h : B.Has s) {i : ℕ} {I : Interval} (hI : B.at i = I) : I.1 ≤ s i ∧ s i ≤ I.2 := hI ▸ h i

theorem addMul_of_bound {i : ℕ} {t : ℕ × ℤ} (h : B.Has s) (hB : boundTerm i B t = some B') :
    ∃ s', addMul i s t = some s' ∧ B'.Has s' := by
  obtain ⟨⟨ht, hp, hv⟩, hB⟩ := Option.ite_none_right_eq_some.mp hB
  have hprod := (h i).scale (abs_nonneg t.2)
  rw [addMul, hprod.checked hp, ← Option.some.inj hB]
  simp only [Option.bind_eq_bind, Option.bind_some]
  by_cases hk : 0 ≤ t.2
  · simp only [if_pos hk] at hv ⊢
    have hsum := (h t.1).add hprod
    exact ⟨_, by rw [hsum.checked hv]; rfl, h.update ht hsum⟩
  · simp only [if_neg hk] at hv ⊢
    have hdiff := (h t.1).sub hprod
    exact ⟨_, by rw [hdiff.checked hv]; rfl, h.update ht hdiff⟩

theorem terms_of_bound {i : ℕ} {terms : List (ℕ × ℤ)} (h : B.Has s) (hB : terms.foldlM (boundTerm i) B = some B') :
    ∃ s', terms.foldlM (addMul i) s = some s' ∧ B'.Has s' := by
  induction terms generalizing s B with
  | nil =>
    obtain rfl := Option.some.inj hB
    exact ⟨s, rfl, h⟩
  | cons t terms ih =>
    rw [List.foldlM_cons] at hB
    obtain ⟨B₁, hB₁, hB⟩ := Option.bind_eq_some_iff.mp hB
    obtain ⟨s₁, hs₁, h₁⟩ := addMul_of_bound h hB₁
    obtain ⟨s₂, hs₂, h₂⟩ := ih h₁ hB
    exact ⟨s₂, by rw [List.foldlM_cons, hs₁]; exact hs₂, h₂⟩

/-- What a carry leaves in a limb. -/
theorem sub_shift_has (v half : ℤ) (bits : ℕ) :
    Interval.Has (-half, 2 ^ bits - 1 - half) (v - (v + half) >>> bits * 2 ^ bits) := by
  have hpos : (0 : ℤ) < 2 ^ bits := by positivity
  have hmod := Int.mul_ediv_add_emod (v + half) (2 ^ bits)
  have hlo := Int.emod_nonneg (v + half) hpos.ne'
  have hhi := Int.emod_lt_of_pos (v + half) hpos
  rw [Int.shiftRight_eq_div_pow, Interval.Has]
  push_cast
  rw [mul_comm] at hmod
  constructor <;> omega

/-- **A line that the bounds allow** does not overflow, and leads into the bounds after it. -/
theorem exec_of_bound {op : Op} (h : B.Has s) (hB : op.bound B = some B') :
    ∃ s', op.exec s = some s' ∧ B'.Has s' := by
  cases op with
  | carry i j bits half factor =>
    rw [Op.bound] at hB
    split at hB
    · next hsafe =>
      obtain ⟨hfactor, hi, hj, ht, hp, hv, hq, hu⟩ := hsafe
      have hsum : ((B.at i).add (half, half)).Has (s i + half) := (h i).add ⟨le_rfl, le_rfl⟩
      have hcarry := hsum.shift bits
      have hprod := hcarry.scale hfactor
      have hnew := (h j).add hprod
      have hback := hcarry.scale (show (0 : ℤ) ≤ 2 ^ bits by positivity)
      have hrest := sub_shift_has (s i) half bits
      rw [← Option.some.inj hB]
      refine ⟨_, ?_, (h.update hj hnew).update (by rwa [List.length_set]) hrest⟩
      simp only [Op.exec, hsum.checked ht, hprod.checked hp, hnew.checked hv, hback.checked hq, hrest.checked hu,
        Option.bind_eq_bind, Option.bind_some, Option.pure_def]
    · nomatch hB
  | fold i terms =>
    obtain ⟨B₁, hB₁, hB⟩ := Option.bind_eq_some_iff.mp hB
    obtain ⟨s₁, hs₁, h₁⟩ := terms_of_bound h hB₁
    split at hB
    · next hi =>
      rw [← Option.some.inj hB]
      exact ⟨_, by rw [Op.exec, hs₁]; rfl, h₁.update hi ⟨le_rfl, le_rfl⟩⟩
    · nomatch hB

/-- **So do lines** that the bounds allow one after the other. -/
theorem run_of_bound {ops : List Op} (h : B.Has s) (hB : boundRun ops B = some B') :
    ∃ s', run ops s = some s' ∧ B'.Has s' := by
  induction ops generalizing s B with
  | nil =>
    obtain rfl := Option.some.inj hB
    exact ⟨s, rfl, h⟩
  | cons op ops ih =>
    rw [boundRun, List.foldlM_cons] at hB
    obtain ⟨B₁, hB₁, hB⟩ := Option.bind_eq_some_iff.mp hB
    obtain ⟨s₁, hs₁, h₁⟩ := exec_of_bound h hB₁
    obtain ⟨s₂, hs₂, h₂⟩ := ih h₁ hB
    exact ⟨s₂, by rw [run, List.foldlM_cons, hs₁]; exact hs₂, h₂⟩

end Limbs

end Sanctum
