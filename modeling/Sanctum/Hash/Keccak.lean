import Mathlib.Algebra.Ring.Nat
import Mathlib.Data.Fin.Basic
import Mathlib.Logic.Function.Basic
import Sanctum.Hash.Loops
import Sanctum.Hash.Sponge

/-!
# Keccak-f[1600]

The permutation of FIPS 202, on a state array of bits `A[x, y, z]`: five steps, 24 times. The offsets of `ρ` and the
constants of `ι` are computed as the standard has them, the first by a walk over the lanes and the second by a shift
register.

`SHA3-d` is the sponge with this permutation, a capacity of `2d` bits, and the bits `01` after the message.

## What is proved

* `pi_rho_walk` — by `ρ` and `π` together each lane goes to the place of the next one on the walk.
-/

namespace Sanctum

namespace Keccak

/-- Lanes are counted modulo 5. -/
instance neZeroFive : NeZero 5 := ⟨Nat.succ_ne_zero 4⟩

/-- A state array. -/
abbrev StateArray := Fin 5 → Fin 5 → Fin 64 → Bool

/-! ### The five steps -/

/-- The parity of a column. -/
def parity (A : StateArray) (x : Fin 5) (z : Fin 64) : Bool := A x 0 z ^^ A x 1 z ^^ A x 2 z ^^ A x 3 z ^^ A x 4 z

/-- `θ`. -/
def theta (A : StateArray) : StateArray := fun x y z => A x y z ^^ (parity A (x - 1) z ^^ parity A (x + 1) (z - 1))

/-- The lanes but `(0, 0)`, in the order in which `ρ` goes over them. -/
def walk : ℕ → Fin 5 × Fin 5
  | 0 => (1, 0)
  | t + 1 => ((walk t).2, 2 * (walk t).1 + 3 * (walk t).2)

/-- By how much `ρ` rotates the `t`-th of them. -/
def offset (t : ℕ) : ℕ := (t + 1) * (t + 2) / 2

/-- `ρ`. -/
def rho (A : StateArray) : StateArray :=
  (List.range 24).foldl (fun A' t => Function.update A' (walk t).1 (Function.update (A' (walk t).1) (walk t).2
    fun z => A (walk t).1 (walk t).2 (z - Fin.ofNat 64 (offset t)))) A

/-- `π`. -/
def pi (A : StateArray) : StateArray := fun x y z => A (x + 3 * y) x z

/-- `χ`. -/
def chi (A : StateArray) : StateArray := fun x y z => A x y z ^^ (!A (x + 1) y z && A (x + 2) y z)

/-- One step of the shift register of `rc`. -/
def lfsr : List Bool → List Bool
  | [r0, r1, r2, r3, r4, r5, r6, r7] => [r7, r0, r1, r2, r3 ^^ r7, r4 ^^ r7, r5 ^^ r7, r6]
  | R => R

/-- `rc(t)`. -/
def rc (t : ℕ) : Bool := ((lfsr^[t % 255]) [true, false, false, false, false, false, false, false]).headD true

/-- The constant of a round. -/
def roundConstant (i : ℕ) (z : Fin 64) : Bool := (List.range 7).any fun j => z.val == 2 ^ j - 1 && rc (j + 7 * i)

/-- `ι`. -/
def iota (i : ℕ) (A : StateArray) : StateArray := fun x y z => A x y z ^^ (x == 0 && y == 0 && roundConstant i z)

/-- A round. -/
def round (A : StateArray) (i : ℕ) : StateArray := iota i (chi (pi (rho (theta A))))

/-- **Keccak-f[1600]**, on state arrays. -/
def permute (A : StateArray) : StateArray := (List.range 24).foldl round A

/-! ### The walk -/

/-- The walk goes over each lane once, but for the first. -/
theorem walk_inj : ∀ i < 24, ∀ j < 24, walk i = walk j → i = j := by
  decide

theorem walk_succ_inj : ∀ i < 24, ∀ j < 24, walk (i + 1) = walk (j + 1) → i = j := by
  decide

theorem walk_ne_zero : ∀ i < 25, walk i ≠ (0, 0) := by
  decide

theorem exists_walk {p : Fin 5 × Fin 5} (hp : p ≠ (0, 0)) : ∃ t < 24, walk (t + 1) = p := by
  obtain ⟨x, y⟩ := p
  revert x y
  decide

/-- A lane of a state array. -/
def line (A : StateArray) (p : Fin 5 × Fin 5) : Fin 64 → Bool := A p.1 p.2

/-- One lane is replaced. -/
theorem line_update (A : StateArray) (p k : Fin 5 × Fin 5) (l : Fin 64 → Bool) :
    line (Function.update A p.1 (Function.update (A p.1) p.2 l)) k = if k = p then l else line A k := by
  obtain ⟨x, y⟩ := p
  obtain ⟨x', y'⟩ := k
  simp only [line, Prod.mk.injEq]
  by_cases hx : x' = x
  · subst hx
    by_cases hy : y' = y
    · subst hy
      simp
    · simp [hy]
  · simp [hx]

theorem rho_walk (A : StateArray) {t : ℕ} (ht : t < 24) (z : Fin 64) :
    line (rho A) (walk t) z = line A (walk t) (z - Fin.ofNat 64 (offset t)) := by
  rw [rho, foldl_apart (g := line) (o := fun t k => k = walk t) ?_ ?_ List.nodup_range ?_ (List.mem_range.mpr ht) rfl,
    line_update, if_pos rfl, line]
  · exact fun v i k hk => by rw [line_update, if_neg hk]
  · rintro i v v' - k rfl
    rw [line_update, line_update, if_pos rfl, if_pos rfl]
  · rintro i hi j hj k hk hk'
    exact walk_inj i (List.mem_range.mp hi) j (List.mem_range.mp hj) (hk.symm.trans hk')

theorem rho_zero (A : StateArray) : line (rho A) (0, 0) = line A (0, 0) :=
  foldl_untouched (g := line) (o := fun t k => k = walk t) (fun v i k hk => by rw [line_update, if_neg hk])
    (fun t ht h => walk_ne_zero t (Nat.lt_succ_of_lt (List.mem_range.mp ht)) h.symm) A

/-- **`ρ` and `π` together**: each lane goes to the next place on the walk. -/
theorem pi_rho_walk (A : StateArray) {t : ℕ} (ht : t < 24) (z : Fin 64) :
    line (pi (rho A)) (walk (t + 1)) z = line A (walk t) (z - Fin.ofNat 64 (offset t)) := by
  have hback : ∀ x y : Fin 5, y + 3 * (2 * x + 3 * y) = x := by decide
  rw [← rho_walk A ht]
  change rho A ((walk t).2 + 3 * (2 * (walk t).1 + 3 * (walk t).2)) (walk t).2 z = rho A (walk t).1 (walk t).2 z
  rw [hback]

theorem pi_rho_zero (A : StateArray) : line (pi (rho A)) (0, 0) = line A (0, 0) := rho_zero A

/-! ### On strings -/

/-- The state array of a string. -/
def ofString (S : Sponge.State 1600) : StateArray := fun x y z => S ⟨64 * (5 * y + x) + z, by omega⟩

/-- The string of a state array. -/
def toString (A : StateArray) : Sponge.State 1600 :=
  fun k => A ⟨k / 64 % 5, Nat.mod_lt _ (by decide)⟩ ⟨k / 320, by omega⟩ ⟨k % 64, Nat.mod_lt _ (by decide)⟩

theorem toString_ofString (S : Sponge.State 1600) : toString (ofString S) = S := by
  funext k
  refine congrArg S (Fin.ext ?_)
  dsimp only
  omega

/-- **Keccak-f[1600]**. -/
def keccakF (S : Sponge.State 1600) : Sponge.State 1600 := toString (permute (ofString S))

/-- **`SHA3-d`**, of a message of any number of bits. -/
def sha3 (d : ℕ) (M : List Bool) : List Bool := Sponge.sponge keccakF (1600 - 2 * d) (M ++ [false, true]) d

end Keccak

end Sanctum
