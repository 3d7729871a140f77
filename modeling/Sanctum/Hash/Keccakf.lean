import Mathlib.Tactic.FinCases
import Sanctum.Machine.Memory
import Sanctum.Hash.Keccak
import Sanctum.Hash.Loops

/-!
# `sha3_keccakf`

The permutation of `sha3.c`. It works on 25 words in place, and has the offsets of `ρ` and the constants of `ι` in
tables; `ρ` and `π` are one loop, in which each lane goes to the place of the next one.

## What is proved

* `keccakf_refines` — it is Keccak-f[1600].
-/

namespace Sanctum

namespace Sha3

/-! ### The code -/

/-- `uint64_t st[25]`. -/
abbrev Lanes := Vector Word 25

/-- The index `j + i` of a loop over `j = 0, 5, .., 20` and `i = 0, .., 4`, the former divided by five. -/
def lane (i j : Fin 5) : Fin 25 := ⟨5 * j + i, by omega⟩

/-- `ROTL64`. -/
def rotl64 (x : Word) (y : ℕ) : Word := x <<< y ||| x >>> (64 - y)

/-- `keccakf_rndc`. -/
def keccakfRndc : Vector Word 24 := #v[
  0x0000000000000001, 0x0000000000008082, 0x800000000000808a,
  0x8000000080008000, 0x000000000000808b, 0x0000000080000001,
  0x8000000080008081, 0x8000000000008009, 0x000000000000008a,
  0x0000000000000088, 0x0000000080008009, 0x000000008000000a,
  0x000000008000808b, 0x800000000000008b, 0x8000000000008089,
  0x8000000000008003, 0x8000000000008002, 0x8000000000000080,
  0x000000000000800a, 0x800000008000000a, 0x8000000080008081,
  0x8000000000008080, 0x0000000080000001, 0x8000000080008008]

/-- `keccakf_rotc`. -/
def keccakfRotc : Vector ℕ 24 := #v[
  1, 3, 6, 10, 15, 21, 28, 36, 45, 55, 2, 14,
  27, 41, 56, 8, 25, 43, 62, 18, 39, 61, 20, 44]

/-- `keccakf_piln`. -/
def keccakfPiln : Vector (Fin 25) 24 := #v[
  10, 7, 11, 17, 18, 3, 5, 16, 8, 21, 24, 4,
  15, 23, 19, 13, 12, 2, 20, 14, 22, 9, 6, 1]

/-- Theta. -/
def theta (st : Lanes) : Lanes :=
  let bc : Vector Word 5 := .ofFn fun i =>
    st[lane i 0] ^^^ st[lane i 1] ^^^ st[lane i 2] ^^^ st[lane i 3] ^^^ st[lane i 4]
  (List.finRange 5).foldl (fun st (i : Fin 5) =>
    let t := bc[i + 4] ^^^ rotl64 bc[i + 1] 1
    (List.finRange 5).foldl (fun st (j : Fin 5) => st.set (lane i j) (st[lane i j] ^^^ t)) st) st

/-- Rho Pi. -/
def rhoPi (st : Lanes) : Lanes :=
  ((List.finRange 24).foldl (fun (s : Lanes × Word) (i : Fin 24) =>
    let j := keccakfPiln[i]
    let bc := s.1[j]
    (s.1.set j (rotl64 s.2 keccakfRotc[i]), bc)) (st, st[1])).1

/-- Chi. -/
def chi (st : Lanes) : Lanes :=
  (List.finRange 5).foldl (fun st (j : Fin 5) =>
    let bc : Vector Word 5 := .ofFn fun i => st[lane i j]
    (List.finRange 5).foldl (fun st (i : Fin 5) =>
      st.set (lane i j) (st[lane i j] ^^^ (~~~bc[i + 1] &&& bc[i + 2]))) st) st

/-- Iota. -/
def iota (r : Fin 24) (st : Lanes) : Lanes := st.set 0 (st[0] ^^^ keccakfRndc[r])

/-- `sha3_keccakf`, on a machine that has the low byte of a word first. -/
def keccakf (st : Lanes) : Lanes := (List.finRange 24).foldl (fun st r => iota r (chi (rhoPi (theta st)))) st

/-! ### Lanes -/

theorem lane_inj {i j i' j' : Fin 5} : lane i j = lane i' j' ↔ i = i' ∧ j = j' := by
  simp only [lane, Fin.mk.injEq]
  omega

/-- The lane at `(x, y)`. -/
def laneAt (st : Lanes) (p : Fin 5 × Fin 5) : Word := st[lane p.1 p.2]

theorem laneAt_set (st : Lanes) (i j : Fin 5) (w : Word) (p : Fin 5 × Fin 5) :
    laneAt (st.set (lane i j) w) p = if i = p.1 ∧ j = p.2 then w else laneAt st p := by
  rw [laneAt, Fin.getElem_fin, Vector.getElem_set, laneAt]
  simp only [← Fin.ext_iff, lane_inj, Fin.getElem_fin]

/-! ### What the steps do to a lane -/

/-- The parity of the lanes with a given `x`. -/
def columns (st : Lanes) (x : Fin 5) : Word :=
  laneAt st (x, 0) ^^^ laneAt st (x, 1) ^^^ laneAt st (x, 2) ^^^ laneAt st (x, 3) ^^^ laneAt st (x, 4)

/-- The lanes of a loop that xors something into each. -/
def xorLanes (x y : Fin 5 → Fin 5) (w : Fin 5 → Word) (v : Lanes) : Lanes :=
  (List.finRange 5).foldl (fun st i => st.set (lane (x i) (y i)) (st[lane (x i) (y i)] ^^^ w i)) v

section Loops

variable {x y : Fin 5 → Fin 5} {w : Fin 5 → Word} {v : Lanes}

theorem laneAt_set_of_ne {v : Lanes} {i : Fin 5} {w : Word} {k : Fin 5 × Fin 5} (hk : k ≠ (x i, y i)) :
    laneAt (v.set (lane (x i) (y i)) w) k = laneAt v k := by
  rw [laneAt_set, if_neg fun h => hk (Prod.ext h.1.symm h.2.symm)]

theorem laneAt_xorLanes (h : ∀ i j, x i = x j → y i = y j → i = j) (i : Fin 5) :
    laneAt (xorLanes x y w v) (x i, y i) = laneAt v (x i, y i) ^^^ w i := by
  rw [xorLanes, foldl_apart (g := laneAt) (o := fun i k => k = (x i, y i)) (fun _ _ _ => laneAt_set_of_ne) ?_
    (List.nodup_finRange 5) ?_ (List.mem_finRange i) rfl, laneAt_set, if_pos ⟨rfl, rfl⟩, laneAt]
  · rintro j v v' hv k rfl
    rw [laneAt_set, laneAt_set, if_pos ⟨rfl, rfl⟩, if_pos ⟨rfl, rfl⟩]
    exact congrArg (· ^^^ w j) (hv _ rfl)
  · rintro j - l - k hj hl
    obtain ⟨hx, hy⟩ := Prod.mk.inj (hj.symm.trans hl)
    exact h j l hx hy

theorem laneAt_xorLanes_of_ne {k : Fin 5 × Fin 5} (hk : ∀ i, k ≠ (x i, y i)) :
    laneAt (xorLanes x y w v) k = laneAt v k :=
  foldl_untouched (g := laneAt) (o := fun i k => k = (x i, y i)) (fun _ _ _ => laneAt_set_of_ne) (fun i _ => hk i) v

end Loops

theorem laneAt_theta (st : Lanes) (p : Fin 5 × Fin 5) :
    laneAt (theta st) p = laneAt st p ^^^ (columns st (p.1 + 4) ^^^ rotl64 (columns st (p.1 + 1)) 1) := by
  have hcol : ∀ (v : Lanes) (t : Word) (i : Fin 5) (k : Fin 5 × Fin 5), ¬ i = k.1 →
      laneAt (xorLanes (fun _ => i) id (fun _ => t) v) k = laneAt v k := fun v t i k hk =>
    laneAt_xorLanes_of_ne fun j h => hk (congrArg Prod.fst h).symm
  have hown : ∀ (v : Lanes) (t : Word) (k : Fin 5 × Fin 5),
      laneAt (xorLanes (fun _ => k.1) id (fun _ => t) v) k = laneAt v k ^^^ t := fun v t k =>
    laneAt_xorLanes (x := fun _ => k.1) (y := id) (fun _ _ _ h => h) k.2
  have hbc : ∀ i : Fin 5, (Vector.ofFn fun i => st[lane i 0] ^^^ st[lane i 1] ^^^ st[lane i 2] ^^^ st[lane i 3] ^^^
      st[lane i 4])[i] = columns st i := fun i => by rw [Fin.getElem_fin, Vector.getElem_ofFn]; rfl
  have hloop : theta st = (List.finRange 5).foldl (fun v i => xorLanes (fun _ => i) id
      (fun _ => columns st (i + 4) ^^^ rotl64 (columns st (i + 1)) 1) v) st := by
    rw [theta]
    simp only [hbc]
    rfl
  rw [hloop, foldl_apart (g := laneAt) (o := fun i k => i = k.1) (fun v i k => hcol v _ i k) ?_
    (List.nodup_finRange 5) (fun i _ j _ k hi hj => hi.trans hj.symm) (List.mem_finRange p.1) rfl, hown]
  rintro i v v' hv k rfl
  rw [hown, hown, hv k rfl]

theorem laneAt_chi (st : Lanes) (p : Fin 5 × Fin 5) :
    laneAt (chi st) p = laneAt st p ^^^ (~~~laneAt st (p.1 + 1, p.2) &&& laneAt st (p.1 + 2, p.2)) := by
  have hrow : ∀ (v : Lanes) (w : Fin 5 → Word) (j : Fin 5) (k : Fin 5 × Fin 5), ¬ j = k.2 →
      laneAt (xorLanes id (fun _ => j) w v) k = laneAt v k := fun v w j k hk =>
    laneAt_xorLanes_of_ne fun i h => hk (congrArg Prod.snd h).symm
  have hown : ∀ (v : Lanes) (w : Fin 5 → Word) (k : Fin 5 × Fin 5),
      laneAt (xorLanes id (fun _ => k.2) w v) k = laneAt v k ^^^ w k.1 := fun v w k =>
    laneAt_xorLanes (x := id) (y := fun _ => k.2) (fun _ _ h _ => h) k.1
  have hbc : ∀ (st : Lanes) (i j : Fin 5), (Vector.ofFn fun i => st[lane i j])[i] = laneAt st (i, j) :=
    fun st i j => by rw [Fin.getElem_fin, Vector.getElem_ofFn]; rfl
  have hloop : chi st = (List.finRange 5).foldl (fun v j => xorLanes id (fun _ => j)
      (fun i => ~~~laneAt v (i + 1, j) &&& laneAt v (i + 2, j)) v) st := by
    rw [chi]
    simp only [hbc]
    rfl
  rw [hloop, foldl_apart (g := laneAt) (o := fun j k => j = k.2) (fun v j k => hrow v _ j k) ?_
    (List.nodup_finRange 5) (fun i _ j _ k hi hj => hi.trans hj.symm) (List.mem_finRange p.2) rfl, hown]
  rintro j v v' hv k rfl
  rw [hown, hown, hv k rfl, hv (k.1 + 1, k.2) rfl, hv (k.1 + 2, k.2) rfl]

theorem laneAt_iota (r : Fin 24) (st : Lanes) (p : Fin 5 × Fin 5) :
    laneAt (iota r st) p = laneAt st p ^^^ if p = (0, 0) then keccakfRndc[r] else 0 := by
  have h := laneAt_set st 0 0 (laneAt st (0, 0) ^^^ keccakfRndc[r]) p
  rw [iota]
  refine Eq.trans h ?_
  by_cases hp : p = (0, 0)
  · subst hp
    simp
  · rw [if_neg fun h => hp (Prod.ext h.1.symm h.2.symm), if_neg hp]
    exact BitVec.xor_zero.symm

/-! ### Rho and Pi -/

/-- The tables of `ρ` and `π` go along the lanes as the standard does. -/
theorem tables_eq (i : Fin 24) : keccakfPiln[i] = lane (Keccak.walk (i + 1)).1 (Keccak.walk (i + 1)).2 ∧
    keccakfRotc[i] = Keccak.offset i % 64 := by
  revert i
  decide

/-- The places of the lanes on the walk. -/
def place (t : ℕ) : Fin 25 := lane (Keccak.walk t).1 (Keccak.walk t).2

theorem rhoPi_eq (st : Lanes) :
    rhoPi st = (moveAlong place (fun i w => rotl64 w (Keccak.offset i % 64)) st st[place 0] 24).1 := by
  rw [rhoPi, moveAlong, ← List.map_coe_finRange_eq_range, List.foldl_map]
  refine congrArg Prod.fst (List.foldl_ext _ _ _ fun s i _ => ?_)
  obtain ⟨hpiln, hrotc⟩ := tables_eq i
  simp only [hpiln, hrotc]
  rfl

theorem laneAt_rhoPi_walk (st : Lanes) {t : ℕ} (ht : t < 24) :
    laneAt (rhoPi st) (Keccak.walk (t + 1)) = rotl64 (laneAt st (Keccak.walk t)) (Keccak.offset t % 64) := by
  rw [rhoPi_eq]
  refine moveAlong_spec (fun i hi j hj h => Keccak.walk_succ_inj i hi j hj ?_) ht
  exact Prod.ext (lane_inj.mp h).1 (lane_inj.mp h).2

theorem laneAt_rhoPi_zero (st : Lanes) : laneAt (rhoPi st) (0, 0) = laneAt st (0, 0) := by
  rw [rhoPi_eq]
  refine moveAlong_untouched fun i hi h => Keccak.walk_ne_zero (i + 1) (Nat.succ_lt_succ hi) ?_
  exact Prod.ext (lane_inj.mp h).1 (lane_inj.mp h).2

/-! ### Refinement -/

/-- The state array that the words stand for. -/
def bits (st : Lanes) : Keccak.StateArray := fun x y z => (laneAt st (x, y)).getLsbD z

/-- A rotation, bit by bit. -/
theorem getLsbD_rotl64 (w : Word) {n : ℕ} (hn : n < 64) (z : Fin 64) :
    (rotl64 w n).getLsbD z = w.getLsbD (z - Fin.ofNat 64 n : Fin 64) := by
  have hrot : rotl64 w n = w.rotateLeft n := by
    rw [BitVec.rotateLeft, BitVec.rotateLeftAux, Nat.mod_eq_of_lt hn, rotl64]
  have hz := z.isLt
  have hsub : (z - Fin.ofNat 64 n : Fin 64).val = (64 - n + z) % 64 := by
    change (64 - n % 64 + z) % 64 = _
    rw [Nat.mod_eq_of_lt hn]
  rw [hrot, BitVec.getLsbD_rotateLeft, Nat.mod_eq_of_lt hn, hsub, decide_eq_true hz, Bool.true_and]
  by_cases hlt : z.val < n
  · rw [decide_eq_true hlt, cond_true, Nat.mod_eq_of_lt (by omega)]
  · rw [decide_eq_false hlt, cond_false]
    congr 1
    omega

theorem bits_theta (st : Lanes) : bits (theta st) = Keccak.theta (bits st) := by
  have hpred : ∀ x : Fin 5, x + 4 = x - 1 := by decide
  have hcol : ∀ (x : Fin 5) (z : Fin 64), (columns st x).getLsbD z = Keccak.parity (bits st) x z := by
    intro x z
    simp only [columns, BitVec.getLsbD_xor]
    rfl
  funext x y z
  rw [bits, laneAt_theta, BitVec.getLsbD_xor, BitVec.getLsbD_xor, getLsbD_rotl64 _ (by decide), hcol, hcol, hpred]
  rfl

theorem bits_rhoPi (st : Lanes) : bits (rhoPi st) = Keccak.pi (Keccak.rho (bits st)) := by
  funext x y z
  change (laneAt (rhoPi st) (x, y)).getLsbD z = Keccak.line (Keccak.pi (Keccak.rho (bits st))) (x, y) z
  by_cases hp : (x, y) = (0, 0)
  · rw [hp, laneAt_rhoPi_zero, Keccak.pi_rho_zero]
    rfl
  · obtain ⟨t, ht, hwalk⟩ := Keccak.exists_walk hp
    have hmod : Fin.ofNat 64 (Keccak.offset t % 64) = Fin.ofNat 64 (Keccak.offset t) := Fin.ext (Nat.mod_mod ..)
    rw [← hwalk, laneAt_rhoPi_walk st ht, Keccak.pi_rho_walk _ ht, getLsbD_rotl64 _ (Nat.mod_lt _ (by decide)), hmod]
    rfl

theorem bits_chi (st : Lanes) : bits (chi st) = Keccak.chi (bits st) := by
  funext x y z
  rw [bits, laneAt_chi, BitVec.getLsbD_xor, BitVec.getLsbD_and, BitVec.getLsbD_not, decide_eq_true z.isLt,
    Bool.true_and]
  rfl

/-- The table of constants is that of the shift register. -/
theorem getLsbD_keccakfRndc (r : Fin 24) (z : Fin 64) : keccakfRndc[r].getLsbD z = Keccak.roundConstant r z := by
  revert r z
  decide

theorem bits_iota (r : Fin 24) (st : Lanes) : bits (iota r st) = Keccak.iota r (bits st) := by
  funext x y z
  rw [bits, laneAt_iota, BitVec.getLsbD_xor, Keccak.iota]
  refine congrArg ((laneAt st (x, y)).getLsbD z ^^ ·) ?_
  by_cases hp : (x, y) = (0, 0)
  · obtain ⟨rfl, rfl⟩ := Prod.mk.inj hp
    rw [if_pos hp, getLsbD_keccakfRndc]
    rfl
  · have hne : (x == 0 && y == 0) = false := by
      rw [Bool.eq_false_iff]
      simpa using hp
    rw [if_neg hp, hne, Bool.false_and]
    exact BitVec.getLsbD_zero

/-- **`sha3_keccakf`** is the permutation of the standard, on state arrays. -/
theorem bits_keccakf (st : Lanes) : bits (keccakf st) = Keccak.permute (bits st) := by
  rw [keccakf, Keccak.permute, ← List.map_coe_finRange_eq_range, List.foldl_map]
  refine (List.foldl_hom bits fun st r => ?_).symm
  rw [Keccak.round, bits_iota, bits_chi, bits_rhoPi, bits_theta]

/-- The string that the words stand for. -/
def string (st : Lanes) : Sponge.State 1600 := fun k => st[k.val / 64].getLsbD (k % 64)

theorem ofString_string (st : Lanes) : Keccak.ofString (string st) = bits st := by
  funext x y z
  have hz := z.isLt
  have hword : (64 * (5 * y.val + x.val) + z.val) / 64 = 5 * y + x := by omega
  have hbit : (64 * (5 * y.val + x.val) + z.val) % 64 = z := by omega
  simp only [Keccak.ofString, string, hword, hbit]
  rfl

/-- **`sha3_keccakf`** is the permutation of the standard, on strings: of the words the first is the first 64 bits,
and of a word the lowest bit is the first. -/
theorem keccakf_refines (st : Lanes) : string (keccakf st) = Keccak.keccakF (string st) := by
  rw [Keccak.keccakF, ofString_string, ← bits_keccakf, ← ofString_string, Keccak.toString_ofString]

end Sha3

end Sanctum
