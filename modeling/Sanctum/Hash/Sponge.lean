import Mathlib.Data.List.Basic
import Mathlib.Data.List.GetD
import Mathlib.Logic.Function.Iterate

/-!
# The sponge construction

`SPONGE[f, pad10*1, r]` of FIPS 202: a message is padded to whole blocks of `r` bits, each block is xored into the
first `r` bits of a state of `b` bits, and the state is then permuted by `f`. The output is read off the state, `r`
bits at a time.

An implementation takes the bits as they come. It keeps the state and the place in the block where the next
bit goes (`absorbBit`), and does not know where the message will end.

## What is proved

* `stream_append`, `stream_within`, `stream_block` — what comes of some bits more.
* `stream_eq_absorb` — whole blocks of bits, one after the other, are absorbed as the blocks are.
-/

namespace Sanctum

namespace Sponge

/-- A state of `b` bits. -/
abbrev State (b : ℕ) := Fin b → Bool

/-- `pad10*1(x, m)`: a one, as few zeros as it takes to fill blocks of `x` bits, and a one. -/
def pad (x m : ℕ) : List Bool := true :: (List.replicate ((x - (m + 2) % x) % x) false ++ [true])

variable {b : ℕ}

/-- The bits `P` are xored into the state from bit `i` on. -/
def xorAt (S : State b) (i : ℕ) (P : List Bool) : State b :=
  fun k => S k ^^ (if i ≤ k.val then P.getD (k.val - i) false else false)

variable (f : State b → State b) (r : ℕ)

/-- The `i`-th block of `r` bits. -/
def block (P : List Bool) (i : ℕ) : List Bool := (P.drop (r * i)).take r

/-- The first `n` blocks of `P` are absorbed, beginning with the state `S`. -/
def absorb (S : State b) (P : List Bool) (n : ℕ) : State b :=
  (List.range n).foldl (fun S i => f (xorAt S 0 (block r P i))) S

/-- The first `n` bits of the state. -/
def trunc (n : ℕ) (S : State b) : List Bool := (List.ofFn S).take n

/-- The output of `d` bits, `r` bits from each state. -/
def squeeze (S : State b) (d : ℕ) : List Bool :=
  ((List.range (d / r + 1)).flatMap fun k => trunc r (f^[k] S)).take d

/-- `SPONGE[f, pad10*1, r](N, d)`. -/
def sponge (N : List Bool) (d : ℕ) : List Bool :=
  let P := N ++ pad r N.length
  squeeze f r (absorb f r (fun _ => false) P (P.length / r)) d

/-! ### Bit by bit -/

/-- A state, and the place in the block where the next bit goes. -/
abbrev Partial (b : ℕ) := State b × ℕ

/-- One bit is absorbed. -/
def absorbBit (S : Partial b) (bit : Bool) : Partial b :=
  if S.2 + 1 = r then (f (xorAt S.1 S.2 [bit]), 0) else (xorAt S.1 S.2 [bit], S.2 + 1)

/-- Bits are absorbed one after the other. -/
def stream (S : Partial b) (P : List Bool) : Partial b := P.foldl (absorbBit f r) S

variable {f r}

theorem stream_append (S : Partial b) (P Q : List Bool) :
    stream f r S (P ++ Q) = stream f r (stream f r S P) Q :=
  List.foldl_append ..

/-- Bits are xored in one place or two. -/
theorem xorAt_append (S : State b) (i : ℕ) (P Q : List Bool) :
    xorAt S i (P ++ Q) = xorAt (xorAt S i P) (i + P.length) Q := by
  funext k
  simp only [xorAt]
  by_cases h1 : i ≤ k.val
  · by_cases h2 : i + P.length ≤ k.val
    · rw [if_pos h1, if_pos h1, if_pos h2, List.getD_append_right _ _ _ _ (by omega),
        List.getD_eq_default P _ (by omega), Bool.xor_false, Nat.sub_sub]
    · rw [if_pos h1, if_pos h1, if_neg h2, List.getD_append _ _ _ _ (by omega), Bool.xor_false]
  · rw [if_neg h1, if_neg h1, if_neg (by omega), Bool.xor_false, Bool.xor_false]

theorem xorAt_nil (S : State b) (i : ℕ) : xorAt S i [] = S := by
  funext k
  simp [xorAt]

/-- Bits that do not fill the block. -/
theorem stream_within {S : State b} {i : ℕ} {P : List Bool} (h : i + P.length < r) :
    stream f r (S, i) P = (xorAt S i P, i + P.length) := by
  induction P generalizing S i with
  | nil => rw [stream, List.foldl_nil, xorAt_nil, List.length_nil, Nat.add_zero]
  | cons bit P ih =>
    rw [List.length_cons] at h
    have hstep : absorbBit f r (S, i) bit = (xorAt S i [bit], i + 1) := if_neg (by dsimp only; omega)
    calc stream f r (S, i) (bit :: P) = stream f r (xorAt S i [bit], i + 1) P := by
          rw [stream, List.foldl_cons, hstep]
          rfl
      _ = (xorAt (xorAt S i [bit]) (i + 1) P, i + 1 + P.length) := ih (by omega)
      _ = (xorAt S i (bit :: P), i + (bit :: P).length) := by
          rw [show bit :: P = [bit] ++ P from rfl, xorAt_append, List.length_append, List.length_singleton,
            Nat.add_assoc]

/-- **Bits that fill it.** -/
theorem stream_block {S : State b} {i : ℕ} {P : List Bool} (h : i + P.length = r) (hP : P ≠ []) :
    stream f r (S, i) P = (f (xorAt S i P), 0) := by
  obtain ⟨P, bit, rfl⟩ := List.eq_nil_or_concat P |>.resolve_left hP
  rw [List.concat_eq_append] at h ⊢
  rw [List.length_append, List.length_singleton] at h
  have hlast : absorbBit f r (xorAt S i P, i + P.length) bit = (f (xorAt (xorAt S i P) (i + P.length) [bit]), 0) :=
    if_pos (by dsimp only; omega)
  calc stream f r (S, i) (P ++ [bit]) = absorbBit f r (stream f r (S, i) P) bit := stream_append ..
    _ = (f (xorAt S i (P ++ [bit])), 0) := by rw [stream_within (by omega), hlast, xorAt_append]

/-- Where the next bit goes after some bits more. -/
theorem stream_snd (hr : 0 < r) {S : Partial b} (hS : S.2 < r) (P : List Bool) :
    (stream f r S P).2 = (S.2 + P.length) % r := by
  induction P generalizing S with
  | nil => exact (Nat.mod_eq_of_lt hS).symm
  | cons bit P ih =>
    rw [stream, List.foldl_cons, List.length_cons, Nat.add_comm P.length 1, ← Nat.add_assoc]
    by_cases hfull : S.2 + 1 = r
    · rw [absorbBit, if_pos hfull, hfull, Nat.add_mod_left, ← Nat.zero_add P.length]
      exact (ih hr).trans (by rw [Nat.zero_add])
    · rw [absorbBit, if_neg hfull]
      exact ih (Nat.lt_of_le_of_ne hS hfull)

/-- Blocks before a place are those of what is before it. -/
theorem block_take {P : List Bool} {n i : ℕ} (hi : i < n) : block r (P.take (r * n)) i = block r P i := by
  have hle : r * i + r ≤ r * n := by
    calc r * i + r = r * (i + 1) := (Nat.mul_succ r i).symm
      _ ≤ r * n := Nat.mul_le_mul_left r hi
  rw [block, List.drop_take, List.take_take, Nat.min_eq_left (by omega), block]

/-- **Whole blocks**, bit by bit. -/
theorem stream_eq_absorb (hr : 0 < r) {S : State b} {P : List Bool} {n : ℕ} (h : P.length = r * n) :
    stream f r (S, 0) P = (absorb f r S P n, 0) := by
  induction n generalizing P with
  | zero =>
    obtain rfl : P = [] := List.eq_nil_of_length_eq_zero (by simpa using h)
    rfl
  | succ n ih =>
    have hlen : (P.take (r * n)).length = r * n := by
      rw [List.length_take, h, Nat.min_eq_left (Nat.mul_le_mul_left r (Nat.le_succ n))]
    have hrest : (P.drop (r * n)).length = r := by rw [List.length_drop, h, Nat.mul_succ, Nat.add_sub_cancel_left]
    have hfirst : absorb f r S (P.take (r * n)) n = absorb f r S P n :=
      List.foldl_ext _ _ _ fun S i hi => by rw [block_take (List.mem_range.mp hi)]
    have hlast : absorb f r S P (n + 1) = f (xorAt (absorb f r S P n) 0 (P.drop (r * n))) := by
      rw [absorb, List.range_succ, List.foldl_append, List.foldl_cons, List.foldl_nil, block,
        List.take_of_length_le (Nat.le_of_eq hrest)]
      rfl
    calc stream f r (S, 0) P = stream f r (stream f r (S, 0) (P.take (r * n))) (P.drop (r * n)) := by
          rw [← stream_append, List.take_append_drop]
      _ = stream f r (absorb f r S P n, 0) (P.drop (r * n)) := by rw [ih hlen, hfirst]
      _ = (absorb f r S P (n + 1), 0) := by
          rw [stream_block (by omega) (List.ne_nil_of_length_pos (by omega)), hlast]

/-! ### The end of a message -/

theorem length_pad (x m : ℕ) : (pad x m).length = (x - (m + 2) % x) % x + 2 := by
  simp [pad]

/-- A padded message consists of whole blocks. -/
theorem dvd_length_pad {x : ℕ} (hx : 0 < x) (m : ℕ) : x ∣ m + (pad x m).length := by
  have hlt : (m + 2) % x < x := Nat.mod_lt _ hx
  have hsum := Nat.div_add_mod (m + 2) x
  rw [length_pad]
  rcases Nat.eq_zero_or_pos ((m + 2) % x) with h0 | hpos
  · rw [h0, Nat.sub_zero, Nat.mod_self, Nat.zero_add]
    exact Nat.dvd_of_mod_eq_zero h0
  · rw [Nat.mod_eq_of_lt (by omega : x - (m + 2) % x < x)]
    exact ⟨(m + 2) / x + 1, by rw [Nat.mul_succ]; omega⟩

/-- **A sponge that has taken the message bit by bit**, and its padding. -/
theorem sponge_eq_squeeze {S : State b} (hr : 0 < r) {N : List Bool} (d : ℕ)
    (h : stream f r (fun _ => false, 0) (N ++ pad r N.length) = (S, 0)) : sponge f r N d = squeeze f r S d := by
  obtain ⟨n, hn⟩ := dvd_length_pad hr N.length
  have hlen : (N ++ pad r N.length).length = r * n := by rw [List.length_append, hn]
  rw [stream_eq_absorb hr hlen] at h
  rw [sponge, hlen, Nat.mul_div_cancel_left n hr, (Prod.mk.inj h).1]

theorem length_trunc (n : ℕ) (S : State b) : (trunc n S).length = min n b := by
  rw [trunc, List.length_take, List.length_ofFn]

/-- An output that fits into one block. -/
theorem squeeze_of_le {S : State b} {d : ℕ} (hd : d ≤ r) (hr : r ≤ b) : squeeze f r S d = trunc d S := by
  have hfirst : ∃ rest, ((List.range (d / r + 1)).flatMap fun k => trunc r (f^[k] S)) = trunc r S ++ rest := by
    rw [List.range_succ_eq_map, List.flatMap_cons]
    exact ⟨_, rfl⟩
  obtain ⟨rest, hrest⟩ := hfirst
  have hlen : (trunc r S).length = r := by rw [length_trunc, Nat.min_eq_left hr]
  rw [squeeze, hrest, List.take_append_of_le_length (by omega), trunc, List.take_take, Nat.min_eq_left hd, trunc]

end Sponge

end Sanctum
