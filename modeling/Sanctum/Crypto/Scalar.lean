import Sanctum.Crypto.Limbs
import Sanctum.Machine.Memory
import Mathlib.Data.Nat.Digits.Defs
import Mathlib.Data.ZMod.Basic
import Mathlib.Tactic.IntervalCases

/-!
# Arithmetic modulo the order of the group

The functions of `sc.c`. A number of 512 bits, or a product of two numbers of 256 bits and a third one, is taken
apart into limbs of 21 bits, and is brought below `l = 2 ^ 252 + 27742317777372353535851937790883648493` by folding
the high limbs into the low ones (`2 ^ 252` is congruent to a number of 125 bits) and by carrying. What is left is
written as 32 bytes.

The code is a list of lines that fold and carry; the limbs are `int64_t`, and a line that overflows has no result.

## What is proved

* `scReduce_refines`, `scMuladd_refines` — no line overflows for any input, and the result is what is computed in the
  ring modulo `l`, as the one number below `l`.
-/

namespace Sanctum

namespace Ed25519

open Limbs

/-! ### Numbers in bytes -/

/-- The number in some bytes, the lowest first. -/
def number (s : List Byte) : ℕ := Nat.ofDigits 256 (s.map BitVec.toNat)

theorem number_cons (byte : Byte) (s : List Byte) : number (byte :: s) = byte.toNat + 256 * number s := by
  rw [number, List.map_cons, Nat.ofDigits_cons]
  rfl

theorem number_lt (s : List Byte) : number s < 256 ^ s.length := by
  rw [number, ← s.length_map BitVec.toNat]
  refine Nat.ofDigits_lt_base_pow_length (by decide) fun d hd => ?_
  obtain ⟨byte, -, rfl⟩ := List.mem_map.mp hd
  exact byte.isLt

/-- The bytes from a place on. -/
theorem number_drop (s : List Byte) (k : ℕ) : number (s.drop k) = number s / 256 ^ k := by
  induction s generalizing k with
  | nil => simp [number]
  | cons byte s ih =>
    cases k with
    | zero => simp
    | succ k =>
      have hbyte : byte.toNat / 256 = 0 := Nat.div_eq_of_lt byte.isLt
      rw [List.drop_succ_cons, ih, number_cons, Nat.pow_succ', ← Nat.div_div_eq_div_mul,
        Nat.add_mul_div_left _ _ (by decide), hbyte, Nat.zero_add]

theorem digit_number (s : List Byte) (k : ℕ) : number s / 256 ^ k % 256 = (s.getD k 0).toNat := by
  have hget : s.getD k 0 = (s.drop k).getD 0 0 := by
    simp [List.getD_eq_getElem?_getD]
  rw [← number_drop, hget]
  cases s.drop k with
  | nil => rfl
  | cons byte t =>
    have hlt := byte.isLt
    rw [number_cons, Nat.add_mul_mod_self_left, Nat.mod_eq_of_lt hlt]
    rfl

/-- The first bytes, and one more. -/
theorem number_mod_succ (s : List Byte) (k : ℕ) :
    number s % 256 ^ (k + 1) = number s % 256 ^ k + 256 ^ k * (s.getD k 0).toNat := by
  rw [Nat.mod_pow_succ, digit_number]

/-- The digits of a number. -/
theorem number_digits (V n : ℕ) :
    number ((List.range n).map fun k => BitVec.ofNat 8 (V / 256 ^ k)) = V % 256 ^ n := by
  induction n with
  | zero => simp [number, Nat.mod_one]
  | succ n ih =>
    have happend : ∀ s t : List Byte, number (s ++ t) = number s + 256 ^ s.length * number t := by
      intro s t
      rw [number, List.map_append, Nat.ofDigits_append, List.length_map]
      rfl
    rw [List.range_succ, List.map_append, happend, ih, List.length_map, List.length_range, Nat.mod_pow_succ]
    simp [number]

/-! ### The code -/

/-- The order of the group. -/
def l : ℕ := 2 ^ 252 + 27742317777372353535851937790883648493

/-- `load_3`. -/
def load3 (s : List Byte) : Word :=
  (s.getD 0 0).setWidth 64 ||| (s.getD 1 0).setWidth 64 <<< 8 ||| (s.getD 2 0).setWidth 64 <<< 16

/-- `load_4`. -/
def load4 (s : List Byte) : Word :=
  (s.getD 0 0).setWidth 64 ||| (s.getD 1 0).setWidth 64 <<< 8 ||| (s.getD 2 0).setWidth 64 <<< 16 |||
    (s.getD 3 0).setWidth 64 <<< 24

/-- `2097151`. -/
def mask : Word := 2097151

/-- `s0`, .., `s23` of `sc_reduce`. -/
def reduceLimbs (s : List Byte) : List Word :=
  [mask &&& load3 s,
    mask &&& load4 (s.drop 2) >>> 5,
    mask &&& load3 (s.drop 5) >>> 2,
    mask &&& load4 (s.drop 7) >>> 7,
    mask &&& load4 (s.drop 10) >>> 4,
    mask &&& load3 (s.drop 13) >>> 1,
    mask &&& load4 (s.drop 15) >>> 6,
    mask &&& load3 (s.drop 18) >>> 3,
    mask &&& load3 (s.drop 21),
    mask &&& load4 (s.drop 23) >>> 5,
    mask &&& load3 (s.drop 26) >>> 2,
    mask &&& load4 (s.drop 28) >>> 7,
    mask &&& load4 (s.drop 31) >>> 4,
    mask &&& load3 (s.drop 34) >>> 1,
    mask &&& load4 (s.drop 36) >>> 6,
    mask &&& load3 (s.drop 39) >>> 3,
    mask &&& load3 (s.drop 42),
    mask &&& load4 (s.drop 44) >>> 5,
    mask &&& load3 (s.drop 47) >>> 2,
    mask &&& load4 (s.drop 49) >>> 7,
    mask &&& load4 (s.drop 52) >>> 4,
    mask &&& load3 (s.drop 55) >>> 1,
    mask &&& load4 (s.drop 57) >>> 6,
    load4 (s.drop 60) >>> 3]

/-- `a0`, .., `a11` of `sc_muladd`; the limbs of `b` and `c` are read in the same way. -/
def muladdLimbs (a : List Byte) : List Word :=
  [mask &&& load3 a,
    mask &&& load4 (a.drop 2) >>> 5,
    mask &&& load3 (a.drop 5) >>> 2,
    mask &&& load4 (a.drop 7) >>> 7,
    mask &&& load4 (a.drop 10) >>> 4,
    mask &&& load3 (a.drop 13) >>> 1,
    mask &&& load4 (a.drop 15) >>> 6,
    mask &&& load3 (a.drop 18) >>> 3,
    mask &&& load3 (a.drop 21),
    mask &&& load4 (a.drop 23) >>> 5,
    mask &&& load3 (a.drop 26) >>> 2,
    load4 (a.drop 28) >>> 7]

/-- Words as `int64_t`. -/
def ofWords (ws : List Word) : Digits := fun i => (ws.getD i 0).toInt

/-- `sⱼ += sᵢ * 666643; ..; sᵢ = 0`, where `i = j + 12`. -/
def fold (j : ℕ) : Op :=
  .fold (j + 12)
    [(j, 666643), (j + 1, 470296), (j + 2, 654183), (j + 3, -997805), (j + 4, 136657), (j + 5, -683901)]

/-- `carryᵢ = (sᵢ + (1 << 20)) >> 21; sᵢ₊₁ += carryᵢ; sᵢ -= carryᵢ << 21`. -/
def round (i : ℕ) : Op := .carry i (i + 1) 21 (1 <<< 20) 1

/-- `carryᵢ = sᵢ >> 21; sᵢ₊₁ += carryᵢ; sᵢ -= carryᵢ << 21`. -/
def carry (i : ℕ) : Op := .carry i (i + 1) 21 0 1

/-- The lines of `sc_reduce` up to the last time that limb 12 is folded. -/
def reduceOps : List Op :=
  [fold 11, fold 10, fold 9, fold 8, fold 7, fold 6,
    round 6, round 8, round 10, round 12, round 14, round 16,
    round 7, round 9, round 11, round 13, round 15,
    fold 5, fold 4, fold 3, fold 2, fold 1, fold 0,
    round 0, round 2, round 4, round 6, round 8, round 10,
    round 1, round 3, round 5, round 7, round 9, round 11,
    fold 0,
    carry 0, carry 1, carry 2, carry 3, carry 4, carry 5, carry 6, carry 7, carry 8, carry 9, carry 10, carry 11]

/-- Its lines from there on. -/
def lastOps : List Op :=
  [fold 0,
    carry 0, carry 1, carry 2, carry 3, carry 4, carry 5, carry 6, carry 7, carry 8, carry 9, carry 10]

/-- The lines by which `sc_muladd` begins. It goes on as `sc_reduce` does. -/
def muladdOps : List Op :=
  [round 0, round 2, round 4, round 6, round 8, round 10, round 12, round 14, round 16, round 18, round 20, round 22,
    round 1, round 3, round 5, round 7, round 9, round 11, round 13, round 15, round 17, round 19, round 21]

/-- `(unsigned char) (sᵢ >> k)`. -/
def low (s : Digits) (i k : ℕ) : Byte := ((BitVec.ofInt 64 (s i)).sshiftRight k).setWidth 8

/-- `(unsigned char) ((sᵢ >> k) | (sᵢ₊₁ << k'))`. -/
def both (s : Digits) (i k k' : ℕ) : Byte :=
  ((BitVec.ofInt 64 (s i)).sshiftRight k ||| BitVec.ofInt 64 (s (i + 1)) <<< k').setWidth 8

/-- `s[0]`, .., `s[31]`. -/
def scBytes (s : Digits) : List Byte :=
  [low s 0 0, low s 0 8, both s 0 16 5, low s 1 3, low s 1 11, both s 1 19 2, low s 2 6, both s 2 14 7,
    low s 3 1, low s 3 9, both s 3 17 4, low s 4 4, low s 4 12, both s 4 20 1, low s 5 7, both s 5 15 6,
    low s 6 2, low s 6 10, both s 6 18 3, low s 7 5, low s 7 13, low s 8 0, low s 8 8, both s 8 16 5,
    low s 9 3, low s 9 11, both s 9 19 2, low s 10 6, both s 10 14 7, low s 11 1, low s 11 9, low s 11 17]

/-- `sc_reduce`. The 64 bytes are overwritten in place. -/
def scReduce (s : List Byte) : Option (List Byte) := do
  let t ← run (reduceOps ++ lastOps) (ofWords (reduceLimbs s))
  return scBytes t ++ s.drop 32

/-- `cₖ + a₀ * bₖ + .. + aₖ * b₀`, of limbs below the twelfth. -/
def column (a b c : Digits) (k : ℕ) : Option ℤ :=
  ((List.range 12).filter fun i => i ≤ k ∧ k < i + 12).foldlM
    (fun v i => do
      let p ← checked (a i * b (k - i))
      checked (v + p))
    (c k)

/-- `sc_muladd`. -/
def scMuladd (a b c : List Byte) : Option (List Byte) := do
  let s ← (List.range 23).mapM
    (column (ofWords (muladdLimbs a)) (ofWords (muladdLimbs b)) (ofWords (muladdLimbs c)))
  let t ← run (muladdOps ++ (reduceOps ++ lastOps)) fun i => s.getD i 0
  return scBytes t

/-! ### Taking a number apart -/

theorem toNat_or_shift {x : Word} {k : ℕ} (hx : x.toNat < 2 ^ k) (byte : Byte) (hk : k + 8 ≤ 64) :
    (x ||| byte.setWidth 64 <<< k).toNat = x.toNat + 2 ^ k * byte.toNat := by
  have hbyte := byte.isLt
  have hfit : byte.toNat * 2 ^ k < 2 ^ 64 := by
    calc byte.toNat * 2 ^ k < 2 ^ 8 * 2 ^ k := Nat.mul_lt_mul_of_pos_right hbyte (Nat.two_pow_pos k)
      _ = 2 ^ (k + 8) := by rw [← Nat.pow_add, Nat.add_comm]
      _ ≤ 2 ^ 64 := Nat.pow_le_pow_right (by decide) hk
  rw [BitVec.toNat_or, BitVec.toNat_shiftLeft, BitVec.toNat_setWidth,
    Nat.mod_eq_of_lt (by omega : byte.toNat < 2 ^ 64),
    Nat.shiftLeft_eq, Nat.mod_eq_of_lt hfit, Nat.lor_comm, ← Nat.shiftLeft_eq, ← Nat.shiftLeft_add_eq_or_of_lt hx,
    Nat.shiftLeft_eq]
  ring

/-- The words of three bytes and of four. -/
theorem toNat_load3 (s : List Byte) : (load3 s).toNat = number s % 2 ^ 24 := by
  have h0 := (s.getD 0 0).isLt
  have h1 := (s.getD 1 0).isLt
  have hfirst : ((s.getD 0 0).setWidth 64).toNat = (s.getD 0 0).toNat := by
    rw [BitVec.toNat_setWidth, Nat.mod_eq_of_lt (by omega)]
  have hsecond := toNat_or_shift (x := (s.getD 0 0).setWidth 64) (by rw [hfirst]; exact h0) (s.getD 1 0)
    (by decide : 8 + 8 ≤ 64)
  have hthird := toNat_or_shift (x := (s.getD 0 0).setWidth 64 ||| (s.getD 1 0).setWidth 64 <<< 8)
    (by omega) (s.getD 2 0)
    (by decide : 16 + 8 ≤ 64)
  rw [load3, hthird, hsecond, hfirst, show (2 : ℕ) ^ 24 = 256 ^ (0 + 1 + 1 + 1) by decide, number_mod_succ,
    number_mod_succ, number_mod_succ, Nat.pow_zero, Nat.mod_one]
  omega

theorem toNat_load4 (s : List Byte) : (load4 s).toNat = number s % 2 ^ 32 := by
  have hlt : (load3 s).toNat < 2 ^ 24 := by
    rw [toNat_load3]
    exact Nat.mod_lt _ (by decide)
  have hfourth := toNat_or_shift hlt (s.getD 3 0) (by decide : 24 + 8 ≤ 64)
  rw [show load4 s = load3 s ||| (s.getD 3 0).setWidth 64 <<< 24 from rfl, hfourth, toNat_load3,
    show (2 : ℕ) ^ 24 = 256 ^ 3 by decide, ← number_mod_succ, show (256 : ℕ) ^ (3 + 1) = 2 ^ 32 by decide]

/-- Some bits of a word of bytes. -/
theorem toInt_mask {s : List Byte} {x : Word} {off m r i : ℕ} (hx : x.toNat = number (s.drop off) % 2 ^ m)
    (hr : r + 21 ≤ m) (hi : 8 * off + r = 21 * i) :
    (mask &&& x >>> r).toInt = (number s / 2 ^ (21 * i) % 2 ^ 21 : ℕ) := by
  have hnat : (mask &&& x >>> r).toNat = number s / 2 ^ (21 * i) % 2 ^ 21 := by
    obtain ⟨k, rfl⟩ := Nat.exists_eq_add_of_le hr
    have hdvd : 2 ^ 21 ∣ 2 ^ (21 + k) := Nat.pow_dvd_pow 2 (Nat.le_add_right ..)
    rw [BitVec.toNat_and, BitVec.toNat_ushiftRight, Nat.and_comm, show mask.toNat = 2 ^ 21 - 1 from rfl,
      Nat.and_two_pow_sub_one_eq_mod, Nat.shiftRight_eq_div_pow, hx, Nat.add_assoc, Nat.pow_add,
      Nat.mod_mul_right_div_self, Nat.mod_mod_of_dvd _ hdvd, number_drop, Nat.div_div_eq_div_mul, ← hi,
      show (256 : ℕ) = 2 ^ 8 by decide, ← Nat.pow_mul, ← Nat.pow_add]
  have hlt : number s / 2 ^ (21 * i) % 2 ^ 21 < 2 ^ 21 := Nat.mod_lt _ (by decide)
  rw [BitVec.toInt_eq_toNat_of_lt (by omega), hnat]

theorem limb_three (s : List Byte) (o r : ℕ) {i : ℕ} (hr : r + 21 ≤ 24) (hi : 8 * o + r = 21 * i) :
    (mask &&& load3 (s.drop o) >>> r).toInt = (number s / 2 ^ (21 * i) % 2 ^ 21 : ℕ) :=
  toInt_mask (toNat_load3 _) hr hi

theorem limb_four (s : List Byte) (o r : ℕ) {i : ℕ} (hr : r + 21 ≤ 32) (hi : 8 * o + r = 21 * i) :
    (mask &&& load4 (s.drop o) >>> r).toInt = (number s / 2 ^ (21 * i) % 2 ^ 21 : ℕ) :=
  toInt_mask (toNat_load4 _) hr hi

/-- A limb that begins with a byte. -/
theorem limb_whole (s : List Byte) (o : ℕ) {i : ℕ} (hi : 8 * o = 21 * i) :
    (mask &&& load3 (s.drop o)).toInt = (number s / 2 ^ (21 * i) % 2 ^ 21 : ℕ) := by
  rw [← BitVec.ushiftRight_zero (load3 (s.drop o))]
  exact limb_three s o 0 (by decide) hi

/-- The last limb is whatever is left. -/
theorem limb_last {s : List Byte} {off r i : ℕ} (hs : s.length ≤ off + 4) (hi : 8 * off + r = 21 * i) :
    (load4 (s.drop off) >>> r).toInt = (number s / 2 ^ (21 * i) : ℕ) := by
  have hlt : number (s.drop off) < 2 ^ 32 := by
    refine lt_of_lt_of_le (number_lt _) ?_
    rw [show (2 : ℕ) ^ 32 = 256 ^ 4 by decide, List.length_drop]
    exact Nat.pow_le_pow_right (by decide) (by omega)
  have hnat : (load4 (s.drop off) >>> r).toNat = number s / 2 ^ (21 * i) := by
    rw [BitVec.toNat_ushiftRight, Nat.shiftRight_eq_div_pow, toNat_load4, Nat.mod_eq_of_lt hlt, number_drop,
      Nat.div_div_eq_div_mul, ← hi, show (256 : ℕ) = 2 ^ 8 by decide, ← Nat.pow_mul, ← Nat.pow_add]
  have hle : (load4 (s.drop off) >>> r).toNat ≤ (load4 (s.drop off)).toNat := by
    rw [BitVec.toNat_ushiftRight, Nat.shiftRight_eq_div_pow]
    exact Nat.div_le_self ..
  rw [toNat_load4, Nat.mod_eq_of_lt hlt] at hle
  rw [BitVec.toInt_eq_toNat_of_lt (by omega), hnat]

/-- The weight of a limb. -/
def weight (i : ℕ) : ℤ := 2 ^ (21 * i)

theorem sum_limbs (N n : ℕ) : ∑ i ∈ Finset.range n, N / 2 ^ (21 * i) % 2 ^ 21 * 2 ^ (21 * i) = N % 2 ^ (21 * n) := by
  induction n with
  | zero => simp [Nat.mod_one]
  | succ n ih =>
    rw [Finset.sum_range_succ, ih, Nat.mul_succ, Nat.pow_add, Nat.mod_mul]
    ring

/-- Limbs of a number, the last one whatever is left, are the number. -/
theorem value_of_limbs {s : Digits} {N n : ℕ} (hlow : ∀ i < n, s i = (N / 2 ^ (21 * i) % 2 ^ 21 : ℕ))
    (hlast : s n = (N / 2 ^ (21 * n) : ℕ)) : value weight (n + 1) s = N := by
  have hsum : ∑ i ∈ Finset.range n, s i * weight i = (N % 2 ^ (21 * n) : ℕ) := by
    rw [← sum_limbs N n, Nat.cast_sum]
    refine Finset.sum_congr rfl fun i hi => ?_
    rw [hlow i (Finset.mem_range.mp hi), weight]
    push_cast
    ring
  rw [value, Finset.sum_range_succ, hsum, hlast, weight]
  have hmod := Nat.mod_add_div N (2 ^ (21 * n))
  have hcast : ((2 : ℤ) ^ (21 * n)) = (2 ^ (21 * n) : ℕ) := by push_cast; rfl
  rw [hcast, ← Nat.cast_mul, ← Nat.cast_add, Nat.mul_comm (_ / _), hmod]

theorem reduceLimbs_low (s : List Byte) {i : ℕ} (hi : i < 23) :
    ofWords (reduceLimbs s) i = (number s / 2 ^ (21 * i) % 2 ^ 21 : ℕ) := by
  interval_cases i
  · exact limb_whole s 0 rfl
  · exact limb_four s 2 5 (by decide) rfl
  · exact limb_three s 5 2 (by decide) rfl
  · exact limb_four s 7 7 (by decide) rfl
  · exact limb_four s 10 4 (by decide) rfl
  · exact limb_three s 13 1 (by decide) rfl
  · exact limb_four s 15 6 (by decide) rfl
  · exact limb_three s 18 3 (by decide) rfl
  · exact limb_whole s 21 rfl
  · exact limb_four s 23 5 (by decide) rfl
  · exact limb_three s 26 2 (by decide) rfl
  · exact limb_four s 28 7 (by decide) rfl
  · exact limb_four s 31 4 (by decide) rfl
  · exact limb_three s 34 1 (by decide) rfl
  · exact limb_four s 36 6 (by decide) rfl
  · exact limb_three s 39 3 (by decide) rfl
  · exact limb_whole s 42 rfl
  · exact limb_four s 44 5 (by decide) rfl
  · exact limb_three s 47 2 (by decide) rfl
  · exact limb_four s 49 7 (by decide) rfl
  · exact limb_four s 52 4 (by decide) rfl
  · exact limb_three s 55 1 (by decide) rfl
  · exact limb_four s 57 6 (by decide) rfl

theorem muladdLimbs_low (a : List Byte) {i : ℕ} (hi : i < 11) :
    ofWords (muladdLimbs a) i = (number a / 2 ^ (21 * i) % 2 ^ 21 : ℕ) := by
  rw [← reduceLimbs_low a (by omega : i < 23)]
  interval_cases i <;> rfl

/-! ### Putting it together -/

section Bytes

variable {t : Digits} {d : ℕ → ℕ} {V : ℕ}

/-- The limbs of a number, each but the last below the weight of the next. -/
structure Splits (t : Digits) (d : ℕ → ℕ) (V : ℕ) : Prop where
  cast : ∀ i < 12, t i = d i
  lt : ∀ i < 11, d i < 2 ^ 21
  last : d 11 < 2 ^ 24
  sum : V = ∑ i ∈ Finset.range 12, d i * 2 ^ (21 * i)

/-- What is above a place. -/
theorem Splits.div (h : Splits t d V) {i : ℕ} (hi : i < 12) :
    V / 2 ^ (21 * i) = ∑ j ∈ Finset.range (12 - i), d (i + j) * 2 ^ (21 * j) := by
  induction i with
  | zero => simpa using h.sum
  | succ i ih =>
    obtain ⟨n, hn⟩ : ∃ n, 12 - i = n + 1 := ⟨11 - i, by omega⟩
    have hrest : ∑ j ∈ Finset.range n, d (i + (j + 1)) * 2 ^ (21 * (j + 1)) =
        2 ^ 21 * ∑ j ∈ Finset.range n, d (i + 1 + j) * 2 ^ (21 * j) := by
      rw [Finset.mul_sum]
      refine Finset.sum_congr rfl fun j _ => ?_
      rw [Nat.mul_succ, Nat.pow_add, show i + (j + 1) = i + 1 + j by omega]
      ring
    have hlt := h.lt i (by omega)
    rw [Nat.mul_succ, Nat.pow_add, ← Nat.div_div_eq_div_mul, ih (by omega), hn, Finset.sum_range_succ', hrest,
      show 12 - (i + 1) = n by omega]
    simp only [Nat.add_zero, Nat.mul_zero, Nat.pow_zero, Nat.mul_one]
    omega

theorem Splits.next (h : Splits t d V) {i : ℕ} (hi : i < 11) :
    V / 2 ^ (21 * i) = d i + 2 ^ 21 * (V / 2 ^ (21 * (i + 1))) := by
  have hlt := h.lt i hi
  have hlow : V / 2 ^ (21 * i) % 2 ^ 21 = d i := by
    rw [h.div (by omega), show 12 - i = (11 - i) + 1 by omega, Finset.sum_range_succ']
    have hdvd : 2 ^ 21 ∣ ∑ j ∈ Finset.range (11 - i), d (i + (j + 1)) * 2 ^ (21 * (j + 1)) := by
      refine Finset.dvd_sum fun j _ => Dvd.dvd.mul_left ?_ _
      exact Nat.pow_dvd_pow 2 (by omega)
    rw [Nat.add_mod, Nat.mod_eq_zero_of_dvd hdvd]
    simp only [Nat.add_zero, Nat.mul_zero, Nat.pow_zero, Nat.mul_one, Nat.zero_add, Nat.mod_mod]
    exact Nat.mod_eq_of_lt hlt
  rw [Nat.mul_succ, Nat.pow_add, ← Nat.div_div_eq_div_mul, ← hlow]
  exact (Nat.mod_add_div _ _).symm

theorem Splits.top (h : Splits t d V) : V / 2 ^ (21 * 11) = d 11 := by
  simpa using h.div (by decide : 11 < 12)

theorem Splits.lt_bound (h : Splits t d V) (i : ℕ) (hi : i < 12) : d i < 2 ^ 24 := by
  rcases Nat.lt_or_ge i 11 with hlow | hlast
  · exact (h.lt i hlow).trans (by decide)
  · obtain rfl : i = 11 := by omega
    exact h.last

/-- A limb as a word. -/
theorem Splits.word (h : Splits t d V) {i : ℕ} (hi : i < 12) (k : ℕ) :
    (BitVec.ofInt 64 (t i)).sshiftRight k = BitVec.ofNat 64 (d i / 2 ^ k) := by
  have hlt := h.lt_bound i hi
  have hmsb : (BitVec.ofNat 64 (d i)).msb = false := by
    rw [BitVec.msb_eq_false_iff_two_mul_lt, BitVec.toNat_ofNat]
    omega
  rw [h.cast i hi, BitVec.ofInt_natCast, BitVec.sshiftRight_eq_of_msb_false hmsb]
  refine BitVec.eq_of_toNat_eq ?_
  have hle : d i / 2 ^ k ≤ d i := Nat.div_le_self ..
  rw [BitVec.toNat_ushiftRight, BitVec.toNat_ofNat, BitVec.toNat_ofNat, Nat.mod_eq_of_lt (by omega),
    Nat.mod_eq_of_lt (by omega), Nat.shiftRight_eq_div_pow]

/-- A byte of the number is within one limb, -/
theorem low_spec (h : Splits t d V) {i r k : ℕ} (hi : i < 12) (hr : r + 8 ≤ 21 ∨ i = 11) (hk : 8 * k = 21 * i + r) :
    low t i r = BitVec.ofNat 8 (V / 256 ^ k) := by
  have hbyte : V / 256 ^ k = V / 2 ^ (21 * i) / 2 ^ r := by
    rw [show (256 : ℕ) = 2 ^ 8 by decide, ← Nat.pow_mul, hk, Nat.pow_add, Nat.div_div_eq_div_mul]
  refine BitVec.eq_of_toNat_eq ?_
  rw [low, h.word hi, BitVec.toNat_setWidth, BitVec.toNat_ofNat, BitVec.toNat_ofNat, hbyte,
    Nat.mod_mod_of_dvd _ (Nat.pow_dvd_pow 2 (by decide : 8 ≤ 64))]
  by_cases htop : i = 11
  · subst htop
    rw [h.top]
  · obtain ⟨n, hn⟩ : ∃ n, 21 = r + (8 + n) := ⟨13 - r, by omega⟩
    rw [h.next (by omega), hn, Nat.pow_add 2 r, Nat.mul_assoc, Nat.add_mul_div_left _ _ (Nat.two_pow_pos r),
      Nat.pow_add 2 8, Nat.mul_assoc, Nat.add_mul_mod_self_left]

/-- or within two. -/
theorem both_spec (h : Splits t d V) {i r r' k : ℕ} (hi : i < 11) (hr : 13 < r) (hr' : r + r' = 21)
    (hk : 8 * k = 21 * i + r) : both t i r r' = BitVec.ofNat 8 (V / 256 ^ k) := by
  have hbyte : V / 256 ^ k = V / 2 ^ (21 * i) / 2 ^ r := by
    rw [show (256 : ℕ) = 2 ^ 8 by decide, ← Nat.pow_mul, hk, Nat.pow_add, Nat.div_div_eq_div_mul]
  have hlt := h.lt i hi
  have hnext := h.lt_bound (i + 1) (by omega)
  have hquot : d i / 2 ^ r < 2 ^ r' := by
    rw [Nat.div_lt_iff_lt_mul (Nat.two_pow_pos r), ← Nat.pow_add, Nat.add_comm, hr']
    exact hlt
  have hfit : d (i + 1) * 2 ^ r' < 2 ^ 64 := by
    calc d (i + 1) * 2 ^ r' < 2 ^ 24 * 2 ^ r' := Nat.mul_lt_mul_of_pos_right hnext (Nat.two_pow_pos r')
      _ = 2 ^ (24 + r') := (Nat.pow_add ..).symm
      _ ≤ 2 ^ 64 := Nat.pow_le_pow_right (by decide) (by omega)
  have hor : ((BitVec.ofInt 64 (t i)).sshiftRight r ||| BitVec.ofInt 64 (t (i + 1)) <<< r').toNat =
      d i / 2 ^ r + 2 ^ r' * d (i + 1) := by
    have hle : d i / 2 ^ r ≤ d i := Nat.div_le_self ..
    rw [h.word (by omega), h.cast _ (by omega), BitVec.ofInt_natCast, BitVec.toNat_or, BitVec.toNat_shiftLeft,
      BitVec.toNat_ofNat, BitVec.toNat_ofNat, Nat.mod_eq_of_lt (by omega),
      Nat.mod_eq_of_lt (by omega : d (i + 1) < 2 ^ 64), Nat.shiftLeft_eq, Nat.mod_eq_of_lt hfit, Nat.lor_comm,
      ← Nat.shiftLeft_eq, ← Nat.shiftLeft_add_eq_or_of_lt hquot, Nat.shiftLeft_eq]
    ring
  have hpow : 2 ^ 21 = 2 ^ r * 2 ^ r' := by rw [← Nat.pow_add, hr']
  refine BitVec.eq_of_toNat_eq ?_
  rw [both, BitVec.toNat_setWidth, BitVec.toNat_ofNat, hor, hbyte, h.next hi, hpow, Nat.mul_assoc,
    Nat.add_mul_div_left _ _ (Nat.two_pow_pos r)]
  by_cases htop : i + 1 = 11
  · rw [htop, h.top]
  · rw [h.next (i := i + 1) (by omega), Nat.mul_add, ← Nat.add_assoc, ← Nat.mul_assoc, ← Nat.pow_add,
      Nat.add_mod _ (2 ^ (r' + 21) * _), Nat.mod_eq_zero_of_dvd
        (Dvd.dvd.mul_right (Nat.pow_dvd_pow 2 (by omega : 8 ≤ r' + 21)) _)]
    exact (Nat.mod_mod _ _).symm

/-- **The bytes of the limbs** are those of the number. -/
theorem number_scBytes (h : Splits t d V) (hV : V < 256 ^ 32) : number (scBytes t) = V := by
  have hbytes : scBytes t = (List.range 32).map fun k => BitVec.ofNat 8 (V / 256 ^ k) := by
    refine List.ext_getElem (by simp [scBytes]) fun k hk _ => ?_
    rw [List.getElem_map, List.getElem_range]
    have hk : k < 32 := hk
    interval_cases k
    all_goals first
      | exact low_spec h (by decide) (by decide) rfl
      | exact both_spec h (by decide) (by decide) rfl rfl
  rw [hbytes, number_digits, Nat.mod_eq_of_lt hV]

end Bytes

/-! ### The number itself -/

/-- The bounds of the limbs before limb 12 is folded for the last time, -/
def lastBounds : Bounds := List.replicate 12 (0, 2 ^ 21 - 1) ++ [(-1, 0)] ++ List.replicate 11 (0, 0)

/-- and in the end. -/
def endBounds : Bounds := List.replicate 11 (0, 2 ^ 21 - 1) ++ [(-1, 2 ^ 21)] ++ List.replicate 12 (0, 0)

theorem bound_lastOps : boundRun lastOps lastBounds = some endBounds := by
  decide

theorem keeps_muladdOps : ∀ op ∈ muladdOps ++ reduceOps, op.Keeps weight 24 l := by
  decide +kernel

theorem keeps_reduceOps : ∀ op ∈ reduceOps, op.Keeps weight 24 l := fun op hop =>
  keeps_muladdOps op (List.mem_append_right _ hop)

/-- Carrying does not change the number. -/
theorem keeps_carries : ∀ op ∈ lastOps.tail, op.Keeps weight 24 0 := by
  decide

/-- Limbs of 21 bits. -/
theorem value_lt {t : Digits} {n : ℕ} (ht : ∀ i < n, 0 ≤ t i ∧ t i ≤ 2 ^ 21 - 1) :
    0 ≤ value weight n t ∧ value weight n t < 2 ^ (21 * n) := by
  induction n with
  | zero => simp [value]
  | succ n ih =>
    obtain ⟨hlo, hhi⟩ := ih fun i hi => ht i (by omega)
    obtain ⟨hn0, hn1⟩ := ht n (by omega)
    have hpos : (0 : ℤ) < 2 ^ (21 * n) := by positivity
    have hsucc : value weight (n + 1) t = value weight n t + t n * 2 ^ (21 * n) := Finset.sum_range_succ ..
    have hle : t n * 2 ^ (21 * n) ≤ (2 ^ 21 - 1) * 2 ^ (21 * n) := mul_le_mul_of_nonneg_right hn1 hpos.le
    rw [hsucc, Nat.mul_succ, pow_add]
    constructor
    · positivity
    · linarith

section Last

variable {t : Digits}

/-- The number before the last lines: limb 12 is zero or minus one. -/
theorem value_before (h : lastBounds.Has t) : value weight 24 t = value weight 12 t + t 12 * 2 ^ 252 ∧
    (0 ≤ value weight 12 t ∧ value weight 12 t < 2 ^ 252) ∧ (t 12 = -1 ∨ t 12 = 0) := by
  have hzero : ∀ i < 24, 13 ≤ i → t i = 0 := fun i hi h13 =>
    have hat := h.of_at ((by decide : ∀ i < 24, 13 ≤ i → lastBounds.at i = (0, 0)) i hi h13)
    le_antisymm hat.2 hat.1
  have hlow := value_lt (t := t) (n := 12) fun i hi =>
    h.of_at ((by decide : ∀ i < 12, lastBounds.at i = (0, 2 ^ 21 - 1)) i hi)
  obtain ⟨hlo, hhi⟩ := h.of_at (by decide : lastBounds.at 12 = (-1, 0))
  exact ⟨(value_of_zero (by decide) hzero).trans (Finset.sum_range_succ ..), hlow, by dsimp only at hlo hhi; omega⟩

theorem cast_l : (l : ℤ) = 2 ^ 252 + 27742317777372353535851937790883648493 := by
  decide

/-- **The last lines** take `l` away as often as limb 12 says. -/
theorem value_lastOps {t' : Digits} (h : run lastOps t = some t') :
    value weight 24 t' = value weight 24 t - t 12 * l := by
  rw [run, show lastOps = fold 0 :: lastOps.tail from rfl, List.foldlM_cons] at h
  obtain ⟨t₁, hfold, hcarries⟩ := Option.bind_eq_some_iff.mp h
  have hcarry := Int.zero_dvd.mp (value_run keeps_carries hcarries)
  have hvalue := value_fold (w := weight) (n := 24) (by decide) (by decide) hfold
  have hterms : (([(0, 666643), (0 + 1, 470296), (0 + 2, 654183), (0 + 3, -997805), (0 + 4, 136657),
      (0 + 5, -683901)] : List (ℕ × ℤ)).map fun t => t.2 * weight t.1).sum - weight (0 + 12) = -l := by
    decide
  rw [hterms] at hvalue
  linarith

/-- In the end the limbs are those of the number, if it is not negative. -/
theorem splits_end (h : endBounds.Has t) (hnonneg : 0 ≤ value weight 24 t) :
    Splits t (fun i => (t i).toNat) (value weight 24 t).toNat := by
  have hzero : ∀ i < 24, 12 ≤ i → t i = 0 := fun i hi h12 =>
    have hat := h.of_at ((by decide : ∀ i < 24, 12 ≤ i → endBounds.at i = (0, 0)) i hi h12)
    le_antisymm hat.2 hat.1
  have hlimb := fun i hi => h.of_at ((by decide : ∀ i < 11, endBounds.at i = (0, 2 ^ 21 - 1)) i hi)
  have hsum := value_of_zero (w := weight) (by decide : 12 ≤ 24) hzero
  have hlow : 0 ≤ value weight 11 t ∧ value weight 11 t < 2 ^ 231 := value_lt hlimb
  have hsplit : value weight 12 t = value weight 11 t + t 11 * 2 ^ 231 := Finset.sum_range_succ ..
  obtain ⟨-, htop⟩ := h.of_at (by decide : endBounds.at 11 = (-1, 2 ^ 21))
  have htop' : 0 ≤ t 11 := by
    by_contra hneg
    have hneg : t 11 * 2 ^ 231 ≤ -1 * 2 ^ 231 := mul_le_mul_of_nonneg_right (by omega) (by positivity)
    linarith
  have hcast : ∀ i < 12, t i = (t i).toNat := by
    intro i hi
    rcases Nat.lt_or_ge i 11 with hi | hlast
    · exact (Int.toNat_of_nonneg (hlimb i hi).1).symm
    · obtain rfl : i = 11 := by omega
      exact (Int.toNat_of_nonneg htop').symm
  refine ⟨hcast, fun i hi => ?_, ?_, ?_⟩
  · have := hlimb i hi
    omega
  · dsimp only at htop
    omega
  · zify
    rw [Int.toNat_of_nonneg hnonneg, hsum]
    refine Finset.sum_congr rfl fun i hi => ?_
    rw [← hcast i (Finset.mem_range.mp hi)]
    rfl

/-- **What is written in the end** is the remainder. -/
theorem lastOps_spec (h : lastBounds.Has t) : ∃ t', run lastOps t = some t' ∧
    (number (scBytes t') : ℤ) = value weight 24 t % l := by
  obtain ⟨t', hrun, hB⟩ := run_of_bound h bound_lastOps
  obtain ⟨hsplit, ⟨hlo, hhi⟩, h12⟩ := value_before h
  have hafter := value_lastOps hrun
  have hrange : 0 ≤ value weight 24 t' ∧ value weight 24 t' < l := by
    have hl := cast_l
    rw [hafter, hsplit]
    rcases h12 with h12 | h12 <;> rw [h12] <;> constructor <;> linarith
  have hlt : (value weight 24 t').toNat < 256 ^ 32 := by
    have hl := hrange.2.trans (by decide : (l : ℤ) < (256 ^ 32 : ℕ))
    omega
  refine ⟨t', hrun, ?_⟩
  rw [number_scBytes (splits_end hB hrange.1) hlt, Int.toNat_of_nonneg hrange.1,
    ← Int.emod_eq_of_lt hrange.1 hrange.2, hafter, Int.sub_mul_emod_self_right]

end Last

/-! ### The functions -/

/-- The bounds of the limbs of 512 bits. -/
def reduceBounds : Bounds := List.replicate 23 (0, 2 ^ 21 - 1) ++ [(0, 2 ^ 29 - 1)]

/-- The bounds of a product and a sum. -/
def productBounds : Bounds := List.replicate 23 (0, 2 ^ 54) ++ [(0, 0)]

theorem bound_reduceOps : boundRun reduceOps reduceBounds = some lastBounds := by
  decide

theorem bound_muladdOps : boundRun (muladdOps ++ reduceOps) productBounds = some lastBounds := by
  decide

theorem length_scBytes (t : Digits) : (scBytes t).length = 32 := rfl

/-- Lines that lead to the last ones. -/
theorem run_spec {ops : List Op} {B : Bounds} {s : Digits} {N : ℕ} (h : B.Has s)
    (hB : boundRun ops B = some lastBounds)
    (hops : ∀ op ∈ ops, op.Keeps weight 24 l) (hN : value weight 24 s = N) :
    ∃ t, run (ops ++ lastOps) s = some t ∧ number (scBytes t) = N % l := by
  obtain ⟨t, hrun, ht⟩ := run_of_bound h hB
  obtain ⟨t', hlast, hnum⟩ := lastOps_spec ht
  refine ⟨t', by rw [run_append, hrun]; exact hlast, ?_⟩
  have hmod : value weight 24 t % l = value weight 24 s % l :=
    Int.emod_eq_emod_iff_emod_sub_eq_zero.mpr (Int.emod_eq_zero_of_dvd (value_run hops hrun))
  rw [hmod, hN] at hnum
  exact_mod_cast hnum

/-- **A number of 512 bits is reduced**: the first half of the bytes is the remainder, the second half is left as it
is. -/
theorem scReduce_spec (s : List Byte) (hs : s.length = 64) :
    ∃ r, scReduce s = some (r ++ s.drop 32) ∧ r.length = 32 ∧
    number r = number s % l := by
  have hlimb : ∀ i < 23, ofWords (reduceLimbs s) i = (number s / 2 ^ (21 * i) % 2 ^ 21 : ℕ) :=
    fun i hi => reduceLimbs_low s hi
  have hlast : ofWords (reduceLimbs s) 23 = (number s / 2 ^ (21 * 23) : ℕ) := limb_last (by omega) rfl
  have hlt : number s / 2 ^ (21 * 23) < 2 ^ 29 := by
    rw [Nat.div_lt_iff_lt_mul (by positivity)]
    refine (number_lt s).trans_le ?_
    rw [hs, show (256 : ℕ) = 2 ^ 8 by decide, ← Nat.pow_mul]
    exact (Nat.pow_le_pow_right (by decide) (by decide : 8 * 64 ≤ 29 + 21 * 23)).trans (Nat.pow_add ..).le
  have hbounds : reduceBounds.Has (ofWords (reduceLimbs s)) := by
    intro i
    rcases Nat.lt_trichotomy i 23 with hi | rfl | hi
    · have hmod : number s / 2 ^ (21 * i) % 2 ^ 21 < 2 ^ 21 := Nat.mod_lt _ (by decide)
      rw [(by decide : ∀ i < 23, reduceBounds.at i = (0, 2 ^ 21 - 1)) i hi, hlimb i hi, Interval.Has]
      dsimp only
      omega
    · rw [(by decide : reduceBounds.at 23 = (0, 2 ^ 29 - 1)), hlast, Interval.Has]
      dsimp only
      omega
    · rw [Bounds.at, List.getD_eq_default _ _ (by rwa [reduceBounds]), ofWords,
        List.getD_eq_default _ _ (by rwa [reduceLimbs])]
      exact ⟨le_rfl, le_rfl⟩
  obtain ⟨t, hrun, hnum⟩ := run_spec hbounds bound_reduceOps keeps_reduceOps (value_of_limbs hlimb hlast)
  exact ⟨scBytes t, by rw [scReduce, hrun]; rfl, length_scBytes t, hnum⟩

/-! ### Products -/

/-- A sum of numbers that fit. -/
theorem sum_checked {g : ℤ → ℕ → Option ℤ} {p : ℕ → ℤ} {L : List ℕ} {v : ℤ}
    (hg : ∀ i ∈ L, ∀ v, g v i = checked (v + p i)) (hp : ∀ i ∈ L, 0 ≤ p i ∧ p i ≤ 2 ^ 50) (hv : 0 ≤ v)
    (hsum : v + L.length * 2 ^ 50 < 2 ^ 63) : L.foldlM g v = some (v + (L.map p).sum) := by
  induction L generalizing v with
  | nil => simp
  | cons i L ih =>
    obtain ⟨hlo, hhi⟩ := hp i (List.mem_cons_self ..)
    rw [List.length_cons] at hsum
    push_cast at hsum
    have hpos : (0 : ℤ) ≤ L.length * 2 ^ 50 := by positivity
    have hrest := ih (v := v + p i) (fun i hi => hg i (List.mem_cons_of_mem _ hi))
      (fun i hi => hp i (List.mem_cons_of_mem _ hi)) (by linarith) (by linarith)
    rw [List.foldlM_cons, hg i (List.mem_cons_self ..), checked_of_fits ⟨by linarith, by linarith⟩, List.map_cons,
      List.sum_cons, ← add_assoc]
    exact hrest

/-- The limbs that are multiplied for limb `k` of a product. -/
def factors (k : ℕ) : Finset ℕ := (Finset.range 12).filter fun i => i ≤ k ∧ k < i + 12

/-- A number of 256 bits. -/
structure Factor (a : Digits) : Prop where
  limb : ∀ i, 0 ≤ a i ∧ a i ≤ 2 ^ 25
  zero : ∀ i, 12 ≤ i → a i = 0

section Product

variable {a b c : Digits}

theorem column_spec (ha : Factor a) (hb : Factor b) (hc : Factor c) (k : ℕ) :
    column a b c k = some (c k + ∑ i ∈ factors k, a i * b (k - i)) ∧
      0 ≤ c k + ∑ i ∈ factors k, a i * b (k - i) ∧ c k + ∑ i ∈ factors k, a i * b (k - i) ≤ 2 ^ 54 := by
  have hprod : ∀ i, 0 ≤ a i * b (k - i) ∧ a i * b (k - i) ≤ 2 ^ 50 := fun i =>
    ⟨mul_nonneg (ha.limb i).1 (hb.limb _).1,
      (mul_le_mul (ha.limb i).2 (hb.limb _).2 (hb.limb _).1 (by norm_num)).trans (by norm_num)⟩
  obtain ⟨hc0, hc1⟩ := hc.limb k
  have hcard : (factors k).card ≤ 12 := (Finset.card_filter_le ..).trans (by simp)
  have hlen : (((List.range 12).filter fun i => i ≤ k ∧ k < i + 12).length : ℤ) ≤ 12 := by
    exact_mod_cast hcard
  have hsum0 : 0 ≤ ∑ i ∈ factors k, a i * b (k - i) := Finset.sum_nonneg fun i _ => (hprod i).1
  have hsum1 : ∑ i ∈ factors k, a i * b (k - i) ≤ (factors k).card • 2 ^ 50 :=
    Finset.sum_le_card_nsmul _ _ _ fun i _ => (hprod i).2
  have hsum2 : ((factors k).card • 2 ^ 50 : ℤ) ≤ 12 * 2 ^ 50 := by
    rw [nsmul_eq_mul]
    exact mul_le_mul_of_nonneg_right (by exact_mod_cast hcard) (by norm_num)
  refine ⟨?_, by linarith, by linarith⟩
  refine (sum_checked (p := fun i => a i * b (k - i)) (fun i _ v => ?_) (fun i _ => hprod i) hc0
    (by linarith)).trans rfl
  rw [checked_of_fits ⟨by linarith [hprod i], by linarith [hprod i]⟩]
  rfl

theorem weight_add (i j : ℕ) : weight (i + j) = weight i * weight j := by
  rw [weight, Nat.mul_add, pow_add]
  rfl

/-- **The limbs of a product**, one column for each. -/
theorem value_product : ∑ k ∈ Finset.range 23, (∑ i ∈ factors k, a i * b (k - i)) * weight k =
    value weight 12 a * value weight 12 b := by
  have hswap : ∀ k i, k ∈ Finset.range 23 ∧ i ∈ factors k ↔ k ∈ Finset.Ico i (i + 12) ∧ i ∈ Finset.range 12 := by
    intro k i
    simp only [factors, Finset.mem_filter, Finset.mem_range, Finset.mem_Ico]
    omega
  calc ∑ k ∈ Finset.range 23, (∑ i ∈ factors k, a i * b (k - i)) * weight k
      = ∑ k ∈ Finset.range 23, ∑ i ∈ factors k, a i * b (k - i) * weight k :=
        Finset.sum_congr rfl fun k _ => Finset.sum_mul ..
    _ = ∑ i ∈ Finset.range 12, ∑ k ∈ Finset.Ico i (i + 12), a i * b (k - i) * weight k := Finset.sum_comm' hswap
    _ = ∑ i ∈ Finset.range 12, ∑ j ∈ Finset.range 12, a i * weight i * (b j * weight j) := by
        refine Finset.sum_congr rfl fun i _ => ?_
        rw [Finset.sum_Ico_eq_sum_range, Nat.add_sub_cancel_left]
        refine Finset.sum_congr rfl fun j _ => ?_
        rw [Nat.add_sub_cancel_left, weight_add]
        ring
    _ = value weight 12 a * value weight 12 b := (Finset.sum_mul_sum ..).symm

end Product

theorem muladdLimbs_spec (a : List Byte) (ha : a.length = 32) :
    Factor (ofWords (muladdLimbs a)) ∧ value weight 12 (ofWords (muladdLimbs a)) = number a := by
  have hlimb : ∀ i < 11, ofWords (muladdLimbs a) i = (number a / 2 ^ (21 * i) % 2 ^ 21 : ℕ) :=
    fun i hi => muladdLimbs_low a hi
  have hlast : ofWords (muladdLimbs a) 11 = (number a / 2 ^ (21 * 11) : ℕ) := limb_last (by omega) rfl
  have hlt : number a / 2 ^ (21 * 11) < 2 ^ 25 := by
    rw [Nat.div_lt_iff_lt_mul (by positivity)]
    exact (number_lt a).trans_le (by rw [ha]; decide)
  have hzero : ∀ i, 12 ≤ i → ofWords (muladdLimbs a) i = 0 := by
    intro i hi
    rw [ofWords, List.getD_eq_default _ _ (by rwa [muladdLimbs])]
    rfl
  refine ⟨⟨fun i => ?_, hzero⟩, value_of_limbs hlimb hlast⟩
  rcases Nat.lt_trichotomy i 11 with hi | rfl | hi
  · have hmod : number a / 2 ^ (21 * i) % 2 ^ 21 < 2 ^ 21 := Nat.mod_lt _ (by decide)
    rw [hlimb i hi]
    omega
  · rw [hlast]
    omega
  · rw [hzero i hi]
    norm_num

/-- **A product and a sum**: the bytes of the remainder, whatever the three numbers are. -/
theorem scMuladd_spec (a b c : List Byte) (ha : a.length = 32) (hb : b.length = 32) (hc : c.length = 32) :
    ∃ s, scMuladd a b c = some s ∧ s.length = 32 ∧ number s = (number a * number b + number c) % l := by
  obtain ⟨hfa, hva⟩ := muladdLimbs_spec a ha
  obtain ⟨hfb, hvb⟩ := muladdLimbs_spec b hb
  obtain ⟨hfc, hvc⟩ := muladdLimbs_spec c hc
  set A := ofWords (muladdLimbs a)
  set B := ofWords (muladdLimbs b)
  set C := ofWords (muladdLimbs c)
  set v := fun k => C k + ∑ i ∈ factors k, A i * B (k - i) with hv
  have hcolumns : (List.range 23).mapM (column A B C) = some ((List.range 23).map v) := by
    rw [show column A B C = fun k => some (v k) from funext fun k => (column_spec hfa hfb hfc k).1]
    exact List.mapM_pure
  set s : Digits := fun i => ((List.range 23).map v).getD i 0 with hs
  have hlow : ∀ i < 23, s i = v i := by
    intro i hi
    change ((List.range 23).map v).getD i 0 = v i
    rw [List.getD_eq_getElem?_getD]
    simp [hi]
  have hhigh : ∀ i, 23 ≤ i → s i = 0 := fun i hi => List.getD_eq_default _ _ (by simpa using hi)
  have hbounds : productBounds.Has s := by
    intro i
    rcases Nat.lt_or_ge i 23 with hi | hi
    · rw [(by decide : ∀ i < 23, productBounds.at i = (0, 2 ^ 54)) i hi, hlow i hi]
      exact (column_spec hfa hfb hfc i).2
    · rw [hhigh i hi, Bounds.at]
      rcases Nat.eq_or_lt_of_le hi with rfl | hi
      · exact ⟨le_rfl, le_rfl⟩
      · rw [List.getD_eq_default _ _ (by rwa [productBounds])]
        exact ⟨le_rfl, le_rfl⟩
  have hvalue : value weight 24 s = (number a * number b + number c : ℕ) := by
    have hsum : value weight 23 s = ∑ k ∈ Finset.range 23, v k * weight k :=
      Finset.sum_congr rfl fun k hk => by rw [hlow k (Finset.mem_range.mp hk)]
    have hadd : value weight 23 C = value weight 12 C := value_of_zero (by decide) fun i _ hi => hfc.zero i hi
    rw [value_of_zero (by decide : 23 ≤ 24) fun i _ hi => hhigh i hi, hsum]
    simp only [hv, add_mul, Finset.sum_add_distrib]
    rw [value_product, hva, hvb, ← value, hadd, hvc]
    push_cast
    ring
  obtain ⟨t, hrun, hnum⟩ := run_spec hbounds bound_muladdOps keeps_muladdOps hvalue
  refine ⟨scBytes t, ?_, length_scBytes t, hnum⟩
  rw [scMuladd, hcolumns, ← List.append_assoc]
  simp only [Option.bind_eq_bind, Option.bind_some]
  rw [hrun]
  rfl

/-! ### The ring -/

/-- **`sc_reduce`** takes a number into the ring modulo `l`. -/
theorem scReduce_refines (s : List Byte) (hs : s.length = 64) :
    ∃ r, scReduce s = some (r ++ s.drop 32) ∧ r.length = 32 ∧
    number r < l ∧ (number r : ZMod l) = number s := by
  obtain ⟨r, hr, hlen, hnum⟩ := scReduce_spec s hs
  refine ⟨r, hr, hlen, ?_, ?_⟩
  · rw [hnum]
    exact Nat.mod_lt _ (by decide)
  · rw [hnum, ZMod.natCast_mod]

/-- The greatest number there is. -/
theorem scReduce_refines_ones : ∃ r, scReduce (List.replicate 64 0xFF) = some (r ++ List.replicate 32 0xFF) ∧
    r.length = 32 ∧ number r < l ∧ (number r : ZMod l) = number (List.replicate 64 0xFF) :=
  scReduce_refines (List.replicate 64 0xFF) (by decide)

/-- **`sc_muladd`** multiplies and adds in the ring modulo `l`. -/
theorem scMuladd_refines (a b c : List Byte) (ha : a.length = 32) (hb : b.length = 32) (hc : c.length = 32) :
    ∃ s, scMuladd a b c = some s ∧ s.length = 32 ∧ number s < l ∧
      (number s : ZMod l) = number a * number b + number c := by
  obtain ⟨s, hs, hlen, hnum⟩ := scMuladd_spec a b c ha hb hc
  refine ⟨s, hs, hlen, ?_, ?_⟩
  · rw [hnum]
    exact Nat.mod_lt _ (by decide)
  · rw [hnum, ZMod.natCast_mod, Nat.cast_add, Nat.cast_mul]

/-- The greatest numbers there are. -/
theorem scMuladd_refines_ones : ∃ s, scMuladd (List.replicate 32 0xFF) (List.replicate 32 0xFF)
    (List.replicate 32 0xFF) = some s ∧ s.length = 32 ∧ number s < l ∧ (number s : ZMod l) =
      number (List.replicate 32 0xFF) * number (List.replicate 32 0xFF) + number (List.replicate 32 0xFF) :=
  scMuladd_refines _ _ _ (by decide) (by decide) (by decide)

end Ed25519

end Sanctum
