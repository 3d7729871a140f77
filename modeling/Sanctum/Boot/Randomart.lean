import Sanctum.Machine.Memory
import Mathlib.Data.List.Basic
import Mathlib.Data.Int.Order.Basic
import Mathlib.Tactic.SplitIfs

/-!
# Pictures of keys

`randomart.c`: a picture of some bytes, to be compared by eye. A bishop walks over a board of 17 by 9 squares, one
diagonal step for every two bits, and stays within the board; squares are drawn the darker the more often he has come
to them.

There are symbols for up to 14 visits, and two more for the start and the end. The code does not check that a number
of visits has a symbol: what it draws then is whatever follows the table of symbols in memory (`beyond`). Nor does it
check the number of bytes, which is a `size_t`, while it counts them in an `unsigned int`.

## What is proved

* `randomart_spec` — of less than `2 ^ 32` bytes there is a picture: the walk never leaves the board, and the picture
  takes 201 bytes: nine lines, the lower edge, and the null.
* `randomart_eq_none` — of more bytes there is none: the walk does not come to an end.
* `randomart_reads_table_iff` — which pictures do not depend on what follows the table.
-/

namespace Sanctum

namespace Randomart

/-! ### The code -/

/-- `XLIM`. -/
def xlim : ℕ := 17

/-- `YLIM`. -/
def ylim : ℕ := 9

/-- `symbols`: ` .o+=*BOX@%&#/^SE`. -/
def symbols : List Byte :=
  [0x20, 0x2E, 0x6F, 0x2B, 0x3D, 0x2A, 0x42, 0x4F, 0x58, 0x40, 0x25, 0x26, 0x23, 0x2F, 0x5E, 0x53, 0x45]

/-- Where a step leads, before it is kept within the board. -/
def target (x0 y0 : ℤ) (direction : ℕ) : ℤ × ℤ :=
  match direction with
  | 0 => (x0 - 1, y0 - 1)
  | 1 => (x0 + 1, y0 - 1)
  | 2 => (x0 - 1, y0 + 1)
  | 3 => (x0 + 1, y0 + 1)
  | _ => (x0, y0)

/-- A coordinate is kept within the board. -/
def limit (x : ℤ) (lim : ℕ) : ℤ := if x < 0 then 0 else if x ≥ lim then lim - 1 else x

/-- `new_position`: the new position, and whether it is another one. -/
def newPosition (pos : Byte) (direction : ℕ) : Byte × Bool :=
  let p := target (pos.toNat % xlim : ℕ) (pos.toNat / xlim : ℕ) direction
  let newpos := BitVec.ofInt 8 (limit p.2 ylim * xlim + limit p.1 xlim)
  if newpos = pos then (pos, false) else (newpos, true)

/-- The squares. -/
abbrev Board := Vector (BitVec 16) (xlim * ylim)

/-- `array[pos] = f(array[pos])`. There is no such element beyond the board. -/
def Board.modify (array : Board) (pos : ℕ) (f : BitVec 16 → BitVec 16) : Option Board :=
  if h : pos < xlim * ylim then some (array.set pos (f array[pos])) else none

/-- One step of the walk. -/
def walkStep (s : Byte × Board) (direction : ℕ) : Option (Byte × Board) := do
  let p := newPosition s.1 direction
  if p.2 then
    return (p.1, ← s.2.modify p.1.toNat (· + 1))
  else
    return (p.1, s.2)

/-- The steps for a byte: `temp & 3`, four times, and `temp >>= 2`. -/
def directions (byte : Byte) : List ℕ := (List.range 4).map fun i => ((byte >>> (2 * i)) &&& 3).toNat

/-- The loop of `drunken_walk` over the bytes, `n` rounds of it at most. `idx` is 32 bits wide. -/
def walkBytes (input : List Byte) : ℕ → BitVec 32 → Byte × Board → Option (Byte × Board)
  | 0, _, _ => none
  | n + 1, idx, s =>
    if idx.toNat < input.length then do
      walkBytes input n (idx + 1) (← (directions (input.getD idx.toNat 0)).foldlM walkStep s)
    else some s

/-- `drunken_walk`, on an empty board. -/
def drunkenWalk (input : List Byte) : Option Board := do
  let s ← walkBytes input (2 ^ 32) 0 (76, Vector.replicate (xlim * ylim) 0)
  let array ← s.2.modify s.1.toNat fun _ => 16
  array.modify 76 fun _ => 15

/-- `symbols[i]`, with what follows the table. -/
def symbol (beyond : ℕ → Byte) (i : BitVec 16) : Byte := symbols.getD i.toNat (beyond i.toNat)

/-- A line of the picture. -/
def line (beyond : ℕ → Byte) (array : Board) (i : ℕ) : List Byte :=
  [0x7C] ++ (List.range xlim).map (fun j => symbol beyond (array.toList.getD (j + xlim * i) 0)) ++ [0x7C, 0x0A]

/-- `+-----------------+` and a new line. -/
def edge : List Byte := [0x2B] ++ List.replicate 17 0x2D ++ [0x2B, 0x0A]

/-- `randomart`: what is written to `out_str`. -/
def randomart (beyond : ℕ → Byte) (input : List Byte) : Option (List Byte) := do
  let array ← drunkenWalk input
  return (List.range ylim).flatMap (line beyond array) ++ edge ++ [0]

/-! ### The walk stays on the board -/

theorem limit_spec (x : ℤ) {lim : ℕ} (hlim : 0 < lim) : 0 ≤ limit x lim ∧ limit x lim < lim := by
  unfold limit
  split_ifs <;> omega

theorem newPosition_lt {pos : Byte} (h : pos.toNat < xlim * ylim) (direction : ℕ) :
    (newPosition pos direction).1.toNat < xlim * ylim := by
  obtain ⟨p, hp⟩ : ∃ p, target (pos.toNat % xlim : ℕ) (pos.toNat / xlim : ℕ) direction = p := ⟨_, rfl⟩
  have hx := limit_spec p.1 (by decide : 0 < xlim)
  have hy := limit_spec p.2 (by decide : 0 < ylim)
  rw [newPosition, hp]
  split_ifs
  · exact h
  · simp only [xlim, ylim] at hx hy ⊢
    rw [BitVec.toNat_ofInt, Int.emod_eq_of_lt (by omega) (by push_cast; omega)]
    omega

/-- The squares a walk comes to, one after the other. -/
def path (pos : Byte) : List ℕ → List ℕ
  | [] => []
  | d :: ds =>
    let p := newPosition pos d
    if p.2 then p.1.toNat :: path p.1 ds else path p.1 ds

/-- Where it ends. -/
def finish (pos : Byte) (ds : List ℕ) : Byte := ds.foldl (fun pos d => (newPosition pos d).1) pos

theorem finish_lt {pos : Byte} (h : pos.toNat < xlim * ylim) (ds : List ℕ) :
    (finish pos ds).toNat < xlim * ylim := by
  induction ds generalizing pos with
  | nil => exact h
  | cons d ds ih => exact ih (newPosition_lt h d)

/-- An element of the board after it, or another one, has been changed. -/
theorem Board.modify_spec (array : Board) {pos : ℕ} (hpos : pos < xlim * ylim) (f : BitVec 16 → BitVec 16) :
    ∃ array', array.modify pos f = some array' ∧
      ∀ i (hi : i < xlim * ylim), array'[i] = if i = pos then f array[pos] else array[i] := by
  refine ⟨_, dif_pos hpos, fun i hi => ?_⟩
  rw [Vector.getElem_set]
  by_cases hip : i = pos
  · rw [if_pos hip, if_pos hip.symm]
  · rw [if_neg hip, if_neg (Ne.symm hip)]

/-- **A walk stays on the board**, and every square counts how often it has been come to. -/
theorem walk_spec {pos : Byte} (h : pos.toNat < xlim * ylim) (array : Board) (ds : List ℕ) :
    ∃ array', ds.foldlM walkStep (pos, array) = some (finish pos ds, array') ∧
      ∀ i (hi : i < xlim * ylim), array'[i] = array[i] + BitVec.ofNat 16 ((path pos ds).count i) := by
  induction ds generalizing pos array with
  | nil => exact ⟨array, rfl, fun i hi => (BitVec.add_zero _).symm⟩
  | cons d ds ih =>
    have hlt := newPosition_lt h d
    rw [List.foldlM_cons, walkStep, path, finish, List.foldl_cons, ← finish]
    by_cases hupd : (newPosition pos d).2 = true
    · obtain ⟨array₁, h₁, hget⟩ := array.modify_spec hlt (· + 1)
      obtain ⟨array₂, h₂, hcount⟩ := ih hlt array₁
      refine ⟨array₂, ?_, fun i hi => ?_⟩
      · simp only [if_pos hupd, h₁, Option.bind_eq_bind, Option.bind_some, Option.pure_def]
        exact h₂
      · rw [if_pos hupd, List.count_cons, hcount i hi, hget i hi]
        by_cases hi' : i = (newPosition pos d).1.toNat
        · subst hi'
          rw [if_pos rfl, if_pos (beq_self_eq_true _), BitVec.add_assoc, BitVec.ofNat_add, BitVec.add_comm 1]
          rfl
        · rw [if_neg hi', if_neg (by simpa using Ne.symm hi'), Nat.add_zero]
    · obtain ⟨array₂, h₂, hcount⟩ := ih hlt array
      refine ⟨array₂, ?_, fun i hi => ?_⟩
      · simp only [if_neg hupd, Option.bind_eq_bind, Option.bind_some, Option.pure_def]
        exact h₂
      · rw [if_neg hupd]
        exact hcount i hi

/-- The walk over the bytes from `idx` on. -/
theorem walkBytes_eq {input : List Byte} (hlen : input.length < 2 ^ 32) {n : ℕ} {idx : BitVec 32}
    (hidx : idx.toNat ≤ input.length) (hn : input.length - idx.toNat < n) (s : Byte × Board) :
    walkBytes input n idx s = ((input.drop idx.toNat).flatMap directions).foldlM walkStep s := by
  induction n generalizing idx s with
  | zero => exact absurd hn (Nat.not_lt_zero _)
  | succ n ih =>
    rw [walkBytes]
    split
    · next hlt =>
      have h1 : (1 : BitVec 32).toNat = 1 := rfl
      have hnext : (idx + 1).toNat = idx.toNat + 1 := by
        rw [BitVec.toNat_add, h1, Nat.mod_eq_of_lt (by omega)]
      rw [List.drop_eq_getElem_cons hlt, List.flatMap_cons, List.foldlM_append, List.getD_eq_getElem _ _ hlt]
      refine bind_congr fun s' => ?_
      rw [ih (by omega) (by omega), hnext]
    · next hge =>
      rw [List.drop_eq_nil_of_le (not_lt.mp hge)]
      rfl

/-- If `idx` never gets to the end, the walk goes on. -/
theorem walkBytes_eq_none {input : List Byte} (hlen : 2 ^ 32 ≤ input.length) (n : ℕ) (idx : BitVec 32)
    (s : Byte × Board) : walkBytes input n idx s = none := by
  induction n generalizing idx s with
  | zero => rfl
  | succ n ih =>
    rw [walkBytes, if_pos (idx.isLt.trans_le hlen)]
    simp only [ih, Option.bind_eq_bind, Option.bind_fun_none]

/-- How often a walk comes to a square. -/
def visits (input : List Byte) (i : ℕ) : ℕ := (path 76 (input.flatMap directions)).count i

/-- Where it ends. -/
def exit (input : List Byte) : ℕ := (finish 76 (input.flatMap directions)).toNat

/-- The squares in the end. -/
theorem drunkenWalk_spec {input : List Byte} (hlen : input.length < 2 ^ 32) :
    ∃ array, drunkenWalk input = some array ∧ ∀ i (hi : i < xlim * ylim),
      array[i] = if i = 76 then 15 else if i = exit input then 16 else BitVec.ofNat 16 (visits input i) := by
  obtain ⟨array, hwalk, hcount⟩ :=
    walk_spec (by decide : (76 : Byte).toNat < xlim * ylim) (Vector.replicate (xlim * ylim) 0)
      (input.flatMap directions)
  have hend := finish_lt (by decide : (76 : Byte).toNat < xlim * ylim) (input.flatMap directions)
  obtain ⟨array₁, h₁, hget₁⟩ := array.modify_spec hend fun _ => 16
  obtain ⟨array₂, h₂, hget₂⟩ := array₁.modify_spec (by decide : 76 < xlim * ylim) fun _ => 15
  refine ⟨array₂, ?_, fun i hi => ?_⟩
  · have hall : input.drop (0 : BitVec 32).toNat = input := rfl
    rw [drunkenWalk, walkBytes_eq hlen (Nat.zero_le _) hlen, hall, hwalk]
    simp only [Option.bind_eq_bind, Option.bind_some, h₁, h₂]
  · have hzero : (Vector.replicate (xlim * ylim) (0 : BitVec 16))[i] = 0#16 := Vector.getElem_replicate hi
    rw [hget₂ i hi, hget₁ i hi, hcount i hi, hzero, BitVec.zero_add]
    rfl

theorem length_line (beyond : ℕ → Byte) (array : Board) (i : ℕ) : (line beyond array i).length = 20 := by
  simp [line, xlim]

/-- **The size of a picture.** -/
theorem randomart_spec (beyond : ℕ → Byte) {input : List Byte} (hlen : input.length < 2 ^ 32) :
    ∃ out, randomart beyond input = some out ∧ out.length = 201 := by
  obtain ⟨array, harray, -⟩ := drunkenWalk_spec hlen
  refine ⟨_, by rw [randomart, harray]; rfl, ?_⟩
  simp [List.length_flatMap, length_line, ylim, edge]

/-- There is none of four gigabytes or more. -/
theorem randomart_eq_none (beyond : ℕ → Byte) {input : List Byte} (hlen : 2 ^ 32 ≤ input.length) :
    randomart beyond input = none := by
  rw [randomart, drunkenWalk, walkBytes_eq_none hlen]
  rfl

/-! ### The table of symbols -/

theorem symbol_of_le {i : BitVec 16} (h : i.toNat ≤ 16) (b b' : ℕ → Byte) : symbol b i = symbol b' i := by
  rw [symbol, symbol, List.getD_eq_getElem _ _ (Nat.lt_succ_of_le h), List.getD_eq_getElem _ _ (Nat.lt_succ_of_le h)]

theorem symbol_of_lt {i : BitVec 16} (h : 16 < i.toNat) (b : ℕ → Byte) : symbol b i = b i.toNat :=
  List.getD_eq_default _ _ h

/-- Pieces of the same lengths. -/
theorem eq_of_flatMap_eq {α β : Type} {f g : α → List β} {xs : List α} (hlen : ∀ x, (f x).length = (g x).length)
    (h : xs.flatMap f = xs.flatMap g) : ∀ x ∈ xs, f x = g x := by
  induction xs with
  | nil => exact fun x hx => nomatch hx
  | cons x xs ih =>
    rw [List.flatMap_cons, List.flatMap_cons] at h
    obtain ⟨hx, hxs⟩ := List.append_inj h (hlen x)
    intro y hy
    rcases List.mem_cons.mp hy with rfl | hy
    · exact hx
    · exact ih hxs y hy

/-- Two pictures of the same board are the same if all squares are. -/
theorem picture_eq_iff (b b' : ℕ → Byte) (array : Board) :
    (List.range ylim).flatMap (line b array) ++ edge ++ [0] = (List.range ylim).flatMap (line b' array) ++ edge ++
    [0] ↔
      ∀ i (hi : i < xlim * ylim), symbol b array[i] = symbol b' array[i] := by
  have hsquare : ∀ i (hi : i < xlim * ylim), array.toList.getD i 0 = array[i] := fun i hi => by
    rw [List.getD_eq_getElem _ _ (by simpa using hi)]
    rfl
  rw [List.append_left_inj, List.append_left_inj]
  constructor
  · intro h i hi
    have hline := eq_of_flatMap_eq (fun x => by rw [length_line, length_line]) h (i / xlim)
      (List.mem_range.mpr (by simp only [xlim, ylim] at hi ⊢; omega))
    rw [line, line, List.append_left_inj, List.append_right_inj] at hline
    have hsym := List.map_inj_left.mp hline (i % xlim) (List.mem_range.mpr (Nat.mod_lt _ (by decide)))
    rwa [Nat.mod_add_div, hsquare i hi] at hsym
  · intro h
    refine List.flatMap_congr fun y hy => ?_
    rw [line, line, List.append_left_inj, List.append_right_inj]
    refine List.map_congr_left fun x hx => ?_
    have hi : x + xlim * y < xlim * ylim := by
      have := List.mem_range.mp hx
      have := List.mem_range.mp hy
      simp only [xlim, ylim] at *
      omega
    rw [hsquare _ hi]
    exact h _ hi

/-- **Which pictures are drawn with the symbols of the table only**: those of walks that come to no square, but for
the first and the last one, more than 16 times. -/
theorem randomart_reads_table_iff {input : List Byte} (hlen : input.length < 2 ^ 32) :
    (∀ b b', randomart b input = randomart b' input) ↔
      ∀ i < xlim * ylim, i ≠ 76 → i ≠ exit input → visits input i % 2 ^ 16 ≤ 16 := by
  obtain ⟨array, harray, hget⟩ := drunkenWalk_spec hlen
  have hart : ∀ b, randomart b input = some ((List.range ylim).flatMap (line b array) ++ edge ++ [0]) := fun b => by
    rw [randomart, harray]
    rfl
  simp only [hart, Option.some.injEq, picture_eq_iff]
  constructor
  · intro h i hi h76 hexit
    by_contra hgt
    have hcount : (array[i]).toNat = visits input i % 2 ^ 16 := by
      rw [hget i hi, if_neg h76, if_neg hexit, BitVec.toNat_ofNat]
    have hsame := h (fun _ => 0) (fun _ => 1) i hi
    rw [symbol_of_lt (by omega), symbol_of_lt (by omega)] at hsame
    exact absurd hsame (by decide)
  · intro h b b' i hi
    refine symbol_of_le ?_ b b'
    rw [hget i hi]
    split_ifs with h76 hexit
    · decide
    · decide
    · rw [BitVec.toNat_ofNat]
      exact h i hi h76 hexit

theorem length_path_le (pos : Byte) (ds : List ℕ) : (path pos ds).length ≤ ds.length := by
  induction ds generalizing pos with
  | nil => exact le_rfl
  | cons d ds ih =>
    rw [path]
    split
    · exact Nat.succ_le_succ (ih _)
    · exact Nat.le_succ_of_le (ih _)

/-- A square is not come to more often than there are steps. -/
theorem visits_le (input : List Byte) (i : ℕ) : visits input i ≤ input.length * 4 := by
  have hsteps : (input.flatMap directions).length = input.length * 4 := by
    simp [List.length_flatMap, directions]
  exact List.count_le_length.trans ((length_path_le _ _).trans hsteps.le)

/-- The picture of four bytes. -/
theorem randomart_reads_table_four :
    randomart (fun _ => 0) [0x1B, 0x2C, 0xFF, 0] = randomart (fun _ => 1) [0x1B, 0x2C, 0xFF, 0] :=
  (randomart_reads_table_iff (by decide)).mpr
    (fun i _ _ _ => (Nat.mod_le _ _).trans (visits_le [0x1B, 0x2C, 0xFF, 0] i)) _ _

end Randomart

end Sanctum
