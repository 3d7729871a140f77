import Sanctum.Util.Strings

/-!
# Formatted output

`vsnprintf` of `snprintf.c`. It counts the characters whether or not there is room for them, and writes
those for which there is. But the character of `%c` is taken from the arguments only if it is written. After a
`%c` for which there is no room, each conversion has the argument that was meant for the one before it, and
the characters that are counted may not be those of the output.

The buffer is an object of its own: what is written into it is a list of places and bytes, and strings are
read from memory as it is. `va_list` is a list of words, of which `va_arg` takes the next.

## What is proved

* `truncates_iff` — the output is cut off, and its whole length returned, exactly if the length is an `int`
  and as many characters are counted (`counted`), modulo 2^32.
* `not_truncates` — `ab%c%d` in a buffer of two bytes.
-/

namespace Sanctum

namespace Snprintf

/-! ### The code -/

/-- A character constant. -/
def chr (c : Char) : Byte := BitVec.ofNat 8 c.toNat

/-- The variables of `vsnprintf`. -/
structure Printer where
  /-- `pos`. -/
  pos : Word
  /-- What has been written into `out`, the last byte first. -/
  writes : List (Word × Byte)
  /-- `vl`. -/
  args : List Word
  /-- `format`. -/
  format : Bool
  /-- `longarg`. -/
  longarg : Bool

namespace Printer

/-- `if (++pos < n) out[pos-1] = c`. -/
def put (n : Word) (c : Byte) (st : Printer) : Printer :=
  { st with pos := st.pos + 1, writes := if st.pos + 1 < n then (st.pos, c) :: st.writes else st.writes }

/-- `va_arg`. -/
def vaArg (st : Printer) : Option (Word × Printer) :=
  match st.args with
  | [] => none
  | a :: args => some (a, { st with args := args })

/-- `longarg = false; format = false`. -/
def converted (st : Printer) : Printer := { st with longarg := false, format := false }

end Printer

/-- `longarg ? va_arg(vl, long) : va_arg(vl, int)`, of an argument. -/
def argNum (longarg : Bool) (a : Word) : Word := if longarg then a else (a.setWidth 32).signExtend 64

/-- `d < 10 ? '0'+d : 'a'+d-10`. -/
def hexDigit (d : Word) : Byte := if d < 10 then chr '0' + d.setWidth 8 else chr 'a' + d.setWidth 8 - 10

/-- The loop of `%x`. -/
def hexLoop (n num : Word) : ℕ → Printer → Printer
  | 0, st => st
  | i + 1, st => hexLoop n num i (st.put n (hexDigit (num.sshiftRight (4 * i) &&& 0xF)))

/-- `%x`. -/
def convertX (n : Word) (st : Printer) : Option Printer := do
  let (a, st) ← st.vaArg
  return (hexLoop n (argNum st.longarg a) (if st.longarg then 16 else 8) st).converted

/-- `for (long nn = num; nn /= 10; digits++)`. A `long` has at most nineteen digits. -/
def digitsLoop : ℕ → Word → ℕ → ℕ
  | 0, _, digits => digits
  | fuel + 1, nn, digits => if nn.sdiv 10 = 0 then digits else digitsLoop fuel (nn.sdiv 10) (digits + 1)

/-- `digits`. -/
def countDigits (num : Word) : ℕ := digitsLoop 20 num 1

/-- `'0' + (num % 10)`. -/
def decDigit (num : Word) : Byte := chr '0' + (num.srem 10).setWidth 8

/-- The second loop of `%d`, which writes the last digit first. -/
def decLoop (n pos : Word) : ℕ → Word → List (Word × Byte) → List (Word × Byte)
  | 0, _, writes => writes
  | i + 1, num, writes =>
    decLoop n pos i (num.sdiv 10)
      (if pos + BitVec.ofNat 64 i + 1 < n then (pos + BitVec.ofNat 64 i, decDigit num) :: writes else writes)

/-- The digits of `%d`. -/
def putDec (n num : Word) (st : Printer) : Printer :=
  { st with
    pos := st.pos + BitVec.ofNat 64 (countDigits num)
    writes := decLoop n st.pos (countDigits num) num st.writes }

/-- `%d`. -/
def convertD (n : Word) (st : Printer) : Option Printer := do
  let (a, st) ← st.vaArg
  let num := argNum st.longarg a
  return (if num.slt 0 then putDec n (-num) (st.put n (chr '-')) else putDec n num st).converted

/-- The loop of `%s`. There are `2 ^ 64` addresses to look at. -/
def strLoop (m : Memory) (n : Word) : ℕ → Word → Printer → Option Printer
  | 0, _, _ => none
  | k + 1, s2, st => if m s2 = 0 then some st else strLoop m n k (s2 + 1) (st.put n (m s2))

/-- `%s`. -/
def convertS (m : Memory) (n : Word) (st : Printer) : Option Printer := do
  let (s2, st) ← st.vaArg
  let st ← strLoop m n (2 ^ 64) s2 st
  return st.converted

/-- `%c`. -/
def convertC (n : Word) (st : Printer) : Option Printer :=
  if st.pos + 1 < n then do
    let (a, st) ← st.vaArg
    return (st.put n (a.setWidth 8)).converted
  else some { st with pos := st.pos + 1 }.converted

/-- One character of the format. -/
def step (m : Memory) (n : Word) (st : Printer) (c : Byte) : Option Printer :=
  if st.format then
    if c = chr 'l' then some { st with longarg := true }
    else if c = chr 'p' then convertX n (({ st with longarg := true }.put n (chr '0')).put n (chr 'x'))
    else if c = chr 'x' then convertX n st
    else if c = chr 'd' then convertD n st
    else if c = chr 's' then convertS m n st
    else if c = chr 'c' then convertC n st
    else some st
  else if c = chr '%' then some { st with format := true }
  else some (st.put n c)

/-- What has been written at the end, with the null byte. -/
def Printer.close (n : Word) (st : Printer) : List (Word × Byte) :=
  if st.pos < n then (st.pos, 0) :: st.writes else if n ≠ 0 then (n - 1, 0) :: st.writes else st.writes

/-- `vsnprintf`: what it writes, the last byte first, and what it returns. -/
def vsnprintf (m : Memory) (n : Word) (s : List Byte) (args : List Word) : Option (List (Word × Byte) × ℤ) := do
  let st ← s.foldlM (step m n) ⟨0, [], args, false, false⟩
  return (st.close n, (st.pos.setWidth 32).toInt)

/-! ### What is expected -/

/-- The conversions. -/
inductive Conversion where
  /-- `%d`. -/
  | d
  /-- `%x`. -/
  | x
  /-- `%p`. -/
  | p
  /-- `%s`. -/
  | s
  /-- `%c`. -/
  | c
  deriving DecidableEq

/-- The letter of a conversion. -/
def Conversion.letter : Conversion → Byte
  | d => chr 'd'
  | x => chr 'x'
  | p => chr 'p'
  | s => chr 's'
  | c => chr 'c'

/-- What a format is made of. -/
inductive Piece where
  /-- A character that stands for itself. -/
  | lit (c : { c : Byte // c ≠ 0 ∧ c ≠ chr '%' })
  /-- A conversion, which may have an `l`. -/
  | conv (long : Bool) (kind : Conversion)

/-- The characters of the format. -/
def Piece.bytes : Piece → List Byte
  | lit c => [c.1]
  | conv long kind => chr '%' :: ((if long then [chr 'l'] else []) ++ [kind.letter])

/-- The format string. -/
def formatBytes (ps : List Piece) : List Byte := ps.flatMap Piece.bytes

/-- The hexadecimal digits. -/
def hexChars (num : Word) : ℕ → List Byte
  | 0 => []
  | i + 1 => hexDigit (num.sshiftRight (4 * i) &&& 0xF) :: hexChars num i

/-- The decimal digits. -/
def decChars (num : Word) : ℕ → List Byte
  | 0 => []
  | i + 1 => decChars (num.sdiv 10) i ++ [decDigit num]

/-- The characters of a string, if it ends. -/
def strChars (m : Memory) : ℕ → Word → Option (List Byte)
  | 0, _ => none
  | k + 1, s => if m s = 0 then some [] else (strChars m k (s + 1)).map (m s :: ·)

/-- What a conversion prints. -/
def Conversion.chars (m : Memory) (long : Bool) (a : Word) : Conversion → Option (List Byte)
  | d =>
    let num := argNum long a
    some (if num.slt 0 then chr '-' :: decChars (-num) (countDigits (-num)) else decChars num (countDigits num))
  | x => some (hexChars (argNum long a) (if long then 16 else 8))
  | p => some (chr '0' :: chr 'x' :: hexChars a 16)
  | s => strChars m (2 ^ 64) a
  | c => some [a.setWidth 8]

/-- What a piece prints, and the arguments after it. -/
def Piece.print (m : Memory) (args : List Word) : Piece → Option (List Byte × List Word)
  | lit c => some ([c.1], args)
  | conv long kind =>
    match args with
    | [] => none
    | a :: args => (kind.chars m long a).map (·, args)

/-- **The whole output**, if the arguments match the format. -/
def render (m : Memory) : List Piece → List Word → Option (List Byte)
  | [], _ => some []
  | p :: ps, args => do
    let (cs, args) ← p.print m args
    let rest ← render m ps args
    return cs ++ rest

/-- The last byte written to a place. -/
def written (writes : List (Word × Byte)) (i : Word) : Option Byte := (writes.find? fun w => w.1 = i).map Prod.snd

/-- In `n` bytes there are those characters for which there is room, with a null byte after them, and nothing is
written elsewhere. -/
def Cut (n : Word) (out : List Byte) (writes : List (Word × Byte)) : Prop :=
  (∀ w ∈ writes, w.1 < n) ∧
    (∀ i < min (n.toNat - 1) out.length, written writes (BitVec.ofNat 64 i) = out[i]?) ∧
    written writes (BitVec.ofNat 64 (min (n.toNat - 1) out.length)) = some 0

/-- **The output is cut off**, and the length of the whole output is returned. -/
def Truncates (m : Memory) (n : Word) (ps : List Piece) (args : List Word) (out : List Byte) : Prop :=
  ∃ writes, vsnprintf m n (formatBytes ps) args = some (writes, (out.length : ℤ)) ∧ Cut n out writes

/-! ### `%c` for which there is no room -/

/-- The piece is `%c`. -/
def Piece.isChar : Piece → Bool
  | conv _ .c => true
  | _ => false

/-- The piece, but for `%c` a character that takes no argument. -/
def Piece.plain : Piece → Piece
  | conv _ .c => lit ⟨chr 'c', by decide⟩
  | p => p

/-- **The first `%c` for which there is no room**: how many characters precede it, the pieces from it on, and the
arguments from its own on. -/
def late (m : Memory) (n : ℕ) : ℕ → List Piece → List Word → Option (ℕ × List Piece × List Word)
  | _, [], _ => none
  | pos, p :: ps, args =>
    if p.isChar ∧ n ≤ pos + 1 then some (pos, p :: ps, args)
    else do
      let (cs, args) ← p.print m args
      late m n (pos + cs.length) ps args

/-- What is counted for a piece, and the arguments after it. -/
def Piece.count (m : Memory) (n pos : ℕ) (args : List Word) (p : Piece) : Option (List Byte × List Word) :=
  (if n ≤ pos + 1 then p.plain else p).print m args

/-- **What is counted.** `pos` characters precede it. -/
def counted (m : Memory) (n : ℕ) : ℕ → List Piece → List Word → Option (List Byte)
  | _, [], _ => some []
  | pos, p :: ps, args => do
    let (cs, args) ← p.count m n pos args
    let rest ← counted m n (pos + cs.length) ps args
    return cs ++ rest

/-! ### How many digits a number has -/

theorem natAbs_sdiv_ten (num : Word) : (num.sdiv 10).toInt.natAbs = num.toInt.natAbs / 10 := by
  have hten : (10 : Word).toInt = 10 := by decide
  rw [BitVec.toInt_sdiv_of_ne_or_ne _ _ (.inr (by decide)), hten, Int.natAbs_tdiv]
  rfl

/-- With more fuel, the loop counts the same digits. -/
theorem digitsLoop_add (fuel more : ℕ) {nn : Word} (h : nn.toInt.natAbs < 10 ^ (fuel + 1)) (digits : ℕ) :
    digitsLoop (fuel + 1 + more) nn digits = digitsLoop (fuel + 1) nn digits := by
  induction fuel generalizing nn digits with
  | zero =>
    have hzero : nn.sdiv 10 = 0 := by
      apply BitVec.eq_of_toInt_eq
      have habs := natAbs_sdiv_ten nn
      have hten : (0 : Word).toInt = 0 := rfl
      omega
    rw [Nat.zero_add, Nat.add_comm, digitsLoop, digitsLoop, if_pos hzero, if_pos hzero]
  | succ fuel ih =>
    have hnext : (nn.sdiv 10).toInt.natAbs < 10 ^ (fuel + 1) := by
      rw [natAbs_sdiv_ten, Nat.div_lt_iff_lt_mul (by omega), ← Nat.pow_succ]
      exact h
    rw [show fuel + 1 + 1 + more = fuel + 1 + more + 1 by omega, digitsLoop, digitsLoop]
    split
    · rfl
    · exact ih hnext _

/-- **The fuel of the loop is enough.** -/
theorem countDigits_eq (num : Word) (more : ℕ) : digitsLoop (20 + more) num 1 = countDigits num := by
  refine digitsLoop_add 19 more ?_ 1
  have hlt := num.toInt_lt
  have hle := num.le_toInt
  omega

/-! ### What has been written -/

variable {m : Memory} {n : Word} {out cs : List Byte} {st : Printer}

theorem written_cons (w : Word × Byte) (ws : List (Word × Byte)) (i : Word) :
    written (w :: ws) i = if w.1 = i then some w.2 else written ws i := by
  rw [written, List.find?_cons]
  by_cases h : w.1 = i
  · rw [if_pos h, decide_eq_true h]
    rfl
  · rw [if_neg h, decide_eq_false h]
    rfl

theorem written_of_mem {w : Word × Byte} {ws : List (Word × Byte)} (h : w ∈ ws) : written ws w.1 ≠ none := by
  intro hnone
  rw [written, Option.map_eq_none_iff, List.find?_eq_none] at hnone
  exact hnone w h (decide_eq_true rfl)

/-- **So far** these characters have been counted, and those written for which there is room. -/
structure Counts (n : Word) (out : List Byte) (st : Printer) : Prop where
  /-- The count. -/
  pos : st.pos.toNat = out.length
  /-- The characters. -/
  written : ∀ i : Word, written st.writes i = if i.toNat + 1 < n.toNat then out[i.toNat]? else none

/-- Something has been written where it should not. -/
def Strays (n : Word) (st : Printer) : Prop := ∃ w ∈ st.writes, ¬ w.1 < n

theorem toNat_add_one {x : Word} (h : x.toNat + 1 < 2 ^ 64) : (x + 1).toNat = x.toNat + 1 := by
  have h1 : (1 : Word).toNat = 1 := rfl
  rw [BitVec.toNat_add, h1]
  omega

/-- **One character.** -/
theorem Counts.put (h : Counts n out st) (c : Byte) (hlt : out.length + 1 < 2 ^ 64) :
    Counts n (out ++ [c]) (st.put n c) := by
  have hpos := h.pos
  have hnext := toNat_add_one (x := st.pos) (by omega)
  refine ⟨by rw [Printer.put, hnext, hpos, List.length_append]; rfl, fun i => ?_⟩
  have hroom : st.pos + 1 < n ↔ out.length + 1 < n.toNat := by rw [BitVec.lt_def, hnext, hpos]
  have hwritten := h.written i
  rw [Printer.put]
  dsimp only
  by_cases hi : st.pos = i
  · rw [← hi, hpos] at hwritten ⊢
    rw [List.getElem?_concat_length]
    by_cases hfits : st.pos + 1 < n
    · rw [if_pos hfits, written_cons, if_pos rfl, if_pos (hroom.mp hfits)]
    · rw [if_neg hfits, if_neg fun hlt => hfits (hroom.mpr hlt), hwritten, if_neg fun hlt => hfits (hroom.mpr hlt)]
  · have hne : i.toNat ≠ out.length := fun heq => hi (BitVec.eq_of_toNat_eq (hpos.trans heq.symm))
    have hsame : (out ++ [c])[i.toNat]? = out[i.toNat]? := by
      rcases Nat.lt_or_gt_of_ne hne with hlt | hgt
      · exact List.getElem?_append_left hlt
      · rw [List.getElem?_eq_none (by rw [List.length_append, List.length_singleton]; omega),
          List.getElem?_eq_none (by omega)]
    rw [hsame, ← hwritten]
    split
    · exact (written_cons _ _ _).trans (if_neg hi)
    · rfl

/-- The count wraps. -/
theorem Counts.strays_put (h : Counts n out st) (c : Byte) (hlt : out.length + 1 = 2 ^ 64) (hn : 0 < n) :
    Strays n (st.put n c) := by
  have hpos := h.pos
  have hzero : st.pos + 1 = 0 := by
    apply BitVec.eq_of_toNat_eq
    have h1 : (1 : Word).toNat = 1 := rfl
    have h0 : (0 : Word).toNat = 0 := rfl
    rw [BitVec.toNat_add, h1, h0]
    omega
  refine ⟨(st.pos, c), ?_, ?_⟩
  · rw [Printer.put, hzero, if_pos hn]
    exact List.mem_cons_self
  · have hnlt := n.isLt
    rw [BitVec.lt_def]
    dsimp only
    omega

/-! ### Characters one after the other -/

/-- From one state to the other these characters are counted. If the count wraps, something strays. -/
structure Emits (n : Word) (cs : List Byte) (st st' : Printer) : Prop where
  /-- The count does not wrap. -/
  counts : ∀ out, Counts n out st → out.length + cs.length < 2 ^ 64 → Counts n (out ++ cs) st'
  /-- It wraps. -/
  strays : ∀ out, Counts n out st → 2 ^ 64 ≤ out.length + cs.length → Strays n st'
  /-- What has been written remains. -/
  keeps : ∀ w ∈ st.writes, w ∈ st'.writes
  /-- No argument is taken. -/
  args : st'.args = st.args

theorem Counts.length_lt (h : Counts n out st) : out.length < 2 ^ 64 := h.pos ▸ st.pos.isLt

theorem Strays.mono {st' : Printer} (h : Strays n st) (hkeeps : ∀ w ∈ st.writes, w ∈ st'.writes) : Strays n st' := by
  obtain ⟨w, hw, hlt⟩ := h
  exact ⟨w, hkeeps w hw, hlt⟩

theorem Emits.nil : Emits n [] st st := by
  refine ⟨fun out h _ => ?_, fun out h hle => ?_, fun w hw => hw, rfl⟩
  · rwa [List.append_nil]
  · exact absurd h.length_lt (Nat.not_lt.mpr hle)

theorem Emits.put (hn : 0 < n) (c : Byte) : Emits n [c] st (st.put n c) := by
  refine ⟨fun out h hlt => h.put c hlt, fun out h hle => ?_, fun w hw => ?_, rfl⟩
  · have hlt := h.length_lt
    rw [List.length_singleton] at hle
    exact h.strays_put c (by omega) hn
  · rw [Printer.put]
    dsimp only
    split
    · exact List.mem_cons_of_mem _ hw
    · exact hw

theorem Emits.append {ds : List Byte} {st₁ st₂ : Printer} (h₁ : Emits n cs st st₁) (h₂ : Emits n ds st₁ st₂) :
    Emits n (cs ++ ds) st st₂ := by
  refine ⟨fun out h hlt => ?_, fun out h hle => ?_, fun w hw => h₂.keeps w (h₁.keeps w hw), h₂.args.trans h₁.args⟩
  · rw [List.length_append] at hlt
    rw [← List.append_assoc]
    exact h₂.counts _ (h₁.counts out h (by omega)) (by rw [List.length_append]; omega)
  · rw [List.length_append] at hle
    by_cases hcs : out.length + cs.length < 2 ^ 64
    · exact h₂.strays _ (h₁.counts out h hcs) (by rw [List.length_append]; omega)
    · exact (h₁.strays out h (Nat.not_lt.mp hcs)).mono h₂.keeps

theorem Emits.hexLoop (hn : 0 < n) (num : Word) (k : ℕ) : Emits n (hexChars num k) st (hexLoop n num k st) := by
  induction k generalizing st with
  | zero => exact .nil
  | succ k ih => exact (Emits.put hn _).append ih

/-- A string, if it ends. -/
theorem strLoop_eq (hn : 0 < n) (k : ℕ) (s : Word) (st : Printer) :
    (strChars m k s = none ∧ strLoop m n k s st = none) ∨
      ∃ cs st', strChars m k s = some cs ∧ strLoop m n k s st = some st' ∧ Emits n cs st st' := by
  induction k generalizing s st with
  | zero => exact .inl ⟨rfl, rfl⟩
  | succ k ih =>
    rw [strChars, strLoop]
    by_cases hs : m s = 0
    · rw [if_pos hs, if_pos hs]
      exact .inr ⟨[], st, rfl, rfl, .nil⟩
    · rw [if_neg hs, if_neg hs]
      rcases ih (s + 1) (st.put n (m s)) with ⟨hchars, hloop⟩ | ⟨cs, st', hchars, hloop, hemits⟩
      · exact .inl ⟨by rw [hchars]; rfl, hloop⟩
      · exact .inr ⟨m s :: cs, st', by rw [hchars]; rfl, hloop, (Emits.put hn _).append hemits⟩

/-! ### Decimal digits -/

theorem length_decChars (num : Word) (k : ℕ) : (decChars num k).length = k := by
  induction k generalizing num with
  | zero => rfl
  | succ k ih => rw [decChars, List.length_append, ih, List.length_singleton]

/-- The digits are written from the last one on, each to its place. -/
theorem written_decLoop {pos : Word} (k : ℕ) (hk : pos.toNat + k < 2 ^ 64) (num : Word)
    (ws : List (Word × Byte)) (i : Word) :
    written (decLoop n pos k num ws) i =
      if i.toNat + 1 < n.toNat ∧ pos.toNat ≤ i.toNat ∧ i.toNat < pos.toNat + k
        then (decChars num k)[i.toNat - pos.toNat]?
      else written ws i := by
  induction k generalizing num ws with
  | zero => rw [decLoop, if_neg (by omega)]
  | succ k ih =>
    have hplace := Memory.toNat_add_ofNat (a := pos) (i := k) (by omega)
    have hnext := toNat_add_one (x := pos + BitVec.ofNat 64 k) (by omega)
    have hroom : pos + BitVec.ofNat 64 k + 1 < n ↔ pos.toNat + k + 1 < n.toNat :=
      by rw [BitVec.lt_def, hnext, hplace]
    have hlength := length_decChars (num.sdiv 10) k
    rw [decLoop, ih (by omega), decChars]
    by_cases hi : i.toNat = pos.toNat + k
    · have hik : pos + BitVec.ofNat 64 k = i := BitVec.eq_of_toNat_eq (hplace.trans hi.symm)
      have hlast : (decChars (num.sdiv 10) k ++ [decDigit num])[i.toNat - pos.toNat]? = some (decDigit num) := by
        rw [show i.toNat - pos.toNat = (decChars (num.sdiv 10) k).length by omega, List.getElem?_concat_length]
      rw [if_neg (by omega), hlast]
      by_cases hfits : pos + BitVec.ofNat 64 k + 1 < n
      · have hlt := hroom.mp hfits
        rw [if_pos hfits, written_cons, if_pos hik, if_pos ⟨by omega, by omega, by omega⟩]
      · have hle := mt hroom.mpr hfits
        rw [if_neg hfits, if_neg (by omega)]
    · have hik : pos + BitVec.ofNat 64 k ≠ i := fun heq => hi (heq ▸ hplace)
      have hsame : written (if pos + BitVec.ofNat 64 k + 1 < n
        then (pos + BitVec.ofNat 64 k, decDigit num) :: ws else ws) i =
          written ws i := by
        split
        · exact (written_cons _ _ _).trans (if_neg hik)
        · rfl
      rw [hsame]
      by_cases hin : i.toNat + 1 < n.toNat ∧ pos.toNat ≤ i.toNat ∧ i.toNat < pos.toNat + k
      · rw [if_pos hin, if_pos ⟨hin.1, hin.2.1, by omega⟩, List.getElem?_append_left (by omega)]
      · rw [if_neg hin, if_neg (by omega)]

theorem decLoop_keeps (pos : Word) (k : ℕ) (num : Word) (ws : List (Word × Byte)) :
    ∀ w ∈ ws, w ∈ decLoop n pos k num ws := by
  induction k generalizing num ws with
  | zero => exact fun w hw => hw
  | succ k ih =>
    intro w hw
    refine ih _ _ w ?_
    split
    · exact List.mem_cons_of_mem _ hw
    · exact hw

/-- A digit for which there is room is written. -/
theorem mem_decLoop (pos : Word) {k j : ℕ} (hj : j < k) (hroom : pos + BitVec.ofNat 64 j + 1 < n) (num : Word)
    (ws : List (Word × Byte)) : ∃ c, (pos + BitVec.ofNat 64 j, c) ∈ decLoop n pos k num ws := by
  induction k generalizing num ws with
  | zero => exact absurd hj (Nat.not_lt_zero _)
  | succ k ih =>
    rw [decLoop]
    rcases Nat.lt_succ_iff_lt_or_eq.mp hj with hlt | rfl
    · exact ih hlt _ _
    · exact ⟨decDigit num, decLoop_keeps _ _ _ _ _ (by rw [if_pos hroom]; exact List.mem_cons_self)⟩

theorem digitsLoop_le (fuel : ℕ) (nn : Word) (digits : ℕ) : digitsLoop fuel nn digits ≤ digits + fuel := by
  induction fuel generalizing nn digits with
  | zero => exact le_rfl
  | succ fuel ih =>
    rw [digitsLoop]
    split
    · omega
    · have hle := ih (nn.sdiv 10) (digits + 1)
      omega

theorem Emits.putDec (hn : 0 < n) (num : Word) : Emits n (decChars num (countDigits num)) st (putDec n num st) := by
  have hdigits : countDigits num ≤ 21 := digitsLoop_le 20 num 1
  refine ⟨fun out h hlt => ?_, fun out h hle => ?_, decLoop_keeps _ _ _ _, rfl⟩
  · have hpos := h.pos
    rw [length_decChars] at hlt
    refine ⟨?_, fun i => ?_⟩
    · rw [Snprintf.putDec, Memory.toNat_add_ofNat (by omega), hpos, List.length_append, length_decChars]
    · rw [Snprintf.putDec, written_decLoop _ (by omega), h.written i, hpos]
      by_cases hi : i.toNat < out.length
      · rw [if_neg (by omega), List.getElem?_append_left hi]
      · rw [List.getElem?_append_right (by omega), List.getElem?_eq_none (by omega : out.length ≤ i.toNat), ite_self]
        by_cases hin : i.toNat + 1 < n.toNat ∧ out.length ≤ i.toNat ∧ i.toNat < out.length + countDigits num
        · rw [if_pos hin, if_pos hin.1]
        · rw [if_neg hin]
          split
          · rw [List.getElem?_eq_none (by rw [length_decChars]; omega)]
          · rfl
  · -- the digit at the end of the address space
    have hpos := h.pos
    have hlt := h.length_lt
    have hnlt := n.isLt
    rw [length_decChars] at hle
    have hplace := Memory.toNat_add_ofNat (a := st.pos) (i := 2 ^ 64 - 1 - out.length) (by omega)
    have hzero : st.pos + BitVec.ofNat 64 (2 ^ 64 - 1 - out.length) + 1 = 0 := by
      apply BitVec.eq_of_toNat_eq
      have h1 : (1 : Word).toNat = 1 := rfl
      have h0 : (0 : Word).toNat = 0 := rfl
      rw [BitVec.toNat_add, hplace, h1, h0]
      omega
    obtain ⟨c, hc⟩ := mem_decLoop (n := n) st.pos (k := countDigits num) (j := 2 ^ 64 - 1 - out.length) (by omega)
      (by rw [hzero]; exact hn) num st.writes
    refine ⟨_, hc, ?_⟩
    rw [BitVec.lt_def, hplace]
    omega

/-! ### Conversions -/

theorem vaArg_cons (st : Printer) {a : Word} {args : List Word} (h : st.args = a :: args) :
    st.vaArg = some (a, { st with args := args }) := by
  rw [Printer.vaArg, h]

theorem vaArg_nil (st : Printer) (h : st.args = []) : st.vaArg = none := by
  rw [Printer.vaArg, h]

/-- What is done for a letter, if `%c` has room. -/
theorem step_letter (kind : Conversion) (hformat : st.format = true) :
    step m n st kind.letter =
      match kind with
      | .d => convertD n st
      | .x => convertX n st
      | .p => convertX n (({ st with longarg := true }.put n (chr '0')).put n (chr 'x'))
      | .s => convertS m n st
      | .c => convertC n st := by
  rw [step, if_pos hformat]
  cases kind <;> simp only [Conversion.letter] <;> rfl

theorem Counts.congr {st' : Printer} (h : Counts n out st) (hpos : st'.pos = st.pos)
    (hwrites : st'.writes = st.writes) :
    Counts n out st' := ⟨hpos ▸ h.pos, hwrites ▸ h.written⟩

theorem Emits.congr {st₀ st' : Printer} (h : Emits n cs st st') (hpos : st₀.pos = st.pos)
    (hwrites : st₀.writes = st.writes)
    (hargs : st₀.args = st.args) : Emits n cs st₀ st' :=
  ⟨fun out h₀ => h.counts out (h₀.congr hpos.symm hwrites.symm), fun out h₀ =>
    h.strays out (h₀.congr hpos.symm hwrites.symm),
    hwrites ▸ h.keeps, hargs ▸ h.args⟩

/-- **A conversion with its argument.** -/
theorem step_conversion (hn : 0 < n) (kind : Conversion) (hformat : st.format = true)
    (hfits : kind = .c → st.pos + 1 < n) {a : Word} {args : List Word} (hargs : st.args = a :: args) :
    (kind.chars m st.longarg a = none ∧ step m n st kind.letter = none) ∨
      ∃ cs st', kind.chars m st.longarg a = some cs ∧ step m n st kind.letter = some st'.converted ∧
        Emits n cs { st with args := args } st' := by
  have harg := vaArg_cons st hargs
  rw [step_letter kind hformat]
  cases kind with
  | d =>
    refine .inr ⟨_, if (argNum st.longarg a).slt 0 then
      putDec n (-argNum st.longarg a) ({ st with args := args }.put n (chr '-'))
      else putDec n (argNum st.longarg a) { st with args := args }, rfl, ?_, ?_⟩
    · dsimp only
      rw [convertD, harg]
      rfl
    · split
      · exact (Emits.put hn _).append (.putDec hn _)
      · exact .putDec hn _
  | x =>
    refine .inr ⟨_, hexLoop n (argNum st.longarg a) (if st.longarg then 16 else 8) { st with args := args }, rfl, ?_,
      .hexLoop hn _ _⟩
    dsimp only
    rw [convertX, harg]
    rfl
  | p =>
    have harg' := vaArg_cons (({ st with longarg := true }.put n (chr '0')).put n (chr 'x')) hargs
    refine .inr ⟨_, hexLoop n a 16
      (({ st with args := args, longarg := true }.put n (chr '0')).put n (chr 'x')), rfl, ?_, ?_⟩
    · dsimp only
      rw [convertX, harg']
      rfl
    · have hemits : Emits n _ { st with args := args, longarg := true } _ :=
        (Emits.put hn (chr '0')).append ((Emits.put hn (chr 'x')).append (.hexLoop hn a 16))
      exact hemits.congr rfl rfl rfl
  | s =>
    dsimp only
    rw [convertS, harg]
    rcases strLoop_eq (m := m) hn (2 ^ 64) a { st with args := args } with
      ⟨hchars, hloop⟩ | ⟨cs, st', hchars, hloop, hemits⟩
    · refine .inl ⟨hchars, ?_⟩
      rw [Option.bind_eq_bind, Option.bind_some]
      dsimp only
      rw [hloop]
      rfl
    · refine .inr ⟨cs, st', hchars, ?_, hemits⟩
      rw [Option.bind_eq_bind, Option.bind_some]
      dsimp only
      rw [hloop]
      rfl
  | c =>
    refine .inr ⟨_, { st with args := args }.put n (a.setWidth 8), rfl, ?_, .put hn _⟩
    dsimp only
    rw [convertC, if_pos (hfits rfl), harg]
    rfl

/-- Without an argument there is no result. -/
theorem step_nil (kind : Conversion) (hformat : st.format = true) (hfits : kind = .c → st.pos + 1 < n)
    (hargs : st.args = []) : step m n st kind.letter = none := by
  have harg := vaArg_nil st hargs
  rw [step_letter kind hformat]
  cases kind with
  | d =>
    dsimp only
    rw [convertD, harg]
    rfl
  | x =>
    dsimp only
    rw [convertX, harg]
    rfl
  | p =>
    have harg' := vaArg_nil (({ st with longarg := true }.put n (chr '0')).put n (chr 'x')) hargs
    dsimp only
    rw [convertX, harg']
    rfl
  | s =>
    dsimp only
    rw [convertS, harg]
    rfl
  | c =>
    dsimp only
    rw [convertC, if_pos (hfits rfl), harg]
    rfl

/-- `%c` without room leaves its argument where it is. -/
theorem step_skip (hformat : st.format = true) (hfull : ¬ st.pos + 1 < n) :
    step m n st Conversion.c.letter = some { st with pos := st.pos + 1 }.converted := by
  rw [step_letter .c hformat]
  dsimp only
  rw [convertC, if_neg hfull]

/-! ### What has been written remains -/

theorem step_keeps (hn : 0 < n) {c : Byte} {st' : Printer} (h : step m n st c = some st') :
    ∀ w ∈ st.writes, w ∈ st'.writes := by
  by_cases hformat : st.format = true
  · by_cases hkind : ∃ kind : Conversion, c = kind.letter
    · obtain ⟨kind, rfl⟩ := hkind
      by_cases hfits : kind = .c → st.pos + 1 < n
      · cases hargs : st.args with
        | nil =>
          rw [step_nil kind hformat hfits hargs] at h
          cases h
        | cons a args =>
          rcases step_conversion (m := m) hn kind hformat hfits hargs with ⟨-, hnone⟩ | ⟨cs, st'', -, hstep, hemits⟩
          · rw [hnone] at h
            cases h
          · rw [hstep] at h
            rw [← Option.some.inj h]
            exact hemits.keeps
      · obtain ⟨rfl, hfull⟩ := Classical.not_imp.mp hfits
        rw [step_skip hformat hfull] at h
        rw [← Option.some.inj h]
        exact fun w hw => hw
    · rw [step, if_pos hformat] at h
      split at h
      · rw [← Option.some.inj h]
        exact fun w hw => hw
      · rw [if_neg (show ¬ c = chr 'p' from fun heq => hkind ⟨.p, heq⟩),
          if_neg (show ¬ c = chr 'x' from fun heq => hkind ⟨.x, heq⟩),
          if_neg (show ¬ c = chr 'd' from fun heq => hkind ⟨.d, heq⟩),
          if_neg (show ¬ c = chr 's' from fun heq => hkind ⟨.s, heq⟩),
          if_neg (show ¬ c = chr 'c' from fun heq => hkind ⟨.c, heq⟩)] at h
        rw [← Option.some.inj h]
        exact fun w hw => hw
  · rw [step, if_neg hformat] at h
    split at h
    · rw [← Option.some.inj h]
      exact fun w hw => hw
    · rw [← Option.some.inj h]
      exact (Emits.put hn c).keeps

theorem foldlM_keeps (hn : 0 < n) {s : List Byte} {st' : Printer} (h : s.foldlM (step m n) st = some st') :
    ∀ w ∈ st.writes, w ∈ st'.writes := by
  induction s generalizing st with
  | nil => exact Option.some.inj h ▸ fun w hw => hw
  | cons c s ih =>
    rw [List.foldlM_cons] at h
    obtain ⟨st₁, hstep, hrest⟩ := Option.bind_eq_some_iff.mp h
    exact fun w hw => ih hrest w (step_keeps hn hstep w hw)

/-! ### Pieces -/

/-- Between the pieces of the format. -/
def Between (st : Printer) : Prop := st.format = false ∧ st.longarg = false

theorem foldlM_lit (c : { c : Byte // c ≠ 0 ∧ c ≠ chr '%' }) (h : Between st) :
    (Piece.lit c).bytes.foldlM (step m n) st = some (st.put n c.1) := by
  have hformat : ¬ st.format = true := by rw [h.1]; decide
  rw [Piece.bytes, List.foldlM_cons, step, if_neg hformat, if_neg c.2.2]
  rfl

theorem foldlM_conv (long : Bool) (kind : Conversion) (h : Between st) :
    (Piece.conv long kind).bytes.foldlM (step m n) st =
      step m n { st with format := true, longarg := long } kind.letter := by
  have hformat : ¬ st.format = true := by rw [h.1]; decide
  have hpercent : step m n st (chr '%') = some { st with format := true } := by
    rw [step, if_neg hformat, if_pos rfl]
  have hlast (st' : Printer) : [kind.letter].foldlM (step m n) st' = step m n st' kind.letter := by
    rw [List.foldlM_cons]
    exact Option.bind_fun_some _
  rw [Piece.bytes, List.foldlM_cons, hpercent]
  cases long with
  | false =>
    have hlong : { st with format := true, longarg := false } = ({ st with format := true } : Printer) := by
      rw [← h.2]
    rw [hlong]
    exact hlast _
  | true => exact hlast _

theorem count_of_fits {k pos : ℕ} {args : List Word} {p : Piece} (h : ¬ (p.isChar ∧ k ≤ pos + 1)) :
    p.count m k pos args = p.print m args := by
  rw [Piece.count]
  split
  · match p with
    | .lit c => rfl
    | .conv _ .d => rfl
    | .conv _ .x => rfl
    | .conv _ .p => rfl
    | .conv _ .s => rfl
    | .conv _ .c => exact absurd ⟨rfl, ‹_›⟩ h
  · rfl

/-- What a run does with characters: they are counted, or else something strays or there is no result. -/
def Runs (n : Word) (out : List Byte) (count : Option (List Byte × List Word)) (run : Option Printer) : Prop :=
  (∃ cs args st', count = some (cs, args) ∧ out.length + cs.length < 2 ^ 64 ∧
    run = some st' ∧ Counts n (out ++ cs) st' ∧ Between st' ∧ st'.args = args) ∨
  ((∀ r, count = some r → 2 ^ 64 ≤ out.length + r.1.length) ∧ ∀ st', run = some st' → Strays n st')

theorem Runs.of_emits {st' : Printer} (h : Counts n out st) (hemits : Emits n cs st st') (hb : Between st') :
    Runs n out (some (cs, st.args)) (some st') := by
  by_cases hroom : out.length + cs.length < 2 ^ 64
  · exact .inl ⟨cs, st.args, st', rfl, hroom, rfl, hemits.counts out h hroom, hb, hemits.args⟩
  · have hwraps := Nat.not_lt.mp hroom
    refine .inr ⟨fun r hr => ?_, fun st'' hst'' => ?_⟩
    · rw [← Option.some.inj hr]
      exact hwraps
    · rw [← Option.some.inj hst'']
      exact hemits.strays out h hwraps

theorem Runs.none : Runs n out none none := .inr ⟨nofun, nofun⟩

theorem Emits.converted {st' : Printer} (h : Emits n cs st st') : Emits n cs st st'.converted :=
  ⟨fun out h₀ hlt => (h.counts out h₀ hlt).congr rfl rfl, h.strays, h.keeps, h.args⟩

/-- The count wraps at the first place for which there is no room. -/
theorem Counts.wraps (h : Counts n out st) (hfits : st.pos + 1 < n) (hfull : n.toNat ≤ out.length + 1) :
    out.length + 1 = 2 ^ 64 := by
  have hlt := h.length_lt
  by_contra hne
  rw [BitVec.lt_def, toNat_add_one (by rw [h.pos]; omega), h.pos] at hfits
  omega

/-- `%c` without room. -/
theorem Counts.skip (h : Counts n out st) (hn : 0 < n) (hfull : ¬ st.pos + 1 < n) :
    n.toNat ≤ out.length + 1 ∧ out.length + 1 < 2 ^ 64 ∧ Counts n (out ++ [chr 'c']) { st with pos := st.pos + 1 } :=
    by
  have hpos := h.pos
  have hlt := h.length_lt
  have hroom : out.length + 1 < 2 ^ 64 := by
    by_contra hwrap
    refine hfull ?_
    have hzero : st.pos + 1 = 0 := by
      apply BitVec.eq_of_toNat_eq
      have h1 : (1 : Word).toNat = 1 := rfl
      have h0 : (0 : Word).toNat = 0 := rfl
      rw [BitVec.toNat_add, h1, h0]
      omega
    rw [hzero]
    exact hn
  have hnext := toNat_add_one (x := st.pos) (by omega)
  have hle : n.toNat ≤ out.length + 1 := by
    rw [BitVec.lt_def, hnext, hpos] at hfull
    exact Nat.not_lt.mp hfull
  refine ⟨hle, hroom, ?_, fun i => ?_⟩
  · rw [List.length_append, List.length_singleton, ← hpos]
    exact hnext
  · refine (h.written i).trans ?_
    by_cases hi : i.toNat + 1 < n.toNat
    · rw [if_pos hi, if_pos hi, List.getElem?_append_left (by omega)]
    · rw [if_neg hi, if_neg hi]

/-- A conversion for which there is room, or any but `%c`. -/
theorem conv_run (hn : 0 < n) (h : Counts n out st) (hb : Between st) (long : Bool) (kind : Conversion)
    (hfits : kind = .c → st.pos + 1 < n) :
    Runs n out ((Piece.conv long kind).print m st.args) ((Piece.conv long kind).bytes.foldlM (step m n) st) := by
  have hformat : Printer.format { st with format := true, longarg := long } = true := rfl
  rw [foldlM_conv long kind hb]
  by_cases hargs : st.args = []
  · have hprint : (Piece.conv long kind).print m st.args = none := by
      rw [hargs]
      rfl
    rw [step_nil kind hformat hfits hargs, hprint]
    exact .none
  · obtain ⟨a, args, hargs⟩ := List.exists_cons_of_ne_nil hargs
    have hprint : (Piece.conv long kind).print m st.args = (kind.chars m long a).map (·, args) := by
      rw [hargs]
      rfl
    rcases step_conversion (m := m) hn kind hformat hfits hargs with
      ⟨hchars, hnone⟩ | ⟨cs, st', hchars, hstep, hemits⟩
    · dsimp only at hchars
      rw [hnone, hprint, hchars]
      exact .none
    · dsimp only at hchars
      rw [hstep, hprint, hchars]
      have hcounts : Counts n out { st with format := true, longarg := long, args := args } := h.congr rfl rfl
      exact .of_emits hcounts hemits.converted ⟨rfl, rfl⟩

/-- **A piece.** -/
theorem piece_run (hn : 0 < n) (h : Counts n out st) (hb : Between st) (p : Piece) :
    Runs n out (p.count m n.toNat out.length st.args) (p.bytes.foldlM (step m n) st) := by
  cases p with
  | lit c =>
    have hcount : (Piece.lit c).count m n.toNat out.length st.args = some ([c.1], st.args) :=
      count_of_fits fun hlate => nomatch hlate.1
    rw [foldlM_lit c hb, hcount]
    exact .of_emits h (.put hn c.1) hb
  | conv long kind =>
    by_cases hfits : kind = .c → st.pos + 1 < n
    · have hrun := conv_run (m := m) hn h hb long kind hfits
      by_cases hcount : ((Piece.conv long kind).isChar = true ∧ n.toNat ≤ out.length + 1)
      · -- the count wraps at this character, whichever it is
        obtain ⟨hchar, hfull⟩ := hcount
        obtain rfl : kind = .c := by
          cases kind with
          | c => rfl
          | _ => cases hchar
        have hwraps := h.wraps (hfits rfl) hfull
        refine .inr ⟨fun r hr => ?_, ?_⟩
        · rw [Piece.count, if_pos hfull] at hr
          rw [← Option.some.inj hr]
          exact hwraps.ge
        · rcases hrun with ⟨cs, args, st', hprint, hroom, -⟩ | ⟨-, hstrays⟩
          · have hone : cs.length = 1 := by
              cases hargs : st.args with
              | nil =>
                rw [hargs] at hprint
                cases hprint
              | cons a args' =>
                rw [hargs] at hprint
                cases hprint
                rfl
            omega
          · exact hstrays
      · rwa [count_of_fits hcount]
    · -- the argument is left where it is
      obtain ⟨rfl, hfull⟩ := Classical.not_imp.mp hfits
      obtain ⟨hle, hroom, hcounts⟩ := h.skip hn hfull
      have hskip : step m n { st with format := true, longarg := long } Conversion.c.letter =
          some { st with format := true, longarg := long, pos := st.pos + 1 }.converted := step_skip rfl hfull
      rw [foldlM_conv long .c hb, hskip, Piece.count, if_pos hle]
      exact .inl ⟨[chr 'c'], st.args, _, rfl, hroom, rfl, hcounts.congr rfl rfl, ⟨rfl, rfl⟩, rfl⟩

/-- **The whole format.** -/
theorem format_run (hn : 0 < n) (ps : List Piece) (h : Counts n out st) (hb : Between st) :
    (∃ cs st', counted m n.toNat out.length ps st.args = some cs ∧ out.length + cs.length < 2 ^ 64 ∧
      (formatBytes ps).foldlM (step m n) st = some st' ∧ Counts n (out ++ cs) st') ∨
    ((∀ cs, counted m n.toNat out.length ps st.args = some cs → 2 ^ 64 ≤ out.length + cs.length) ∧
      ∀ st', (formatBytes ps).foldlM (step m n) st = some st' → Strays n st') := by
  induction ps generalizing out st with
  | nil =>
    refine .inl ⟨[], st, rfl, h.length_lt, rfl, ?_⟩
    rwa [List.append_nil]
  | cons p ps ih =>
    rw [formatBytes, List.flatMap_cons, List.foldlM_append, counted]
    rcases piece_run (m := m) hn h hb p with
      ⟨cs, args, st₁, hcount, hroom, hstep, hcounts, hbetween, rfl⟩ | ⟨hcount, hstep⟩
    · rw [hstep, hcount]
      have hrest := ih hcounts hbetween
      rw [List.length_append] at hrest
      rcases hrest with ⟨ds, st₂, hcount₂, hroom₂, hstep₂, hcounts₂⟩ | ⟨hcount₂, hstep₂⟩
      · refine .inl ⟨cs ++ ds, st₂, ?_, by rw [List.length_append]; omega, hstep₂, by rwa [← List.append_assoc]⟩
        simp only [Option.bind_eq_bind, Option.bind_some, hcount₂]
        rfl
      · refine .inr ⟨fun cs' hcs' => ?_, hstep₂⟩
        simp only [Option.bind_eq_bind, Option.bind_some] at hcs'
        obtain ⟨ds, hds, hcs'⟩ := Option.bind_eq_some_iff.mp hcs'
        have hle := hcount₂ ds hds
        rw [← Option.some.inj hcs', List.length_append]
        omega
    · refine .inr ⟨fun cs' hcs' => ?_, fun st' hst' => ?_⟩
      · obtain ⟨r, hr, hcs'⟩ := Option.bind_eq_some_iff.mp hcs'
        obtain ⟨ds, -, hcs'⟩ := Option.bind_eq_some_iff.mp hcs'
        have hle := hcount r hr
        rw [← Option.some.inj hcs', List.length_append]
        omega
      · obtain ⟨st₁, hst₁, hrest⟩ := Option.bind_eq_some_iff.mp hst'
        exact (hstep st₁ hst₁).mono (foldlM_keeps hn hrest)

/-! ### What is counted, and the output -/

/-- From the first `%c` without room on, each `%c` is a character that takes no argument. -/
theorem counted_of_full {k pos : ℕ} (hfull : k ≤ pos + 1) (ps : List Piece) (args : List Word) :
    counted m k pos ps args = render m (ps.map Piece.plain) args := by
  induction ps generalizing pos args with
  | nil => rfl
  | cons p ps ih =>
    rw [counted, List.map_cons, render, Piece.count, if_pos hfull]
    refine bind_congr fun ⟨cs, args⟩ => ?_
    dsimp only
    rw [ih (by omega)]

/-- **What is counted and the output** are the same up to the first `%c` without room. -/
theorem counted_late (k : ℕ) (ps : List Piece) (pos : ℕ) (args : List Word) :
    (late m k pos ps args = none ∧ counted m k pos ps args = render m ps args) ∨
      ∃ cs p qs rest, late m k pos ps args = some (pos + cs.length, p :: qs, rest) ∧ p.isChar ∧
        k ≤ pos + cs.length + 1 ∧
        counted m k pos ps args = (render m ((p :: qs).map Piece.plain) rest).map (cs ++ ·) ∧
        render m ps args = (render m (p :: qs) rest).map (cs ++ ·) := by
  induction ps generalizing pos args with
  | nil => exact .inl ⟨rfl, rfl⟩
  | cons p ps ih =>
    by_cases hlate : p.isChar ∧ k ≤ pos + 1
    · refine .inr ⟨[], p, ps, args, ?_, hlate.1, hlate.2, ?_, ?_⟩
      · rw [late, if_pos hlate]
        rfl
      · rw [counted_of_full hlate.2]
        exact Option.map_id'.symm
      · exact Option.map_id'.symm
    · rw [late, if_neg hlate, counted, count_of_fits hlate, render]
      cases hprint : p.print m args with
      | none => exact .inl ⟨rfl, rfl⟩
      | some r =>
        rcases ih (pos + r.1.length) r.2 with
          ⟨hnone, heq⟩ | ⟨cs, q, qs, rest, hsome, hchar, hfull, hcounted, hrender⟩
        · refine .inl ⟨hnone, ?_⟩
          simp only [Option.bind_eq_bind, Option.bind_some, heq]
        · have hlength : pos + (r.1 ++ cs).length = pos + r.1.length + cs.length := by
            rw [List.length_append, Nat.add_assoc]
          refine .inr ⟨r.1 ++ cs, q, qs, rest, ?_, hchar, ?_, ?_, ?_⟩
          · rw [hlength]
            exact hsome
          · rw [hlength]
            exact hfull
          · simp only [Option.bind_eq_bind, Option.bind_some, hcounted, Option.map_eq_bind, Option.bind_assoc]
            refine Option.bind_congr fun S _ => ?_
            simp only [Function.comp, List.append_assoc, Option.bind_some, pure]
          · simp only [Option.bind_eq_bind, Option.bind_some, hrender, Option.map_eq_bind, Option.bind_assoc]
            refine Option.bind_congr fun S _ => ?_
            simp only [Function.comp, List.append_assoc, Option.bind_some, pure]

/-! ### The end of the buffer -/

/-- **The null byte.** -/
theorem Counts.close (hn : 0 < n) (h : Counts n out st) : Cut n out (st.close n) := by
  have hpos := h.pos
  have hlt := h.length_lt
  have hnlt := n.isLt
  have hn0 : 0 < n.toNat := hn
  have hne : n ≠ 0 := by
    rintro rfl
    exact absurd hn0 (Nat.lt_irrefl 0)
  have hone : (1 : Word).toNat = 1 := rfl
  -- the place of the null byte
  obtain ⟨e, heq, he⟩ : ∃ e : Word, st.close n = (e, 0) :: st.writes ∧ e.toNat = min (n.toNat - 1) out.length := by
    by_cases hfits : st.pos < n
    · refine ⟨st.pos, by rw [Printer.close, if_pos hfits], ?_⟩
      rw [BitVec.lt_def] at hfits
      omega
    · refine ⟨n - 1, by rw [Printer.close, if_neg hfits, if_pos hne], ?_⟩
      rw [BitVec.lt_def] at hfits
      rw [BitVec.toNat_sub, hone]
      omega
  have hplace {i : ℕ} (hi : i < 2 ^ 64) : (BitVec.ofNat 64 i).toNat = i := by
    rw [BitVec.toNat_ofNat]
    exact Nat.mod_eq_of_lt hi
  rw [heq]
  refine ⟨fun w hw => ?_, fun i hi => ?_, ?_⟩
  · rw [BitVec.lt_def]
    rcases List.mem_cons.mp hw with rfl | hw
    · dsimp only
      omega
    · by_contra hge
      have hwritten := h.written w.1
      rw [if_neg (by omega)] at hwritten
      exact written_of_mem hw hwritten
  · have hi' := hplace (i := i) (by omega)
    have hne : e ≠ BitVec.ofNat 64 i := by
      intro heq
      rw [heq, hi'] at he
      omega
    rw [written_cons, if_neg hne, h.written, hi', if_pos (by omega)]
  · have hi' := hplace (i := min (n.toNat - 1) out.length) (by omega)
    rw [written_cons, if_pos (BitVec.eq_of_toNat_eq (he.trans hi'.symm))]

/-- What there is no room for does not matter. -/
theorem Cut.congr {S S' : List Byte} {writes : List (Word × Byte)} (h : Cut n (cs ++ S) writes)
    (hfull : n.toNat ≤ cs.length + 1) : Cut n (cs ++ S') writes := by
  obtain ⟨hin, hchars, hnull⟩ := h
  have hmin (T : List Byte) : min (n.toNat - 1) (cs ++ T).length = n.toNat - 1 := by
    rw [List.length_append]
    omega
  rw [hmin] at hchars hnull
  refine ⟨hin, fun i hi => ?_, ?_⟩
  · rw [hmin] at hi
    rw [hchars i hi, List.getElem?_append_left (by omega), List.getElem?_append_left (by omega)]
  · rwa [hmin]

/-- The count as an `int`. -/
theorem toInt_eq_length {x : Word} {l : ℕ} :
    (x.setWidth 32).toInt = (l : ℤ) ↔ l < 2 ^ 31 ∧ x.toNat % 2 ^ 32 = l := by
  rw [BitVec.toInt_eq_toNat_cond, BitVec.toNat_setWidth]
  have hlt := x.isLt
  split <;> omega

theorem counts_start {args : List Word} : Counts n [] ⟨0, [], args, false, false⟩ := by
  refine ⟨rfl, fun i => ?_⟩
  rw [List.getElem?_nil, ite_self]
  rfl

theorem Printer.close_keeps (st : Printer) : ∀ w ∈ st.writes, w ∈ st.close n := by
  intro w hw
  rw [Printer.close]
  split
  · exact List.mem_cons_of_mem _ hw
  · split
    · exact List.mem_cons_of_mem _ hw
    · exact hw

/-- **The characters that are counted** are cut off and their number returned, or else something strays or
there is no result. -/
theorem vsnprintf_run (m : Memory) (hn : 0 < n) (ps : List Piece) (args : List Word) :
    (∃ cs writes ret, counted m n.toNat 0 ps args = some cs ∧ cs.length < 2 ^ 64 ∧
      vsnprintf m n (formatBytes ps) args = some (writes, ret) ∧ Cut n cs writes ∧
      ∀ l : ℕ, ret = (l : ℤ) ↔ l < 2 ^ 31 ∧ cs.length % 2 ^ 32 = l) ∨
    ((∀ cs, counted m n.toNat 0 ps args = some cs → 2 ^ 64 ≤ cs.length) ∧
      ∀ writes ret, vsnprintf m n (formatBytes ps) args = some (writes, ret) → ∃ w ∈ writes, ¬ w.1 < n) := by
  have hstart : Counts n [] ⟨0, [], args, false, false⟩ := counts_start
  rcases format_run (m := m) hn ps hstart ⟨rfl, rfl⟩ with ⟨cs, st, hcount, hroom, hrun, hcounts⟩ | ⟨hcount, hstrays⟩
  · rw [List.length_nil, Nat.zero_add] at hroom
    rw [List.nil_append] at hcounts
    refine .inl ⟨cs, st.close n, (st.pos.setWidth 32).toInt, hcount, hroom, ?_, hcounts.close hn, fun l => ?_⟩
    · rw [vsnprintf, hrun]
      rfl
    · rw [toInt_eq_length, hcounts.pos]
  · refine .inr ⟨fun cs hcs => ?_, fun writes ret hrun => ?_⟩
    · have hle := hcount cs hcs
      rwa [List.length_nil, Nat.zero_add] at hle
    · obtain ⟨st, hst, hpure⟩ := Option.bind_eq_some_iff.mp hrun
      obtain ⟨w, hw, hlt⟩ := hstrays st hst
      cases hpure
      exact ⟨w, st.close_keeps w hw, hlt⟩

/-- **The output is cut off and its length returned** exactly if the length is an `int` and, if there is a `%c`
for which there is no room, the format from there on has the same length, modulo 2^32, with each `%c` a character
that takes no argument. -/
theorem truncates_iff (hn : 0 < n) {ps : List Piece} {args : List Word} (h : render m ps args = some out) :
    Truncates m n ps args out ↔ out.length < 2 ^ 31 ∧ ∀ pos qs rest, late m n.toNat 0 ps args = some
    (pos, qs, rest) →
      ∃ cs, render m (qs.map Piece.plain) rest = some cs ∧ pos + cs.length < 2 ^ 64 ∧
        (pos + cs.length) % 2 ^ 32 = out.length := by
  constructor
  · rintro ⟨writes, hrun, hcut⟩
    rcases vsnprintf_run m hn ps args with ⟨ds, writes', ret, hcount, hroom, hrun', -, hret⟩ | ⟨-, hstrays⟩
    · rw [hrun] at hrun'
      cases hrun'
      obtain ⟨hint, hmod⟩ := (hret _).mp rfl
      refine ⟨hint, fun pos qs rest hlate => ?_⟩
      rcases counted_late (m := m) n.toNat ps 0 args with ⟨hnone, -⟩ | ⟨pre, p, qs', rest', hsome, -, -, hcounted, -⟩
      · rw [hnone] at hlate
        cases hlate
      · rw [hsome] at hlate
        cases hlate
        rw [hcount] at hcounted
        obtain ⟨cs, hcs, hds⟩ := Option.map_eq_some_iff.mp hcounted.symm
        rw [← hds, List.length_append] at hroom hmod
        refine ⟨cs, hcs, ?_, ?_⟩
        · rwa [Nat.zero_add]
        · rwa [Nat.zero_add]
    · obtain ⟨w, hw, hlt⟩ := hstrays _ _ hrun
      exact absurd (hcut.1 w hw) hlt
  · rintro ⟨hint, hcond⟩
    -- what is counted has the same length, and the same characters where there is room
    obtain ⟨ds, hcount, hroom, hmod, hcut⟩ : ∃ ds, counted m n.toNat 0 ps args = some ds ∧ ds.length < 2 ^ 64 ∧
        ds.length % 2 ^ 32 = out.length ∧ ∀ writes, Cut n ds writes → Cut n out writes := by
      rcases counted_late (m := m) n.toNat ps 0 args with
        ⟨-, heq⟩ | ⟨pre, p, qs, rest, hsome, -, hfull, hcounted, hrender⟩
      · exact ⟨out, heq.trans h, by omega, by omega, fun writes hcut => hcut⟩
      · obtain ⟨cs, hcs, hroom, hmod⟩ := hcond _ _ _ hsome
        rw [Nat.zero_add] at hfull hroom hmod
        rw [h] at hrender
        obtain ⟨S, -, rfl⟩ := Option.map_eq_some_iff.mp hrender.symm
        rw [hcs] at hcounted
        rw [← List.length_append] at hroom hmod
        exact ⟨pre ++ cs, hcounted, hroom, hmod, fun writes hcut => hcut.congr hfull⟩
    rcases vsnprintf_run m hn ps args with ⟨ds', writes, ret, hcount', -, hrun, hcut', hret⟩ | ⟨hwraps, -⟩
    · rw [hcount] at hcount'
      cases hcount'
      have hlength := (hret out.length).mpr ⟨hint, hmod⟩
      exact ⟨writes, hlength ▸ hrun, hcut writes hcut'⟩
    · exact absurd (hwraps ds hcount) (Nat.not_le.mpr hroom)

/-- `ab%c%d` of `'d'` and 5. -/
def charThenNumber : List Piece :=
  [.lit ⟨chr 'a', by decide⟩, .lit ⟨chr 'b', by decide⟩, .conv false .c, .conv false .d]

theorem truncates_iff_charThenNumber :
    Truncates (fun _ => 0) 4 charThenNumber [100, 5] [chr 'a', chr 'b', chr 'd', chr '5'] :=
  (truncates_iff (by decide) (by decide +kernel)).mpr ⟨by decide, fun pos qs rest hlate => nomatch hlate⟩

/-- In two bytes there is no room for the `d`, and the number is that of the character. -/
theorem not_truncates :
    render (fun _ => 0) charThenNumber [100, 5] = some [chr 'a', chr 'b', chr 'd', chr '5'] ∧
      vsnprintf (fun _ => 0) 2 (formatBytes charThenNumber) [100, 5] = some ([(1, 0), (0, chr 'a')], 6) ∧
      ¬ Truncates (fun _ => 0) 2 charThenNumber [100, 5] [chr 'a', chr 'b', chr 'd', chr '5'] := by
  have hrun : vsnprintf (fun _ => 0) 2 (formatBytes charThenNumber) [100, 5] = some ([(1, 0), (0, chr 'a')], 6) := by
    decide +kernel
  refine ⟨by decide +kernel, hrun, ?_⟩
  rintro ⟨writes, hrun', -⟩
  rw [hrun] at hrun'
  cases hrun'

end Snprintf

end Sanctum
