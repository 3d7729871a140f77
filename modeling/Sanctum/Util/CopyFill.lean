import Sanctum.Arch.Machine

/-!
# Copying and filling memory

`memcpy` and `memset`, which `bcopy` and `bzero` of `memory.h` call. Each has a loop for words, which is
entered if the pointers (or the pointer and the length) are aligned, and a loop for bytes. `memcpy` goes from
the first to the second for the bytes that do not make a word.

The loops compare a pointer with the end of the range, and the word loop of `memcpy` with the end less 7. So
it never ends if the end is below 7, since every aligned pointer is below what comes of the subtraction. And
a range that goes up to the last address has its end at 0.

## What is proved

* `copiesAndFills_iff` — when the routines do what the byte loops `byteCopy` and `byteFill` do, and write nothing
  outside the range.
* `bzero_refines` — `bzero` is what the monitor's calls take it to be.
-/

namespace Sanctum

open Memory

namespace CopyFill

/-! ### The code -/

/-- What the routines do with memory. -/
inductive AccessOp where
  /-- Load a byte. -/
  | load8 (a : Word)
  /-- Store a byte. -/
  | store8 (a : Word) (v : Byte)
  /-- Load a word. -/
  | load64 (a : Word)
  /-- Store a word. -/
  | store64 (a v : Word)

/-- The kind of answer each access gets. -/
def AccessOp.Answer : AccessOp → Type
  | load8 _ => Byte
  | load64 _ => Word
  | _ => Unit

/-- The interface. -/
abbrev accesses : Interface := ⟨AccessOp, AccessOp.Answer⟩

/-- The accesses, on memory. -/
def accessExec : Handler accesses Memory
  | .load8 a, m => some (m a, m)
  | .store8 a v, m => some ((), Function.update m a v)
  | .load64 a, m => some (m.load64 a, m)
  | .store64 a v, m => some ((), m.store64 a v)

/-- `*p`, of a `char` pointer. -/
def load8 (a : Word) : Prog accesses Byte := Prog.request (I := accesses) (.load8 a)

/-- `*p = v`, of a `char` pointer. -/
def store8 (a : Word) (v : Byte) : Prog accesses Unit := Prog.request (I := accesses) (.store8 a v)

/-- `*p`, of a `uintptr_t` pointer. -/
def load64 (a : Word) : Prog accesses Word := Prog.request (I := accesses) (.load64 a)

/-- `*p = v`, of a `uintptr_t` pointer. -/
def store64 (a v : Word) : Prog accesses Unit := Prog.request (I := accesses) (.store64 a v)

/-- A round of the word loop of `memcpy`. The loop variables are `d` and `s`. -/
def copyWord (bound : Word) (p : Word × Word) : Prog accesses ((Word × Word) ⊕ (Word × Word)) :=
  if p.1 < bound then do
    let v ← load64 p.2
    store64 p.1 v
    return .inl (p.1 + 8, p.2 + 8)
  else return .inr p

/-- A round of the byte loop of `memcpy`. -/
def copyByte (bound : Word) (p : Word × Word) : Prog accesses ((Word × Word) ⊕ (Word × Word)) :=
  if p.1 < bound then do
    let v ← load8 p.2
    store8 p.1 v
    return .inl (p.1 + 1, p.2 + 1)
  else return .inr p

/-- The word loop of `memcpy`, if it is entered. -/
def copyWords (k : ℕ) (dest src len : Word) : Prog accesses (Option (Word × Word)) :=
  if (dest ||| src) &&& (8 - 1) = 0 then Prog.whileSome (copyWord (dest + len - (8 - 1))) k (dest, src)
  else return some (dest, src)

/-- `memcpy`, if no loop has more than `k` rounds. -/
def memcpy (k : ℕ) (dest src len : Word) : Prog accesses (Option Word) := do
  match ← copyWords k dest src len with
  | none => return none
  | some p =>
    let done ← Prog.whileSome (copyByte (dest + len)) k p
    return done.map fun _ => dest

/-- The low byte of a word in all the other ones. -/
def spread (word : Word) : Word :=
  let word := word ||| word <<< 8
  let word := word ||| word <<< 16
  word ||| word <<< 16 <<< 16

/-- `word`. -/
def fillWord (byte : BitVec 32) : Word := spread ((byte &&& 0xFF).setWidth 64)

/-- A round of the word loop of `memset`. -/
def setWord (bound word d : Word) : Prog accesses (Word ⊕ Unit) :=
  if d < bound then do
    store64 d word
    return .inl (d + 8)
  else return .inr ()

/-- A round of the byte loop of `memset`. -/
def setByte (bound : Word) (byte : Byte) (d : Word) : Prog accesses (Word ⊕ Unit) :=
  if d < bound then do
    store8 d byte
    return .inl (d + 1)
  else return .inr ()

/-- `memset`, if no loop has more than `k` rounds. -/
def memset (k : ℕ) (dest : Word) (byte : BitVec 32) (len : Word) : Prog accesses (Option Word) := do
  let done ←
    if (dest ||| len) &&& (8 - 1) = 0 then Prog.whileSome (setWord (dest + len) (fillWord byte)) k dest
    else Prog.whileSome (setByte (dest + len) (byte.setWidth 8)) k dest
  return done.map fun _ => dest

/-- `bzero`. -/
def bzero (k : ℕ) (start bytes : Word) : Prog accesses (Option Word) := memset k start 0 bytes

/-- `bcopy`. -/
def bcopy (k : ℕ) (dest source bytes : Word) : Prog accesses (Option Word) := memcpy k dest source bytes

/-! ### What is expected -/

/-- `n` bytes copied one by one. -/
def byteCopy (m : Memory) (dest src : Word) : ℕ → Memory
  | 0 => m
  | n + 1 =>
    Function.update (byteCopy m dest src n) (dest + BitVec.ofNat 64 n)
      (byteCopy m dest src n (src + BitVec.ofNat 64 n))

/-- `n` bytes filled one by one. -/
def byteFill (m : Memory) (dest : Word) (x : Byte) : ℕ → Memory
  | 0 => m
  | n + 1 => Function.update (byteFill m dest x n) (dest + BitVec.ofNat 64 n) x

/-- The byte `b` is written. -/
def AccessOp.Writes : AccessOp → Word → Prop
  | store8 a _, b => b = a
  | store64 a _, b => Within a 8 b
  | _, _ => False

/-- Nothing is written outside the range. -/
def WritesIn (dest len : Word) (o : AccessOp) (_ : Memory) : Prop := ∀ b, o.Writes b → Within dest len.toNat b

/-- **`memcpy` copies**: it comes to an end, memory is that of the byte copy, and nothing is written outside
the range. -/
def Copies (m : Memory) (dest src len : Word) : Prop :=
  ∃ K, ∀ k ≥ K, Prog.Leads accessExec (WritesIn dest len) (memcpy k dest src len) m (some dest)
    (byteCopy m dest src len.toNat)

/-- **`memset` fills** the range. -/
def Fills (m : Memory) (dest : Word) (byte : BitVec 32) (len : Word) : Prop :=
  ∃ K, ∀ k ≥ K, Prog.Leads accessExec (WritesIn dest len) (memset k dest byte len) m (some dest)
    (byteFill m dest (byte.setWidth 8) len.toNat)

variable {m : Memory} {dest src len : Word} {n : ℕ}

/-! ### Byte by byte -/

theorem byteCopy_apply (hapart : Apart dest n src n) (hn : n ≤ 2 ^ 64) (b : Word) :
    byteCopy m dest src n b = if Within dest n b then m (src + (b - dest)) else m b := by
  induction n generalizing b with
  | zero => exact (if_neg (Nat.not_lt_zero _)).symm
  | succ n ih =>
    have hprefix : Apart dest n src n := fun x hd hs => hapart x (hd.mono (by omega)) (hs.mono (by omega))
    have hsource : ¬ Within dest n (src + BitVec.ofNat 64 n) := fun hd =>
      hapart _ (hd.mono (by omega)) (within_add (Nat.lt_succ_self n) hn)
    rw [byteCopy, Function.update_apply, ih hprefix (by omega), ih hprefix (by omega), if_neg hsource]
    have hsplit := within_add_iff (a := dest) (b := b) hn
    rw [within_one_iff] at hsplit
    by_cases hb : b = dest + BitVec.ofNat 64 n
    · have hoffset : dest + BitVec.ofNat 64 n - dest = BitVec.ofNat 64 n := by
        rw [BitVec.add_comm, BitVec.add_sub_cancel]
      rw [if_pos hb, if_pos (hsplit.mpr (.inr hb)), hb, hoffset]
    · rw [if_neg hb]
      exact if_congr (hsplit.trans (or_iff_left hb)).symm rfl rfl

theorem byteFill_eq_fill (m : Memory) (dest : Word) (x : Byte) (hn : n ≤ 2 ^ 64) :
    byteFill m dest x n = m.fill dest n x := by
  induction n with
  | zero => exact funext fun b => (fill_of_not_within (Nat.not_lt_zero _)).symm
  | succ n ih =>
    funext b
    have hsplit := within_add_iff (a := dest) (b := b) hn
    rw [within_one_iff] at hsplit
    rw [byteFill, Function.update_apply, ih (by omega)]
    by_cases hb : b = dest + BitVec.ofNat 64 n
    · rw [if_pos hb, fill_of_within (hsplit.mpr (.inr hb))]
    · rw [if_neg hb, fill, fill]
      exact if_congr (hsplit.trans (or_iff_left hb)).symm rfl rfl

/-- Nothing is to be copied if the bytes are there already. -/
theorem byteCopy_eq_self_iff (hapart : Apart dest n src n) (hn : n ≤ 2 ^ 64) :
    byteCopy m dest src n = m ↔ ∀ i < n, m (dest + BitVec.ofNat 64 i) = m (src + BitVec.ofNat 64 i) := by
  constructor
  · intro h i hi
    have hi' := congrFun h (dest + BitVec.ofNat 64 i)
    rw [byteCopy_apply hapart hn, if_pos (within_add hi hn), BitVec.add_comm dest, BitVec.add_sub_cancel] at hi'
    rw [BitVec.add_comm dest]
    exact hi'.symm
  · intro h
    funext b
    rw [byteCopy_apply hapart hn]
    split
    · next hb =>
      obtain ⟨i, hi, rfl⟩ := exists_of_within hb
      rw [h i hi, BitVec.add_comm dest, BitVec.add_sub_cancel]
    · rfl

theorem byteFill_eq_self_iff {x : Byte} (hn : n ≤ 2 ^ 64) :
    byteFill m dest x n = m ↔ ∀ i < n, m (dest + BitVec.ofNat 64 i) = x := by
  rw [byteFill_eq_fill m dest x hn]
  constructor
  · intro h i hi
    rw [← congrFun h (dest + BitVec.ofNat 64 i), fill_of_within (within_add hi hn)]
  · intro h
    funext b
    by_cases hb : Within dest n b
    · obtain ⟨i, hi, rfl⟩ := exists_of_within hb
      rw [fill_of_within hb, h i hi]
    · exact fill_of_not_within hb

/-! ### Word by word -/

/-- **A word is eight bytes.** -/
theorem byteCopy_word (hapart : Apart dest (n + 8) src (n + 8)) (hn : n + 8 ≤ 2 ^ 64) :
    (byteCopy m dest src n).store64 (dest + BitVec.ofNat 64 n)
      ((byteCopy m dest src n).load64 (src + BitVec.ofNat 64 n)) = byteCopy m dest src (n + 8) := by
  have hprefix : Apart dest n src n := fun x hd hs => hapart x (hd.mono (by omega)) (hs.mono (by omega))
  funext b
  rw [byteCopy_apply hapart hn]
  by_cases hb : Within (dest + BitVec.ofNat 64 n) 8 b
  · obtain ⟨i, hi, rfl⟩ := exists_of_within hb
    have hsource : ¬ Within dest n (src + BitVec.ofNat 64 (n + i)) := fun hd =>
      hapart _ (hd.mono (by omega)) (within_add (by omega) hn)
    rw [store64_load64 _ _ _ _ hi, if_pos ((within_add_iff hn).mpr (.inr hb)), BitVec.add_assoc src,
      BitVec.add_assoc dest, ← BitVec.ofNat_add, byteCopy_apply hprefix (by omega), if_neg hsource,
      BitVec.add_comm dest, BitVec.add_sub_cancel]
  · rw [store64_of_not_within hb, byteCopy_apply hprefix (by omega)]
    exact if_congr ((within_add_iff hn).trans (or_iff_left hb)).symm rfl rfl

theorem spread_byte : ∀ x : Byte, ∀ i < 8, BitVec.ofNat 8 ((spread (x.setWidth 64)).toNat / 256 ^ i) = x := by
  decide +kernel

/-- Every byte of `word` is the byte. -/
theorem fillWord_byte (byte : BitVec 32) {i : ℕ} (hi : i < 8) :
    BitVec.ofNat 8 ((fillWord byte).toNat / 256 ^ i) = byte.setWidth 8 := by
  have hlow : (byte &&& 0xFF).setWidth 64 = ((byte.setWidth 8).setWidth 64 : Word) := by
    apply BitVec.eq_of_toNat_eq
    rw [BitVec.toNat_setWidth, BitVec.toNat_setWidth, BitVec.toNat_setWidth, BitVec.toNat_and]
    have hmask : byte.toNat &&& (0xFF : BitVec 32).toNat = byte.toNat % 2 ^ 8 := Nat.and_two_pow_sub_one_eq_mod _ 8
    rw [hmask]
  rw [fillWord, hlow]
  exact spread_byte (byte.setWidth 8) i hi

theorem byteFill_word (m : Memory) (dest : Word) (byte : BitVec 32) (hn : n + 8 ≤ 2 ^ 64) :
    (byteFill m dest (byte.setWidth 8) n).store64 (dest + BitVec.ofNat 64 n) (fillWord byte) =
      byteFill m dest (byte.setWidth 8) (n + 8) := by
  funext b
  rw [byteFill_eq_fill _ _ _ hn, byteFill_eq_fill _ _ _ (by omega), Memory.store64]
  by_cases hb : Within (dest + BitVec.ofNat 64 n) 8 b
  · rw [store_of_within hb, fill_of_within ((within_add_iff hn).mpr (.inr hb)), fillWord_byte byte hb]
  · rw [store_of_not_within hb, fill, fill]
    exact if_congr ((within_add_iff hn).trans (or_iff_left hb)).symm rfl rfl

/-! ### The loops -/

/-- The pointer is below the end. -/
theorem add_lt_add_iff (hend : dest.toNat + len.toNat < 2 ^ 64) {i : ℕ} (hi : i ≤ len.toNat) :
    dest + BitVec.ofNat 64 i < dest + len ↔ i < len.toNat := by
  rw [BitVec.lt_def, toNat_add_ofNat (by omega), BitVec.toNat_add, Nat.mod_eq_of_lt hend]
  omega

/-- The pointer is below the end less 7. -/
theorem add_lt_add_sub_iff (hend : dest.toNat + len.toNat < 2 ^ 64) (hlow : 7 ≤ dest.toNat + len.toNat) {i : ℕ}
    (hi : i ≤ len.toNat) : dest + BitVec.ofNat 64 i < dest + len - (8 - 1) ↔ i + 8 ≤ len.toNat := by
  have hseven : ((8 - 1 : Word)).toNat = 7 := rfl
  rw [BitVec.lt_def, toNat_add_ofNat (by omega), BitVec.toNat_sub, hseven, BitVec.toNat_add,
    Nat.mod_eq_of_lt hend]
  omega

theorem aligned_iff (a b : Word) : (a ||| b) &&& (8 - 1) = 0 ↔ a.toNat % 8 = 0 ∧ b.toNat % 8 = 0 := by
  have hmask : ((a ||| b) &&& (8 - 1)).toNat = a.toNat % 2 ^ 3 ||| b.toNat % 2 ^ 3 := by
    rw [BitVec.toNat_and, BitVec.toNat_or, ← Nat.or_mod_two_pow]
    exact Nat.and_two_pow_sub_one_eq_mod _ 3
  have hzero : (0 : Word).toNat = 0 := rfl
  rw [← BitVec.toNat_inj, hmask, hzero, Nat.or_eq_zero_iff]
  exact Iff.rfl

/-- A round of the byte loop of `memcpy`. -/
theorem copyByte_leads (hend : dest.toNat + len.toNat < 2 ^ 64) {i : ℕ} (hi : i < len.toNat) :
    Prog.Leads accessExec (WritesIn dest len)
    (copyByte (dest + len) (dest + BitVec.ofNat 64 i, src + BitVec.ofNat 64 i))
      (byteCopy m dest src i) (.inl (dest + BitVec.ofNat 64 (i + 1), src + BitVec.ofNat 64 (i + 1)))
      (byteCopy m dest src (i + 1)) := by
  have hnext (a : Word) : a + BitVec.ofNat 64 i + 1 = a + BitVec.ofNat 64 (i + 1) := by
    rw [BitVec.ofNat_add, ← BitVec.add_assoc]
    rfl
  rw [copyByte, if_pos ((add_lt_add_iff hend hi.le).mpr hi), hnext, hnext]
  refine (Prog.Leads.request nofun rfl).bind ((Prog.Leads.request ?_ rfl).bind (.pure _ _))
  rintro b rfl
  exact within_add hi (by omega)

/-- **The byte loop** of `memcpy`. -/
theorem copyBytes_leads (hend : dest.toNat + len.toNat < 2 ^ 64) {j k : ℕ} (hj : j ≤ len.toNat)
    (hk : len.toNat < k) :
    Prog.Leads accessExec (WritesIn dest len)
      (Prog.whileSome (copyByte (dest + len)) k (dest + BitVec.ofNat 64 j, src + BitVec.ofNat 64 j))
      (byteCopy m dest src j) (some (dest + BitVec.ofNat 64 len.toNat, src + BitVec.ofNat 64 len.toNat))
      (byteCopy m dest src len.toNat) := by
  obtain ⟨n, hn⟩ := Nat.exists_eq_add_of_le hj
  rw [hn]
  refine Prog.Leads.whileSome (b := fun i => (dest + BitVec.ofNat 64 (j + i), src + BitVec.ofNat 64 (j + i)))
    (t := fun i => byteCopy m dest src (j + i)) (fun i hi => copyByte_leads hend (by omega)) ?_ (by omega)
  rw [copyByte, if_neg fun hlt => absurd ((add_lt_add_iff hend hn.ge).mp hlt) (by omega)]
  exact .pure _ _

/-- A round of the word loop of `memcpy`. -/
theorem copyWord_leads (hend : dest.toNat + len.toNat < 2 ^ 64) (hlow : 7 ≤ dest.toNat + len.toNat)
    (hapart : Apart dest len.toNat src len.toNat) {i : ℕ} (hi : i + 8 ≤ len.toNat) :
    Prog.Leads accessExec (WritesIn dest len)
      (copyWord (dest + len - (8 - 1)) (dest + BitVec.ofNat 64 i, src + BitVec.ofNat 64 i))
      (byteCopy m dest src i) (.inl (dest + BitVec.ofNat 64 (i + 8), src + BitVec.ofNat 64 (i + 8)))
      (byteCopy m dest src (i + 8)) := by
  have hnext (a : Word) : a + BitVec.ofNat 64 i + 8 = a + BitVec.ofNat 64 (i + 8) := by
    rw [BitVec.ofNat_add, ← BitVec.add_assoc]
    rfl
  have hprefix : Apart dest (i + 8) src (i + 8) := fun x hd hs => hapart x (hd.mono hi) (hs.mono hi)
  rw [copyWord, if_pos ((add_lt_add_sub_iff hend hlow (by omega)).mpr hi), hnext, hnext,
    ← byteCopy_word hprefix (by omega)]
  refine (Prog.Leads.request nofun rfl).bind ((Prog.Leads.request ?_ rfl).bind (.pure _ _))
  exact fun b hb => hb.of_add hi (by omega)

/-- **The word loop** of `memcpy` copies the whole words. -/
theorem copyWords_leads (hend : dest.toNat + len.toNat < 2 ^ 64) (hapart : Apart dest len.toNat src len.toNat)
    (hlow : ¬ (dest = 0 ∧ src.toNat % 8 = 0 ∧ len.toNat < 7)) {k : ℕ} (hk : len.toNat < k) :
    ∃ j ≤ len.toNat, Prog.Leads accessExec (WritesIn dest len) (copyWords k dest src len) m
      (some (dest + BitVec.ofNat 64 j, src + BitVec.ofNat 64 j)) (byteCopy m dest src j) := by
  have hzero (a : Word) : a + BitVec.ofNat 64 0 = a := BitVec.add_zero a
  rw [copyWords]
  by_cases haligned : (dest ||| src) &&& (8 - 1) = 0
  · obtain ⟨hdest, hsrc⟩ := (aligned_iff dest src).mp haligned
    have hseven : 7 ≤ dest.toNat + len.toNat := by
      by_contra hlt
      exact hlow ⟨BitVec.eq_of_toNat_eq (show dest.toNat = 0 by omega), hsrc, by omega⟩
    refine ⟨8 * (len.toNat / 8), by omega, ?_⟩
    rw [if_pos haligned]
    have hlast : Prog.Leads accessExec (WritesIn dest len)
        (copyWord (dest + len - (8 - 1)) (dest + BitVec.ofNat 64 (8 * (len.toNat / 8)),
          src + BitVec.ofNat 64 (8 * (len.toNat / 8)))) (byteCopy m dest src (8 * (len.toNat / 8)))
        (.inr (dest + BitVec.ofNat 64 (8 * (len.toNat / 8)), src + BitVec.ofNat 64 (8 * (len.toNat / 8))))
        (byteCopy m dest src (8 * (len.toNat / 8))) := by
      rw [copyWord, if_neg fun hlt => absurd ((add_lt_add_sub_iff hend hseven (by omega)).mp hlt) (by omega)]
      exact .pure _ _
    have hloop := Prog.Leads.whileSome (k := k)
      (b := fun i => (dest + BitVec.ofNat 64 (8 * i), src + BitVec.ofNat 64 (8 * i)))
      (t := fun i => byteCopy m dest src (8 * i))
      (fun i hi => copyWord_leads hend hseven hapart (show 8 * i + 8 ≤ len.toNat by omega)) hlast (by omega)
    rwa [Nat.mul_zero, hzero, hzero] at hloop
  · refine ⟨0, Nat.zero_le _, ?_⟩
    rw [if_neg haligned, hzero, hzero]
    exact .pure _ _

/-- A word loop of `memcpy` whose end is among the last seven addresses never ends. -/
theorem copyWords_never (src : Word) {bound : Word} (hbound : 2 ^ 64 - 7 ≤ bound.toNat) (hdest : dest.toNat % 8 = 0)
    (k : ℕ)
    (m : Memory) : ∃ m', (Prog.whileSome (copyWord bound) k (dest, src)).run accessExec m = some (none, m') := by
  refine Prog.run_whileSome_of_never (P := fun p _ => p.1.toNat % 8 = 0) (fun p m hp => ?_) k hdest
  have hlt : p.1 < bound := by
    have hle := p.1.isLt
    rw [BitVec.lt_def]
    omega
  refine ⟨(p.1 + 8, p.2 + 8), _, by rw [copyWord, if_pos hlt]; rfl, ?_⟩
  have height : (8 : Word).toNat = 8 := rfl
  rw [BitVec.toNat_add, height]
  omega

/-- A round of the byte loop of `memset`. -/
theorem setByte_leads (hend : dest.toNat + len.toNat < 2 ^ 64) (x : Byte) {i : ℕ} (hi : i < len.toNat) :
    Prog.Leads accessExec (WritesIn dest len) (setByte (dest + len) x (dest + BitVec.ofNat 64 i))
      (byteFill m dest x i) (.inl (dest + BitVec.ofNat 64 (i + 1))) (byteFill m dest x (i + 1)) := by
  have hnext : dest + BitVec.ofNat 64 i + 1 = dest + BitVec.ofNat 64 (i + 1) := by
    rw [BitVec.ofNat_add, ← BitVec.add_assoc]
    rfl
  rw [setByte, if_pos ((add_lt_add_iff hend hi.le).mpr hi), hnext]
  refine (Prog.Leads.request ?_ rfl).bind (.pure _ _)
  rintro b rfl
  exact within_add hi (by omega)

/-- A round of the word loop of `memset`. -/
theorem setWord_leads (hend : dest.toNat + len.toNat < 2 ^ 64) (byte : BitVec 32) {i : ℕ} (hi : i + 8 ≤ len.toNat) :
    Prog.Leads accessExec (WritesIn dest len) (setWord (dest + len) (fillWord byte) (dest + BitVec.ofNat 64 i))
      (byteFill m dest (byte.setWidth 8) i) (.inl (dest + BitVec.ofNat 64 (i + 8)))
      (byteFill m dest (byte.setWidth 8) (i + 8)) := by
  have hnext : dest + BitVec.ofNat 64 i + 8 = dest + BitVec.ofNat 64 (i + 8) := by
    rw [BitVec.ofNat_add, ← BitVec.add_assoc]
    rfl
  rw [setWord, if_pos ((add_lt_add_iff hend
    (by omega)).mpr (by omega)), hnext, ← byteFill_word m dest byte (by omega)]
  refine (Prog.Leads.request ?_ rfl).bind (.pure _ _)
  exact fun b hb => hb.of_add hi (by omega)

/-! ### The routines -/

/-- **`memcpy`**, where its end pointers do not wrap. -/
theorem memcpy_leads (hend : dest.toNat + len.toNat < 2 ^ 64) (hapart : Apart dest len.toNat src len.toNat)
    (hlow : ¬ (dest = 0 ∧ src.toNat % 8 = 0 ∧ len.toNat < 7)) {k : ℕ} (hk : len.toNat < k) :
    Prog.Leads accessExec (WritesIn dest len) (memcpy k dest src len) m (some dest)
      (byteCopy m dest src len.toNat) := by
  obtain ⟨j, hj, hwords⟩ := copyWords_leads (m := m) hend hapart hlow hk
  exact hwords.bind ((copyBytes_leads hend hj hk).bind (.pure _ _))

/-- **`memset`**, where its end pointer does not wrap. -/
theorem memset_leads (hend : dest.toNat + len.toNat < 2 ^ 64) (byte : BitVec 32) {k : ℕ} (hk : len.toNat < k) :
    Prog.Leads accessExec (WritesIn dest len) (memset k dest byte len) m (some dest)
      (byteFill m dest (byte.setWidth 8) len.toNat) := by
  have hzero : dest + BitVec.ofNat 64 0 = dest := BitVec.add_zero dest
  have hlen : dest + BitVec.ofNat 64 len.toNat = dest + len := by rw [BitVec.ofNat_toNat, BitVec.setWidth_eq]
  rw [memset]
  by_cases haligned : (dest ||| len) &&& (8 - 1) = 0
  · obtain ⟨hdest, hmod⟩ := (aligned_iff dest len).mp haligned
    have hwords : 8 * (len.toNat / 8) = len.toNat := by omega
    have hlast : Prog.Leads accessExec (WritesIn dest len)
        (setWord (dest + len) (fillWord byte) (dest + BitVec.ofNat 64 (8 * (len.toNat / 8))))
        (byteFill m dest (byte.setWidth 8) (8 * (len.toNat / 8))) (.inr ())
        (byteFill m dest (byte.setWidth 8) (8 * (len.toNat / 8))) := by
      rw [hwords, hlen, setWord, if_neg (BitVec.lt_irrefl _)]
      exact .pure _ _
    have hloop := Prog.Leads.whileSome (k := k) (b := fun i => dest + BitVec.ofNat 64 (8 * i))
      (t := fun i => byteFill m dest (byte.setWidth 8) (8 * i))
      (fun i hi => setWord_leads hend byte (show 8 * i + 8 ≤ len.toNat by omega)) hlast (by omega)
    rw [Nat.mul_zero, hzero, hwords] at hloop
    rw [if_pos haligned]
    exact hloop.bind (.pure _ _)
  · have hlast : Prog.Leads accessExec (WritesIn dest len)
        (setByte (dest + len) (byte.setWidth 8) (dest + BitVec.ofNat 64 len.toNat))
        (byteFill m dest (byte.setWidth 8) len.toNat) (.inr ()) (byteFill m dest (byte.setWidth 8) len.toNat) := by
      rw [hlen, setByte, if_neg (BitVec.lt_irrefl _)]
      exact .pure _ _
    have hloop := Prog.Leads.whileSome (k := k) (b := fun i => dest + BitVec.ofNat 64 i)
      (t := fun i => byteFill m dest (byte.setWidth 8) i)
        (fun i hi => setByte_leads hend (byte.setWidth 8) hi) hlast hk
    rw [hzero] at hloop
    rw [if_neg haligned]
    exact hloop.bind (.pure _ _)

/-- A range up to the last address has its end at 0. -/
theorem add_eq_zero (hend : dest.toNat + len.toNat = 2 ^ 64) : dest + len = 0 := by
  apply BitVec.eq_of_toNat_eq
  have hzero : (0 : Word).toNat = 0 := rfl
  rw [BitVec.toNat_add, hend, Nat.mod_self, hzero]

/-- If it wraps, the range does not begin below its end. -/
theorem not_lt_add (hend : 2 ^ 64 ≤ dest.toNat + len.toNat) : ¬ dest < dest + len := by
  have hdest := dest.isLt
  have hlen := len.isLt
  rw [BitVec.lt_def, BitVec.toNat_add]
  omega

/-- There nothing is copied byte by byte. -/
theorem memcpy_leads_of_end (hend : 2 ^ 64 ≤ dest.toNat + len.toNat) (haligned : ¬ (dest ||| src) &&& (8 - 1) = 0)
    {k : ℕ} (hk : 0 < k) : Prog.Leads accessExec (WritesIn dest len) (memcpy k dest src len) m (some dest) m := by
  have hwords : Prog.Leads accessExec (WritesIn dest len) (copyWords k dest src len) m (some (dest, src)) m := by
    rw [copyWords, if_neg haligned]
    exact .pure _ _
  have hlast : Prog.Leads accessExec (WritesIn dest len) (copyByte (dest + len) (dest, src)) m
    (.inr (dest, src)) m := by
    rw [copyByte, if_neg (not_lt_add hend)]
    exact .pure _ _
  have hloop := Prog.Leads.whileSome (k := k) (n := 0) (b := fun _ => (dest, src)) (t := fun _ => m)
    (fun i hi => absurd hi (Nat.not_lt_zero i)) hlast hk
  exact hwords.bind (hloop.bind (.pure _ _))

/-- And nothing is filled. -/
theorem memset_leads_of_end (hend : 2 ^ 64 ≤ dest.toNat + len.toNat) (byte : BitVec 32) {k : ℕ} (hk : 0 < k) :
    Prog.Leads accessExec (WritesIn dest len) (memset k dest byte len) m (some dest) m := by
  have hword : Prog.Leads accessExec (WritesIn dest len) (setWord (dest + len) (fillWord byte) dest) m (.inr ()) m :=
    by
    rw [setWord, if_neg (not_lt_add hend)]
    exact .pure _ _
  have hbyte : Prog.Leads accessExec (WritesIn dest len) (setByte (dest + len) (byte.setWidth 8) dest) m
    (.inr ()) m := by
    rw [setByte, if_neg (not_lt_add hend)]
    exact .pure _ _
  rw [memset]
  split
  · exact (Prog.Leads.whileSome (n := 0) (b := fun _ => dest) (t := fun _ => m)
      (fun i hi => absurd hi (Nat.not_lt_zero i)) hword hk).bind (.pure _ _)
  · exact (Prog.Leads.whileSome (n := 0) (b := fun _ => dest) (t := fun _ => m)
      (fun i hi => absurd hi (Nat.not_lt_zero i)) hbyte hk).bind (.pure _ _)

/-- `memcpy` does not come to an end if its word loop does not. -/
theorem memcpy_never (haligned : (dest ||| src) &&& (8 - 1) = 0)
    (hbound : 2 ^ 64 - 7 ≤ (dest + len - (8 - 1)).toNat) (k : ℕ) (m : Memory) :
    ∃ m', (memcpy k dest src len).run accessExec m = some (none, m') := by
  obtain ⟨m', hloop⟩ := copyWords_never src hbound ((aligned_iff dest src).mp haligned).1 k m
  refine ⟨m', ?_⟩
  rw [memcpy, Prog.run_bind, copyWords, if_pos haligned, hloop]
  rfl

theorem not_copies_of_never (haligned : (dest ||| src) &&& (8 - 1) = 0)
    (hbound : 2 ^ 64 - 7 ≤ (dest + len - (8 - 1)).toNat) : ¬ Copies m dest src len := by
  rintro ⟨K, hK⟩
  obtain ⟨m', hrun⟩ := memcpy_never haligned hbound K m
  rw [(hK K le_rfl).1] at hrun
  cases hrun

/-! ### When the routines do what they seem to -/

theorem copies_iff (hdest : dest.toNat + len.toNat ≤ 2 ^ 64) (hapart : Apart dest len.toNat src len.toNat) :
    Copies m dest src len ↔
      dest.toNat + len.toNat < 2 ^ 64 ∧ ¬ (dest = 0 ∧ src.toNat % 8 = 0 ∧ len.toNat < 7) ∨
        ¬ (dest.toNat % 8 = 0 ∧ src.toNat % 8 = 0) ∧
          ∀ i < len.toNat, m (dest + BitVec.ofNat 64 i) = m (src + BitVec.ofNat 64 i) := by
  have hseven : ((8 - 1 : Word)).toNat = 7 := rfl
  rw [← aligned_iff]
  rcases Nat.lt_or_eq_of_le hdest with hend | hend
  · by_cases hlow : dest = 0 ∧ src.toNat % 8 = 0 ∧ len.toNat < 7
    · obtain ⟨rfl, hsrc, hlen⟩ := id hlow
      have haligned : ((0 : Word) ||| src) &&& (8 - 1) = 0 := (aligned_iff 0 src).mpr ⟨rfl, hsrc⟩
      have hzero : (0 : Word).toNat = 0 := rfl
      refine iff_of_false (not_copies_of_never haligned ?_) fun h => ?_
      · rw [BitVec.toNat_sub, BitVec.toNat_add, hseven, hzero]
        omega
      · exact h.elim (fun h => h.2 hlow) fun h => h.1 haligned
    · exact iff_of_true ⟨len.toNat + 1, fun k hk => memcpy_leads hend hapart hlow (by omega)⟩ (.inl ⟨hend, hlow⟩)
  · by_cases haligned : (dest ||| src) &&& (8 - 1) = 0
    · refine iff_of_false (not_copies_of_never haligned ?_) fun h => ?_
      · have hzero : (0 : Word).toNat = 0 := rfl
        rw [add_eq_zero hend, BitVec.toNat_sub, hseven, hzero]
        omega
      · exact h.elim (fun h => absurd hend h.1.ne) fun h => h.1 haligned
    · rw [← byteCopy_eq_self_iff hapart (by omega)]
      constructor
      · rintro ⟨K, hK⟩
        have hrun := (hK (K + 1) (by omega)).1
        rw [(memcpy_leads_of_end hend.ge haligned (Nat.succ_pos K)).1, Option.some.injEq, Prod.mk.injEq] at hrun
        exact .inr ⟨haligned, hrun.2.symm⟩
      · rintro (h | h)
        · exact absurd hend h.1.ne
        · refine ⟨1, fun k hk => ?_⟩
          rw [h.2]
          exact memcpy_leads_of_end hend.ge haligned hk

theorem fills_iff (hdest : dest.toNat + len.toNat ≤ 2 ^ 64) (byte : BitVec 32) :
    Fills m dest byte len ↔ dest.toNat + len.toNat < 2 ^ 64 ∨
      ∀ i < len.toNat, m (dest + BitVec.ofNat 64 i) = byte.setWidth 8 := by
  rcases Nat.lt_or_eq_of_le hdest with hend | hend
  · exact iff_of_true ⟨len.toNat + 1, fun k hk => memset_leads hend byte (by omega)⟩ (.inl hend)
  · rw [← byteFill_eq_self_iff (by omega)]
    constructor
    · rintro ⟨K, hK⟩
      have hrun := (hK (K + 1) (by omega)).1
      rw [(memset_leads_of_end hend.ge byte (Nat.succ_pos K)).1, Option.some.injEq, Prod.mk.injEq] at hrun
      exact .inr hrun.2.symm
    · rintro (h | h)
      · exact absurd hend h.ne
      · refine ⟨1, fun k hk => ?_⟩
        rw [h]
        exact memset_leads_of_end hend.ge byte hk

/-- **`memcpy` copies** unless it is to copy less than seven bytes to address 0, from a word address, and **`memset`
fills**, for ranges whose end pointers do not wrap. Of a range up to the last address `memset` fills nothing, and
`memcpy` copies nothing or does not end. -/
theorem copiesAndFills_iff (m : Memory) (src : Word) (byte : BitVec 32) (hdest : dest.toNat + len.toNat ≤ 2 ^ 64) :
    (Apart dest len.toNat src len.toNat →
      (Copies m dest src len ↔
        dest.toNat + len.toNat < 2 ^ 64 ∧ ¬ (dest = 0 ∧ src.toNat % 8 = 0 ∧ len.toNat < 7) ∨
          ¬ (dest.toNat % 8 = 0 ∧ src.toNat % 8 = 0) ∧
            ∀ i < len.toNat, m (dest + BitVec.ofNat 64 i) = m (src + BitVec.ofNat 64 i))) ∧
      (Fills m dest byte len ↔ dest.toNat + len.toNat < 2 ^ 64 ∨
        ∀ i < len.toNat, m (dest + BitVec.ofNat 64 i) = byte.setWidth 8) :=
  ⟨copies_iff hdest, fills_iff hdest byte⟩

theorem copiesAndFills_iff_nineteen :
    Copies (fun b => b.setWidth 8) 0x1000 0x2000 19 ∧ Fills (fun b => b.setWidth 8) 0x1000 0x1FF 19 := by
  have hagree := copiesAndFills_iff (fun b => b.setWidth 8) 0x2000 0x1FF
    (show (0x1000 : Word).toNat + (19 : Word).toNat ≤ 2 ^ 64 by decide)
  exact ⟨(hagree.1 (apart_of_le (by decide) (by decide))).mpr (.inl ⟨by decide, by decide⟩),
    hagree.2.mpr (.inl (by decide))⟩

/-- Four bytes are to be copied to address 0. -/
theorem not_copies :
    Apart 0 4 64 4 ∧ (∀ k m, ∃ m', (memcpy k 0 64 4).run accessExec m = some (none, m')) ∧
      ¬ Copies (fun _ => 0) 0 64 4 :=
  ⟨apart_of_le (by decide) (by decide), memcpy_never (by decide) (by decide),
    not_copies_of_never (by decide) (by decide)⟩

/-! ### `bzero` -/

/-- **`bzero`** is what the monitor's calls take it to be. -/
theorem bzero_refines (r : LockReading) (s : Machine) {k : ℕ} (hk : len.toNat < k) :
    ∃ m', (bzero k dest len).run accessExec s.mem = some (some dest, m') ∧
      (Sanctum.bzero dest len.toNat).run (exec r) s = some ((), { s with mem := m' }) := by
  rcases Nat.lt_or_ge (dest.toNat + len.toNat) (2 ^ 64) with hend | hend
  · have hfill := byteFill_eq_fill s.mem dest 0 (show len.toNat ≤ 2 ^ 64 by omega)
    refine ⟨_, (memset_leads hend 0 hk).1, ?_⟩
    rw [run_bzero, Memory.zeroed_eq_fill hend]
    exact congrArg (fun m => some ((), { s with mem := m })) hfill.symm
  · refine ⟨_, (memset_leads_of_end hend 0 (Nat.zero_lt_of_lt hk)).1, ?_⟩
    rw [run_bzero, Memory.zeroed_eq_self hend]

end CopyFill

end Sanctum
