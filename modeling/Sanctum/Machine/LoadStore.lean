import Sanctum.Machine.Memory

/-!
# Loads and stores of RV64

The loads and stores that can be misaligned: how they are encoded, and what they do byte by byte in a
memory whose addresses are translated. Nothing here depends on a program.

## What is proved

* `loadBytes_eq`, `storeBytes_spec` — loading and storing one byte after the other.
* `shiftLeft_sshiftRight` — extending the sign by two shifts.
* `Insn.code_load`, `Insn.code_store` — the fields of an instruction.
-/

namespace Sanctum

namespace LoadStore

/-! ### Translated addresses -/

/-- What a program's addresses stand for, as far as it can access them. -/
abbrev Translation := Word → Option Word

/-- Pages are translated as a whole. -/
def KeepsOffset (t : Translation) : Prop := ∀ a p, t a = some p → p.toNat % 4096 = a.toNat % 4096

/-- Memory as a program sees it. -/
def through (m : Memory) (t : Translation) : Memory := fun a => ((t a).map m).getD 0

/-- A number loaded byte by byte, least significant byte first. -/
def loadBytes (t : Translation) (m : Memory) (a : Word) : ℕ → Option ℕ
  | 0 => some 0
  | n + 1 => do
    let byte ← (t a).map m
    let rest ← loadBytes t m (a + 1) n
    return byte.toNat + 256 * rest

/-- A number stored byte by byte. -/
def storeBytes (t : Translation) (m : Memory) (a : Word) : ℕ → ℕ → Option Memory
  | 0, _ => some m
  | n + 1, v => do
    let p ← t a
    storeBytes t (Function.update m p (BitVec.ofNat 8 v)) (a + 1) n (v / 256)

/-- The `n` bytes from `a` on can be accessed. -/
def Accessible (t : Translation) (a : Word) (n : ℕ) : Prop := ∀ i < n, ∃ p, t (a + BitVec.ofNat 64 i) = some p

theorem add_ofNat_zero (a : Word) : a + BitVec.ofNat 64 0 = a := BitVec.add_zero a

theorem add_one_add (a : Word) (i : ℕ) : a + 1 + BitVec.ofNat 64 i = a + BitVec.ofNat 64 (i + 1) := by
  rw [BitVec.add_assoc, Nat.add_comm i 1, BitVec.ofNat_add]
  rfl

theorem Accessible.first {t : Translation} {a : Word} {n : ℕ} (h : Accessible t a (n + 1)) : ∃ p, t a = some p := by
  have h0 := h 0 (Nat.succ_pos n)
  rwa [add_ofNat_zero] at h0

theorem Accessible.rest {t : Translation} {a : Word} {n : ℕ} (h : Accessible t a (n + 1)) : Accessible t (a + 1) n := by
  intro i hi
  rw [add_one_add]
  exact h (i + 1) (Nat.succ_lt_succ hi)

/-- What is loaded is what the program sees. -/
theorem loadBytes_eq {t : Translation} {m : Memory} {a : Word} {n : ℕ} (h : Accessible t a n) :
    loadBytes t m a n = some ((through m t).load a n) := by
  induction n generalizing a with
  | zero =>
    rw [loadBytes, Memory.load]
  | succ n ih =>
    obtain ⟨p, hp⟩ := h.first
    rw [loadBytes, ih h.rest, Memory.load, through, hp]
    rfl

/-- Bytes that are where they were. -/
theorem load_through_congr {t : Translation} {m m' : Memory} {a : Word} {n : ℕ}
    (h : ∀ i < n, ∀ p, t (a + BitVec.ofNat 64 i) = some p → m p = m' p) :
    (through m t).load a n = (through m' t).load a n := by
  refine Memory.load_congr fun i hi => ?_
  rw [through, through]
  cases hp : t (a + BitVec.ofNat 64 i) with
  | none => rfl
  | some p => exact h i hi p hp

/-- Two bytes near each other are two bytes. -/
theorem KeepsOffset.ne {t : Translation} (ht : KeepsOffset t) {a p p' : Word} {i j : ℕ} (hne : i ≠ j) (hi : i < 4096)
    (hj : j < 4096) (hp : t (a + BitVec.ofNat 64 i) = some p) (hp' : t (a + BitVec.ofNat 64 j) = some p') : p ≠ p' := by
  rintro rfl
  have hsame := (ht _ _ hp).symm.trans (ht _ _ hp')
  rw [BitVec.toNat_add, BitVec.toNat_add, BitVec.toNat_ofNat, BitVec.toNat_ofNat] at hsame
  omega

/-- What is stored. -/
theorem storeBytes_spec {t : Translation} (ht : KeepsOffset t) {m : Memory} {a : Word} {n v : ℕ} (hn : n ≤ 4096)
    (h : Accessible t a n) :
    ∃ m', storeBytes t m a n v = some m' ∧
      (∀ i < n, ∀ p, t (a + BitVec.ofNat 64 i) = some p → m' p = BitVec.ofNat 8 (v / 256 ^ i)) ∧
      ∀ b, (∀ i < n, t (a + BitVec.ofNat 64 i) ≠ some b) → m' b = m b := by
  induction n generalizing m a v with
  | zero => exact ⟨m, rfl, fun i hi => absurd hi (Nat.not_lt_zero i), fun _ _ => rfl⟩
  | succ n ih =>
    obtain ⟨q, hq⟩ := h.first
    have hq0 : t (a + BitVec.ofNat 64 0) = some q := by rwa [add_ofNat_zero]
    obtain ⟨m', hstore, hin, hout⟩ :=
      ih (m := Function.update m q (BitVec.ofNat 8 v)) (v := v / 256) (by omega) h.rest
    simp only [add_one_add] at hin hout
    refine ⟨m', by rw [storeBytes, hq]; exact hstore, fun i hi p hp => ?_, fun b hb => ?_⟩
    · cases i with
      | zero =>
        -- the first byte is not stored over
        obtain rfl : q = p := Option.some.inj (hq0.symm.trans hp)
        have hlater : ∀ i < n, t (a + BitVec.ofNat 64 (i + 1)) ≠ some q := fun i hi hi' =>
          ht.ne (Nat.succ_ne_zero i) (by omega) (by omega) hi' hq0 rfl
        rw [hout q hlater, Function.update_self, pow_zero, Nat.div_one]
      | succ i =>
        rw [hin i (by omega) p hp, Nat.div_div_eq_div_mul, pow_succ']
    · have hne : b ≠ q := fun e => hb 0 (Nat.succ_pos n) (e ▸ hq0)
      rw [hout b fun i hi => hb (i + 1) (Nat.succ_lt_succ hi), Function.update_of_ne hne]

/-! ### Extension -/

/-- A number of `n` bytes as a word. -/
def extend (signed : Bool) (n v : ℕ) : Word :=
  if signed then (BitVec.ofNat (8 * n) v).signExtend 64 else BitVec.ofNat 64 v

/-- Its sign is extended by shifting it to the left and back. -/
theorem shiftLeft_sshiftRight {n v : ℕ} (hn : 0 < n) (hn8 : n ≤ 8) :
    (BitVec.ofNat 64 v <<< (8 * (8 - n))).sshiftRight (8 * (8 - n)) = extend true n v := by
  rw [extend, if_pos rfl]
  apply BitVec.eq_of_getLsbD_eq
  intro i hi
  have hmsb : (BitVec.ofNat 64 v <<< (8 * (8 - n))).msb = (BitVec.ofNat (8 * n) v).msb := by
    rw [BitVec.msb_eq_getLsbD_last, BitVec.msb_eq_getLsbD_last, BitVec.getLsbD_shiftLeft, BitVec.getLsbD_ofNat,
      BitVec.getLsbD_ofNat, show 64 - 1 - 8 * (8 - n) = 8 * n - 1 by omega]
    simp [show ¬ 63 < 8 * (8 - n) by omega, show 8 * n - 1 < 64 by omega, show 8 * n - 1 < 8 * n by omega]
  rw [BitVec.getLsbD_sshiftRight, BitVec.getLsbD_signExtend, hmsb, BitVec.getLsbD_shiftLeft, BitVec.getLsbD_ofNat,
    BitVec.getLsbD_ofNat, Nat.add_sub_cancel_left]
  by_cases hlow : i < 8 * n
  · simp [hi, hlow, show 8 * (8 - n) + i < 64 by omega, show ¬ 64 ≤ i by omega,
      show ¬ 8 * (8 - n) + i < 8 * (8 - n) by omega]
  · simp [hi, hlow, show ¬ 8 * (8 - n) + i < 64 by omega]

/-! ### Instructions -/

/-- The loads that can be misaligned. -/
inductive LoadOp where
  /-- `LH`. -/
  | lh
  /-- `LW`. -/
  | lw
  /-- `LD`. -/
  | ld
  /-- `LHU`. -/
  | lhu
  /-- `LWU`. -/
  | lwu
  deriving DecidableEq

/-- The number that tells them apart. -/
def LoadOp.funct3 : LoadOp → ℕ
  | lh => 1
  | lw => 2
  | ld => 3
  | lhu => 5
  | lwu => 6

/-- How many bytes they load. -/
def LoadOp.bytes : LoadOp → ℕ
  | lh | lhu => 2
  | lw | lwu => 4
  | ld => 8

/-- Whether they extend the sign. -/
def LoadOp.signed : LoadOp → Bool
  | lh | lw | ld => true
  | lhu | lwu => false

/-- The stores that can be misaligned. -/
inductive StoreOp where
  /-- `SH`. -/
  | sh
  /-- `SW`. -/
  | sw
  /-- `SD`. -/
  | sd
  deriving DecidableEq

/-- The number that tells them apart. -/
def StoreOp.funct3 : StoreOp → ℕ
  | sh => 1
  | sw => 2
  | sd => 3

/-- How many bytes they store. -/
def StoreOp.bytes : StoreOp → ℕ
  | sh => 2
  | sw => 4
  | sd => 8

/-- An instruction. -/
inductive Insn where
  /-- `op rd, imm(rs1)`. -/
  | load (op : LoadOp) (rd rs1 : Fin 32) (imm : BitVec 12)
  /-- `op rs2, imm(rs1)`. -/
  | store (op : StoreOp) (rs1 rs2 : Fin 32) (imm : BitVec 12)

namespace Insn

/-- How many bytes it accesses. -/
def bytes : Insn → ℕ
  | load op _ _ _ => op.bytes
  | store op _ _ _ => op.bytes

/-- Its 32 bits, as a number. -/
def code : Insn → ℕ
  | load op rd rs1 imm => 0x03 + rd * 0x80 + op.funct3 * 0x1000 + rs1 * 0x8000 + imm.toNat * 0x100000
  | store op rs1 rs2 imm =>
    0x23 + imm.toNat % 32 * 0x80 + op.funct3 * 0x1000 + rs1 * 0x8000 + rs2 * 0x100000 + imm.toNat / 32 * 0x2000000

end Insn

theorem LoadOp.bytes_bounds (op : LoadOp) : 0 < op.bytes ∧ op.bytes ≤ 8 := by cases op <;> decide

theorem StoreOp.bytes_le (op : StoreOp) : op.bytes ≤ 8 := by cases op <;> decide

theorem LoadOp.funct3_lt (op : LoadOp) : op.funct3 < 8 := by cases op <;> decide

theorem StoreOp.funct3_lt (op : StoreOp) : op.funct3 < 8 := by cases op <;> decide

/-- The fields of a load. -/
theorem Insn.code_load (op : LoadOp) (rd rs1 : Fin 32) (imm : BitVec 12) :
    (load op rd rs1 imm).code < 2 ^ 32 ∧ (load op rd rs1 imm).code % 128 = 0x03 ∧
      (load op rd rs1 imm).code / 4096 % 8 = op.funct3 ∧ (load op rd rs1 imm).code / 128 % 32 = rd := by
  have hfunct := op.funct3_lt
  have himm := imm.isLt
  simp only [code]
  omega

/-- The fields of a store. -/
theorem Insn.code_store (op : StoreOp) (rs1 rs2 : Fin 32) (imm : BitVec 12) :
    (store op rs1 rs2 imm).code < 2 ^ 32 ∧ (store op rs1 rs2 imm).code % 128 = 0x23 ∧
      (store op rs1 rs2 imm).code / 4096 % 8 = op.funct3 ∧ (store op rs1 rs2 imm).code / 1048576 % 32 = rs2 := by
  have hfunct := op.funct3_lt
  have himm := imm.isLt
  have hrs1 := rs1.isLt
  have hrs2 := rs2.isLt
  have hhigh : imm.toNat / 32 < 128 := by omega
  have hlow : imm.toNat % 32 < 32 := Nat.mod_lt _ (by omega)
  simp only [code]
  generalize imm.toNat / 32 = high at *
  generalize imm.toNat % 32 = low at *
  have hsplit : 0x23 + low * 0x80 + op.funct3 * 0x1000 + rs1.val * 0x8000 + rs2.val * 0x100000 + high * 0x2000000 =
      0x23 + low * 0x80 + op.funct3 * 0x1000 + rs1.val * 0x8000 + 1048576 * (rs2.val + 32 * high) := by omega
  refine ⟨by omega, by omega, by omega, ?_⟩
  rw [hsplit, Nat.add_mul_div_left _ _ (by omega), Nat.div_eq_of_lt (by omega), Nat.zero_add, Nat.add_mul_mod_self_left,
    Nat.mod_eq_of_lt hrs2]

end LoadStore

end Sanctum
