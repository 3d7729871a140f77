import Sanctum.Machine.Memory

/-!
# Bytes in memory

`Holds m a bs`: the bytes `bs` are in memory `m` from address `a` on. What a load reads is
computed from them, and a store elsewhere leaves them where they are.
-/

namespace Sanctum

namespace Memory

/-- The bytes `bs` are in memory from `a` on. -/
def Holds (m : Memory) : Word → List Byte → Prop
  | _, [] => True
  | a, b :: bs => m a = b ∧ Holds m (a + 1) bs

instance decidableHolds (m : Memory) : ∀ (a : Word) (bs : List Byte), Decidable (Holds m a bs)
  | _, [] => .isTrue trivial
  | a, _ :: bs => @instDecidableAnd _ _ _ (decidableHolds m (a + 1) bs)

variable {m m' : Memory} {a : Word} {bs cs : List Byte}

theorem add_one_add (a : Word) (n : ℕ) : a + 1 + BitVec.ofNat 64 n = a + BitVec.ofNat 64 (n + 1) := by
  rw [BitVec.add_assoc, Nat.add_comm n 1, BitVec.ofNat_add]
  rfl

theorem holds_append : Holds m a (bs ++ cs) ↔ Holds m a bs ∧ Holds m (a + BitVec.ofNat 64 bs.length) cs := by
  induction bs generalizing a with
  | nil => simp [Holds]
  | cons b bs ih => rw [List.cons_append, Holds, ih, Holds, add_one_add, List.length_cons, and_assoc]

/-- Byte by byte. -/
theorem holds_iff : Holds m a bs ↔ ∀ i (h : i < bs.length), m (a + BitVec.ofNat 64 i) = bs[i] := by
  induction bs generalizing a with
  | nil => simp [Holds]
  | cons b bs ih =>
    rw [Holds, ih]
    constructor
    · rintro ⟨hb, h⟩ i hi
      cases i with
      | zero => simpa using hb
      | succ i =>
        rw [← add_one_add]
        exact h i (by simpa using hi)
    · intro h
      refine ⟨?_, fun i hi => ?_⟩
      · have h0 := h 0 (by simp)
        rwa [show a + BitVec.ofNat 64 0 = a from BitVec.add_zero a] at h0
      · rw [add_one_add]
        exact h (i + 1) (by simpa using hi)

/-- Bytes are left where they are if memory is not changed there. -/
theorem Holds.congr (h : Holds m a bs) (hbs : bs.length ≤ 2 ^ 64) (hm : ∀ b, Within a bs.length b → m' b = m b) :
    Holds m' a bs := by
  rw [holds_iff] at h ⊢
  intro i hi
  rw [hm _ (within_add hi hbs), h i hi]

theorem holds_congr (hbs : bs.length ≤ 2 ^ 64) (hm : ∀ b, Within a bs.length b → m' b = m b) :
    Holds m' a bs ↔ Holds m a bs :=
  ⟨fun h => h.congr hbs fun b hb => (hm b hb).symm, fun h => h.congr hbs hm⟩

theorem Holds.drop (h : Holds m a bs) (i : ℕ) : Holds m (a + BitVec.ofNat 64 i) (bs.drop i) := by
  rw [holds_iff] at h ⊢
  intro j hj
  rw [List.length_drop] at hj
  rw [BitVec.add_assoc, ← BitVec.ofNat_add, List.getElem_drop]
  exact h (i + j) (by omega)

/-- What a load reads. -/
theorem Holds.load {b : Byte} (h : Holds m a (b :: bs)) (n : ℕ) :
    Memory.load m a (n + 1) = b.toNat + 256 * Memory.load m (a + 1) n := by
  rw [Memory.load, h.1]

end Memory

/-! ### Big-endian words -/

/-- The four bytes of a word, the most significant byte first. -/
def be32 (x : BitVec 32) : List Byte :=
  [x.extractLsb' 24 8, x.extractLsb' 16 8, x.extractLsb' 8 8, x.extractLsb' 0 8]

@[simp] theorem length_be32 (x : BitVec 32) : (be32 x).length = 4 := rfl

theorem be32_append (a b c d : Byte) : be32 (a ++ b ++ c ++ d) = [a, b, c, d] := by
  have h3 : (a ++ b ++ c ++ d).extractLsb' 24 8 = a := by
    refine BitVec.eq_of_getLsbD_eq fun i hi => ?_
    simp only [BitVec.getLsbD_extractLsb', BitVec.getLsbD_append]
    grind
  have h2 : (a ++ b ++ c ++ d).extractLsb' 16 8 = b := by
    refine BitVec.eq_of_getLsbD_eq fun i hi => ?_
    simp only [BitVec.getLsbD_extractLsb', BitVec.getLsbD_append]
    grind
  have h1 : (a ++ b ++ c ++ d).extractLsb' 8 8 = c := by
    refine BitVec.eq_of_getLsbD_eq fun i hi => ?_
    simp only [BitVec.getLsbD_extractLsb', BitVec.getLsbD_append]
    grind
  have h0 : (a ++ b ++ c ++ d).extractLsb' 0 8 = d := by
    refine BitVec.eq_of_getLsbD_eq fun i hi => ?_
    simp only [BitVec.getLsbD_extractLsb', BitVec.getLsbD_append]
    grind
  exact congrArg₂ (· :: ·) h3 (congrArg₂ (· :: ·) h2 (congrArg₂ (· :: ·) h1 (congrArg₂ (· :: ·) h0 rfl)))

theorem be32_injective {x y : BitVec 32} (h : be32 x = be32 y) : x = y := by
  simp only [be32, List.cons.injEq, and_true] at h
  obtain ⟨h3, h2, h1, h0⟩ := h
  apply BitVec.eq_of_toNat_eq
  have n3 := congrArg BitVec.toNat h3
  have n2 := congrArg BitVec.toNat h2
  have n1 := congrArg BitVec.toNat h1
  have n0 := congrArg BitVec.toNat h0
  simp only [BitVec.extractLsb'_toNat, Nat.shiftRight_eq_div_pow] at n0 n1 n2 n3
  omega

/-- A word that is loaded has its bytes the other way round. -/
theorem be32_load32 (m : Memory) (a : Word) :
    be32 (Memory.load32 m a) = [m (a + 3), m (a + 2), m (a + 1), m a] := by
  have hbyte : ∀ k < 4, (Memory.load32 m a).extractLsb' (8 * k) 8 = m (a + BitVec.ofNat 64 k) := by
    intro k hk
    apply BitVec.eq_of_toNat_eq
    rw [BitVec.extractLsb'_toNat, Memory.toNat_load32, Nat.shiftRight_eq_div_pow, Nat.pow_mul]
    exact Memory.load_div_mod m a hk
  have h0 := hbyte 0 (by omega)
  rw [show a + BitVec.ofNat 64 0 = a from BitVec.add_zero a] at h0
  exact congrArg₂ (· :: ·) (hbyte 3 (by omega)) (congrArg₂ (· :: ·) (hbyte 2 (by omega))
    (congrArg₂ (· :: ·) (hbyte 1 (by omega)) (congrArg₂ (· :: ·) h0 rfl)))

end Sanctum
