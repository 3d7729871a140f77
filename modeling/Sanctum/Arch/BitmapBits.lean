import Sanctum.Arch.BitMasking

/-!
# The bits of a bitmap

What `set_bitmap_bit` and `read_bitmap_bit` do to each other. Both select a bit by the mask
`1 << (bit % 64)`, and the `1` is an `int`: the mask of a bit in the upper half of a word is that
of the bit 32 places below it, or, for the bits 31 and 63, that of bit 31 and of all bits above.
So bits that are 32 places apart in a word are one bit for the two functions.

## What is proved

* `getBit_setBit` — which bits read as set or cleared afterwards.
* `readAfterWrite_iff` — the bit written, and no other, is read differently afterwards, unless the
  bit 32 places away has had another value.
-/

namespace Sanctum

/-! ### What an operation writes -/

/-- The operation writes the byte at `b`. -/
def HwOp.writes (l : LockReading) : HwOp → Word → Prop
  | .store64 a _, b | .fetchAdd a _, b => Memory.Within a 8 b
  | .bzero a n, b => Memory.Within a n b
  | .testAndSet a, b | .clear a, b =>
    match l with
    | .code => False
    | .documented => Memory.Within a 4 b
  | _, _ => False

namespace Bitmap

/-! ### Masks -/

variable {m : Memory} {bitmap i j : Word} {v : Bool}

theorem getLsbD_bitmapMask_mod (i : Word) {k : ℕ} (hk : k < 64) :
    (bitmapMask i).getLsbD k = decide (k = i.toNat % 32 ∨ i.toNat % 32 = 31 ∧ 31 ≤ k) := by
  have hmod : (i % 64).toNat % 32 = i.toNat % 32 := by
    rw [BitVec.toNat_umod]
    exact Nat.mod_mod_of_dvd i.toNat (by decide)
  rw [bitmapMask, getLsbD_oneShl _ hk, hmod]

/-- Bits 32 places apart have one mask. -/
theorem bitmapMask_eq (h : i.toNat % 32 = j.toNat % 32) : bitmapMask i = bitmapMask j := by
  refine BitVec.eq_of_getLsbD_eq fun k hk => ?_
  rw [getLsbD_bitmapMask_mod i hk, getLsbD_bitmapMask_mod j hk, h]

/-- The masks of other bits have no bit in common. -/
theorem bitmapMask_and_eq_zero (h : i.toNat % 32 ≠ j.toNat % 32) : bitmapMask i &&& bitmapMask j = 0 := by
  have hi := Nat.mod_lt i.toNat (show 0 < 32 by omega)
  have hj := Nat.mod_lt j.toNat (show 0 < 32 by omega)
  refine BitVec.eq_of_getLsbD_eq fun k hk => ?_
  rw [BitVec.getLsbD_and, getLsbD_bitmapMask_mod i hk, getLsbD_bitmapMask_mod j hk, ← Bool.decide_and,
    show (0 : Word).getLsbD k = false from BitVec.getLsbD_zero, decide_eq_false_iff_not]
  omega

theorem bitmapMask_ne_zero (i : Word) : bitmapMask i ≠ 0 := by
  have hi := Nat.mod_lt i.toNat (show 0 < 32 by omega)
  intro h
  have hbit := getLsbD_bitmapMask_mod i (show i.toNat % 32 < 64 by omega)
  rw [h, show (0 : Word).getLsbD (i.toNat % 32) = false from BitVec.getLsbD_zero, decide_eq_true (.inl rfl)] at hbit
  cases hbit

/-- A masked word read by the mask it has been written by. -/
theorem maskedWord_and_self (w : Word) {mask : Word} (hmask : mask ≠ 0) :
    (maskedWord w mask v &&& mask != 0) = v := by
  cases v with
  | true =>
    rw [maskedWord, if_pos rfl, BitVec.and_comm, BitVec.and_or_distrib_left, BitVec.and_self, BitVec.or_comm]
    have habsorb : mask ||| mask &&& w = mask := by
      refine BitVec.eq_of_getLsbD_eq fun k _ => ?_
      rw [BitVec.getLsbD_or, BitVec.getLsbD_and]
      cases mask.getLsbD k <;> rfl
    rw [habsorb]
    exact bne_iff_ne.mpr hmask
  | false =>
    rw [maskedWord, if_neg Bool.false_ne_true, BitVec.and_assoc, BitVec.and_comm, BitVec.and_comm _ mask]
    simp

/-- A masked word read by a mask that has no bit in common with it. -/
theorem maskedWord_and (w : Word) {mask mask' : Word} (h : mask &&& mask' = 0) :
    maskedWord w mask v &&& mask' = w &&& mask' := by
  have hbit : ∀ k, (mask.getLsbD k && mask'.getLsbD k) = false := fun k => by
    rw [← BitVec.getLsbD_and, h]
    exact BitVec.getLsbD_zero
  refine BitVec.eq_of_getLsbD_eq fun k hk => ?_
  have hk' := hbit k
  rw [BitVec.getLsbD_and, BitVec.getLsbD_and]
  cases v with
  | true => rw [getLsbD_maskedWord_true]; grind
  | false => rw [getLsbD_maskedWord_false _ _ hk]; grind

/-! ### Reading after writing -/

theorem bitmapWord_eq (bitmap i : Word) : bitmapWord bitmap i = bitmap + BitVec.ofNat 64 (8 * (i.toNat / 64)) := by
  rw [bitmapWord, BitVec.add_right_inj]
  apply BitVec.eq_of_toNat_eq
  have e8 : (8 : Word).toNat = 8 := rfl
  have e64 : (64 : Word).toNat = 64 := rfl
  rw [BitVec.toNat_mul, BitVec.toNat_udiv, BitVec.toNat_ofNat, e8, e64]

/-- Different words of the bitmap share no byte. -/
theorem apart_bitmapWord (h : j.toNat / 64 ≠ i.toNat / 64) :
    Memory.Apart (bitmapWord bitmap j) 8 (bitmapWord bitmap i) 8 := by
  rw [bitmapWord_eq, bitmapWord_eq]
  refine Memory.apart_words fun heq => h ?_
  have hnat := congrArg BitVec.toNat ((BitVec.add_right_inj _).mp heq)
  have hi := i.isLt
  have hj := j.isLt
  rw [BitVec.toNat_ofNat, BitVec.toNat_ofNat] at hnat
  omega

/-- **What is read after a bit has been written**: the value, of this bit and of the one 32 places away;
of all others, what was read before. -/
theorem getBit_setBit (m : Memory) (bitmap i j : Word) (v : Bool) :
    (m.setBit bitmap i v).getBit bitmap j =
      if j.toNat / 64 = i.toNat / 64 ∧ j.toNat % 32 = i.toNat % 32 then v else m.getBit bitmap j := by
  by_cases hword : j.toNat / 64 = i.toNat / 64
  · have hsame : bitmapWord bitmap j = bitmapWord bitmap i := by rw [bitmapWord_eq, bitmapWord_eq, hword]
    rw [Memory.getBit, Memory.setBit, hsame, Memory.load64_store64_self]
    by_cases hbit : j.toNat % 32 = i.toNat % 32
    · rw [if_pos ⟨hword, hbit⟩, bitmapMask_eq hbit, maskedWord_and_self _ (bitmapMask_ne_zero i)]
    · rw [if_neg fun h => hbit h.2, maskedWord_and _ (bitmapMask_and_eq_zero fun h => hbit h.symm),
        Memory.getBit, hsame]
  · rw [if_neg fun h => hword h.1, Memory.getBit, Memory.setBit,
      Memory.load64_store64_of_apart (apart_bitmapWord hword), Memory.getBit]

/-- What is expected of the two functions: after `set_bitmap_bit(bitmap, i, v)`, `read_bitmap_bit(bitmap, j)`
is `v` if it is the bit written and what it was before if not, and one word is written. -/
structure ReadAfterWrite (l : LockReading) (s : Machine) (bitmap i j : Word) (v : Bool) : Prop where
  /-- What is read. -/
  read : ∃ s' before, (setBitmapBit bitmap i v).run (exec l) s = some ((), s') ∧
    (readBitmapBit bitmap j).run (exec l) s = some (before, s) ∧
    (readBitmapBit bitmap j).run (exec l) s' = some (if j = i then v else before, s')
  /-- What is written. -/
  frame : (setBitmapBit bitmap i v).Only fun o : HwOp =>
    ∀ b, o.writes l b → Memory.Within (bitmap + 8 * (i / 64)) 8 b

/-- **When reading goes with writing**: the bit is the one written, or is not 32 places away from it in
the same word, or has had the value already. -/
theorem readAfterWrite_iff (l : LockReading) (s : Machine) (bitmap i j : Word) (v : Bool) :
    ReadAfterWrite l s bitmap i j v ↔
      (j ≠ i → j.toNat / 64 = i.toNat / 64 → j.toNat % 32 = i.toNat % 32 → s.mem.getBit bitmap j = v) := by
  have hread : (s.mem.setBit bitmap i v).getBit bitmap j = (if j = i then v else s.mem.getBit bitmap j) ↔
      (j ≠ i → j.toNat / 64 = i.toNat / 64 → j.toNat % 32 = i.toNat % 32 → s.mem.getBit bitmap j = v) := by
    rw [getBit_setBit]
    by_cases hji : j = i
    · subst hji
      simp
    · rw [if_neg hji]
      split
      · next h => exact ⟨fun heq _ _ _ => heq.symm, fun himp => (himp hji h.1 h.2).symm⟩
      · next h => exact iff_of_true rfl fun _ hword hbit => absurd ⟨hword, hbit⟩ h
  rw [← hread]
  constructor
  · rintro ⟨⟨s', before, hset, hbefore, hafter⟩, -⟩
    rw [run_setBitmapBit, Option.some.injEq, Prod.mk.injEq] at hset
    rw [run_readBitmapBit, Option.some.injEq, Prod.mk.injEq] at hbefore hafter
    obtain ⟨-, rfl⟩ := hset
    obtain ⟨rfl, -⟩ := hbefore
    exact hafter.1
  · intro h
    refine ⟨⟨_, _, run_setBitmapBit l s bitmap i v, run_readBitmapBit l s bitmap j, ?_⟩, ?_⟩
    · rw [run_readBitmapBit]
      exact congrArg some (Prod.ext h rfl)
    · exact .bind (.request fun b hb => hb.elim) fun _ => .request fun b hb => hb

/-- Bit 32 of a bitmap of one word that is zero is set: bit 0 reads as set. -/
theorem not_readAfterWrite :
    ¬ ReadAfterWrite .code ⟨fun _ => 0, 0, 0, fun _ => 0, fun _ => ⟨[], false⟩, fun _ => 0⟩ 0 32 0 true := by
  rintro ⟨⟨s', before, hset, hbefore, hafter⟩, -⟩
  rw [run_setBitmapBit, Option.some.injEq, Prod.mk.injEq] at hset
  rw [run_readBitmapBit, Option.some.injEq, Prod.mk.injEq] at hbefore hafter
  obtain ⟨-, rfl⟩ := hset
  obtain ⟨rfl, -⟩ := hbefore
  have hread := hafter.1
  rw [getBit_setBit, if_pos (by decide)] at hread
  exact absurd hread (by decide +kernel)

end Bitmap

end Sanctum
