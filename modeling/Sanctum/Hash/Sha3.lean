import Sanctum.Hash.Keccakf

/-!
# SHA-3

The hash functions of `sha3.c`: a message may come in any number of pieces. The bytes go into the state as they come,
and whenever a block is full the state is permuted; the end of the message is marked by two bytes.

The numbers in the context are `int`s, and nothing checks that a byte of the state is one of its 200: an access to
any other is no result here.

## What is proved

* `digest_refines` — for a digest of up to 66 bytes, the pieces may be of any size, and the digest is that of the
  standard, of all pieces together.
-/

namespace Sanctum

namespace Sha3

/-! ### The code -/

/-- `sha3_ctx_t`. -/
structure Context where
  /-- The state, as words. -/
  st : Lanes
  /-- The place of the next byte in the block. -/
  pt : ℤ
  /-- The size of a block. -/
  rsiz : ℤ
  /-- The size of the digest. -/
  mdlen : ℤ

/-- `st.b[j] ^= byte`. -/
def xorByte (st : Lanes) (j : ℤ) (byte : Byte) : Option Lanes :=
  if h : 0 ≤ j ∧ j < 200 then
    some (st.set (j.toNat / 8) (st[j.toNat / 8] ^^^ byte.setWidth 64 <<< (8 * (j.toNat % 8))))
  else none

/-- `st.b[i]`. -/
def byteAt (st : Lanes) (i : ℕ) : Option Byte :=
  if h : i < 200 then some ((st[i / 8] >>> (8 * (i % 8))).setWidth 8) else none

/-- `sha3_init`. -/
def sha3Init (mdlen : ℤ) : Context := ⟨Vector.replicate 25 0, 0, 200 - 2 * mdlen, mdlen⟩

/-- A round of the loop of `sha3_update`. -/
def updateByte (c : Context) (byte : Byte) : Option Context := do
  let st ← xorByte c.st c.pt byte
  if c.pt + 1 ≥ c.rsiz then return { c with st := keccakf st, pt := 0 } else return { c with st, pt := c.pt + 1 }

/-- `sha3_update`. -/
def sha3Update (c : Context) (data : List Byte) : Option Context := data.foldlM updateByte c

/-- `sha3_final`. -/
def sha3Final (c : Context) : Option (List Byte) := do
  let st ← xorByte c.st c.pt 0x06
  let st ← xorByte st (c.rsiz - 1) 0x80
  (List.range c.mdlen.toNat).mapM (byteAt (keccakf st))

/-- `sha3`. -/
def sha3 (data : List Byte) (mdlen : ℤ) : Option (List Byte) := do
  sha3Final (← sha3Update (sha3Init mdlen) data)

/-- `sha3_init`, `sha3_update` for each piece of a message, and `sha3_final`. -/
def digest (pieces : List (List Byte)) (mdlen : ℤ) : Option (List Byte) := do
  sha3Final (← pieces.foldlM sha3Update (sha3Init mdlen))

/-! ### Bytes -/

/-- The bits of a byte, the lowest first. -/
def byteBits (byte : Byte) : List Bool := List.ofFn fun i : Fin 8 => byte.getLsbD i

/-- The bits of bytes. -/
def bytesBits (bytes : List Byte) : List Bool := bytes.flatMap byteBits

@[simp] theorem length_byteBits (byte : Byte) : (byteBits byte).length = 8 := List.length_ofFn

theorem getD_byteBits (byte : Byte) (i : ℕ) : (byteBits byte).getD i false = byte.getLsbD i := by
  rw [List.getD_eq_getElem?_getD, byteBits, List.getElem?_ofFn]
  split
  · rfl
  · next hi => exact (BitVec.getLsbD_of_ge _ _ (Nat.le_of_not_lt hi)).symm

theorem length_bytesBits (bytes : List Byte) : (bytesBits bytes).length = 8 * bytes.length := by
  induction bytes with
  | nil => rfl
  | cons byte bytes ih =>
    rw [bytesBits, List.flatMap_cons, List.length_append, length_byteBits, List.length_cons, Nat.mul_succ,
      Nat.add_comm]
    exact congrArg (· + 8) ih

/-- A byte is xored into the string at its place. -/
theorem xorByte_spec (st : Lanes) {j : ℕ} (hj : j < 200) (byte : Byte) :
    ∃ st', xorByte st j byte = some st' ∧ string st' = Sponge.xorAt (string st) (8 * j) (byteBits byte) := by
  refine ⟨_, dif_pos ⟨Int.natCast_nonneg j, by omega⟩, ?_⟩
  simp only [Int.toNat_natCast]
  funext k
  rw [string, Sponge.xorAt, getD_byteBits, Vector.getElem_set]
  by_cases hword : j / 8 = k.val / 64
  · simp only [hword, if_true, BitVec.getLsbD_xor, BitVec.getLsbD_shiftLeft, BitVec.getLsbD_setWidth]
    rw [decide_eq_true (Nat.mod_lt _ (by decide) : k.val % 64 < 64), Bool.true_and,
      decide_eq_true (by omega : k.val % 64 - 8 * (j % 8) < 64), Bool.true_and]
    refine congrArg ((string st k) ^^ ·) ?_
    by_cases hle : 8 * j ≤ k.val
    · rw [if_pos hle, decide_eq_false (by omega), Bool.not_false, Bool.true_and]
      congr 1
      omega
    · rw [if_neg hle, decide_eq_true (by omega), Bool.not_true, Bool.false_and]
  · rw [if_neg hword]
    refine ((Bool.xor_false _).symm.trans (congrArg ((string st k) ^^ ·) ?_))
    split
    · exact (BitVec.getLsbD_of_ge _ _ (by omega)).symm
    · rfl

/-! ### Pieces of a message -/

/-- The context of a digest of `m` bytes, after the bits that have led to `S`. -/
structure Context.Streams (c : Context) (m : ℕ) (S : Sponge.Partial 1600) : Prop where
  mdlen : c.mdlen = m
  rsiz : c.rsiz = (200 - 2 * m : ℕ)
  st : string c.st = S.1
  /-- Whole bytes have gone into the block, and it is not full. -/
  pt : ∃ j, j < 200 - 2 * m ∧ c.pt = j ∧ S.2 = 8 * j

variable {c : Context} {m : ℕ} {S : Sponge.Partial 1600}

theorem sha3Init_streams (hm : 3 * m ≤ 200) : (sha3Init m).Streams m (fun _ => false, 0) where
  mdlen := rfl
  rsiz := by
    show (200 - 2 * (m : ℤ)) = _
    omega
  st := by
    funext k
    simp [sha3Init, string]
  pt := ⟨0, by omega, rfl, rfl⟩

/-- A byte goes into the state as its bits would. -/
theorem updateByte_spec (h : c.Streams m S) (byte : Byte) : ∃ c', updateByte c byte = some c' ∧
    c'.Streams m (Sponge.stream Keccak.keccakF (8 * (200 - 2 * m)) S (byteBits byte)) := by
  obtain ⟨S, i⟩ := S
  obtain ⟨j, hj, hpt, rfl⟩ := h.pt
  obtain ⟨st, hxor, hst⟩ := xorByte_spec c.st (by omega : j < 200) byte
  rw [h.st] at hst
  have hrsiz := h.rsiz
  simp only [updateByte, hpt, hxor, Option.bind_eq_bind, Option.bind_some]
  split
  · refine ⟨_, rfl, h.mdlen, h.rsiz, ?_, 0, by omega, rfl, ?_⟩
    all_goals rw [Sponge.stream_block (by rw [length_byteBits]; omega) (by simp [byteBits])]
    rw [← hst, ← keccakf_refines]
  · refine ⟨_, rfl, h.mdlen, h.rsiz, ?_, j + 1, by omega, rfl, ?_⟩
    all_goals rw [Sponge.stream_within (by rw [length_byteBits]; omega)]
    · exact hst
    · rw [length_byteBits, Nat.mul_succ]

theorem bytesBits_append (xs ys : List Byte) : bytesBits (xs ++ ys) = bytesBits xs ++ bytesBits ys :=
  List.flatMap_append

/-- So do the bytes of a piece, -/
theorem sha3Update_spec (h : c.Streams m S) (data : List Byte) : ∃ c', sha3Update c data = some c' ∧
    c'.Streams m (Sponge.stream Keccak.keccakF (8 * (200 - 2 * m)) S (bytesBits data)) := by
  induction data generalizing c S with
  | nil => exact ⟨c, rfl, h⟩
  | cons byte data ih =>
    obtain ⟨c₁, hc₁, h₁⟩ := updateByte_spec h byte
    obtain ⟨c₂, hc₂, h₂⟩ := ih h₁
    refine ⟨c₂, ?_, ?_⟩
    · rw [sha3Update, List.foldlM_cons, hc₁]
      exact hc₂
    · rw [bytesBits, List.flatMap_cons, Sponge.stream_append]
      exact h₂

/-- and of all pieces. -/
theorem pieces_spec (h : c.Streams m S) (pieces : List (List Byte)) : ∃ c', pieces.foldlM sha3Update c = some c' ∧
    c'.Streams m (Sponge.stream Keccak.keccakF (8 * (200 - 2 * m)) S (bytesBits pieces.flatten)) := by
  induction pieces generalizing c S with
  | nil => exact ⟨c, rfl, h⟩
  | cons data pieces ih =>
    obtain ⟨c₁, hc₁, h₁⟩ := sha3Update_spec h data
    obtain ⟨c₂, hc₂, h₂⟩ := ih h₁
    refine ⟨c₂, ?_, ?_⟩
    · rw [List.foldlM_cons, hc₁]
      exact hc₂
    · rw [List.flatten_cons, bytesBits_append, Sponge.stream_append]
      exact h₂

/-! ### The end of the message -/

/-- The two bits that mark a message of SHA-3, and the padding. -/
def tail (x m : ℕ) : List Bool := [false, true] ++ Sponge.pad x m

theorem getD_tail (x m k : ℕ) :
    (tail x m).getD k false = (decide (k = 1) || decide (k = 2) || decide (k = (x - (m + 2) % x) % x + 3)) := by
  rcases k with _ | _ | _ | k
  · simp [tail]
  · simp [tail]
  · simp [tail, Sponge.pad]
  · rw [tail, Sponge.pad, List.cons_append, List.cons_append, List.nil_append, List.getD_cons_succ,
      List.getD_cons_succ, List.getD_cons_succ]
    generalize (x - (m + 2) % x) % x = n
    rcases lt_trichotomy k n with hk | rfl | hk
    · rw [List.getD_append _ _ _ _ (by simpa using hk)]
      simp [List.getD_eq_getElem?_getD, hk, hk.ne]
    · simp
    · rw [List.getD_eq_default _ _ (by simp; omega)]
      simp [hk.ne']

theorem length_tail (x m : ℕ) : (tail x m).length = (x - (m + 2) % x) % x + 4 := by
  rw [tail, List.length_append, Sponge.length_pad]
  exact Nat.add_comm ..

theorem getLsbD_marker (i : ℕ) : (0x06 : Byte).getLsbD i = (decide (i = 1) || decide (i = 2)) := by
  rcases lt_or_ge i 8 with hi | hi
  · revert i
    decide
  · rw [BitVec.getLsbD_of_ge _ _ hi, decide_eq_false (by omega), decide_eq_false (by omega), Bool.or_false]

theorem getLsbD_last (i : ℕ) : (0x80 : Byte).getLsbD i = decide (i = 7) := by
  rcases lt_or_ge i 8 with hi | hi
  · revert i
    decide
  · rw [BitVec.getLsbD_of_ge _ _ hi, decide_eq_false (by omega)]

section Tail

variable {r L j : ℕ}

theorem fill_eq (hj : j < r) (hL : L % r = j) :
    (8 * r - (8 * L + 2 + 2) % (8 * r)) % (8 * r) = 8 * r - 8 * j - 4 := by
  have hmod : (8 * L + 2 + 2) % (8 * r) = 8 * j + 4 := by
    have hdiv := Nat.div_add_mod L r
    have hsum : 8 * L + 2 + 2 = 8 * j + 4 + 8 * r * (L / r) := by
      rw [Nat.mul_assoc]
      omega
    rw [hsum, Nat.add_mul_mod_self_left, Nat.mod_eq_of_lt (by omega)]
  rw [hmod, Nat.mod_eq_of_lt (by omega)]
  omega

/-- They fill the block. -/
theorem tail_fills (hj : j < r) (hL : L % r = j) : 8 * j + (tail (8 * r) (8 * L + 2)).length = 8 * r := by
  rw [length_tail, fill_eq hj hL]
  omega

/-- **They are two bytes**, one at the place of the next byte and one at the last. In the last place of a block these
are one byte. -/
theorem xorAt_tail (T : Sponge.State 1600) (hj : j < r) (hL : L % r = j) :
    Sponge.xorAt T (8 * j) (tail (8 * r) (8 * L + 2)) =
      Sponge.xorAt (Sponge.xorAt T (8 * j) (byteBits 0x06)) (8 * (r - 1)) (byteBits 0x80) := by
  funext k
  simp only [Sponge.xorAt, getD_tail, getD_byteBits, getLsbD_marker, getLsbD_last, fill_eq hj hL]
  rw [Bool.xor_assoc]
  refine congrArg (T k ^^ ·) (Bool.eq_iff_iff.mpr ?_)
  by_cases hnext : 8 * j ≤ k.val
  · by_cases hlast : 8 * (r - 1) ≤ k.val
    · simp only [if_pos hnext, if_pos hlast, ← Bool.decide_or, Bool.xor_iff_ne, ne_eq, decide_eq_decide,
        decide_eq_true_eq]
      omega
    · simp only [if_pos hnext, if_neg hlast, Bool.xor_false, Bool.or_eq_true, decide_eq_true_eq]
      omega
  · rw [if_neg hnext, if_neg hnext, if_neg (by omega), Bool.xor_false]

end Tail

/-! ### The digest -/

/-- A byte of the digest is eight bits of the string. -/
theorem byteAt_spec (st : Lanes) {i : ℕ} (hi : i < 200) : ∃ byte, byteAt st i = some byte ∧
    byteBits byte = ((List.ofFn (string st)).drop (8 * i)).take 8 := by
  refine ⟨_, dif_pos hi, List.ext_getElem ?_ ?_⟩
  · rw [length_byteBits, List.length_take, List.length_drop, List.length_ofFn]
    omega
  · intro n hn hn'
    rw [length_byteBits] at hn
    have hword : (8 * i + n) / 64 = i / 8 := by omega
    have hbit : (8 * i + n) % 64 = 8 * (i % 8) + n := by omega
    simp only [byteBits, string, List.getElem_ofFn, List.getElem_take, List.getElem_drop, hword, hbit,
      BitVec.getLsbD_setWidth, BitVec.getLsbD_ushiftRight, decide_eq_true hn, Bool.true_and]

theorem digest_bytes (st : Lanes) {n : ℕ} (hn : n ≤ 200) : ∃ out, (List.range n).mapM (byteAt st) = some out ∧
    bytesBits out = Sponge.trunc (8 * n) (string st) := by
  induction n with
  | zero => exact ⟨[], rfl, rfl⟩
  | succ n ih =>
    obtain ⟨out, hout, hbits⟩ := ih (by omega)
    obtain ⟨byte, hbyte, hlast⟩ := byteAt_spec st (by omega : n < 200)
    refine ⟨out ++ [byte], ?_, ?_⟩
    · rw [List.range_succ, List.mapM_append, hout]
      simp [hbyte]
    · have hone : bytesBits [byte] = byteBits byte := List.append_nil _
      rw [bytesBits_append, hbits, Nat.mul_succ, Sponge.trunc, Sponge.trunc, List.take_add, ← hlast, hone]

/-- **The digest of pieces is that of the message**: the standard's hash of all their bits. -/
theorem digest_bits (hm : 3 * m ≤ 200) (pieces : List (List Byte)) : ∃ out, digest pieces m = some out ∧
    bytesBits out = Keccak.sha3 (8 * m) (bytesBits pieces.flatten) := by
  obtain ⟨c, hc, h⟩ := pieces_spec (sha3Init_streams hm) pieces
  set msg := bytesBits pieces.flatten with hmsg
  obtain ⟨j, hj, hpt, hplace⟩ := h.pt
  have hlen : msg.length = 8 * pieces.flatten.length := length_bytesBits _
  have hL : pieces.flatten.length % (200 - 2 * m) = j := by
    rw [Sponge.stream_snd (by omega) (by dsimp only; omega), Nat.zero_add, hlen, Nat.mul_mod_mul_left] at hplace
    omega
  obtain ⟨st₁, hx₁, hs₁⟩ := xorByte_spec c.st (by omega : j < 200) 0x06
  obtain ⟨st₂, hx₂, hs₂⟩ := xorByte_spec st₁ (by omega : 200 - 2 * m - 1 < 200) 0x80
  obtain ⟨out, hout, hbits⟩ := digest_bytes (keccakf st₂) (by omega : m ≤ 200)
  have hlast : (c.rsiz - 1 : ℤ) = (200 - 2 * m - 1 : ℕ) := by
    rw [h.rsiz]
    omega
  refine ⟨out, ?_, hbits.trans ?_⟩
  · simp only [digest, hc, sha3Final, hpt, hx₁, hlast, hx₂, h.mdlen, Option.bind_eq_bind, Option.bind_some,
      Int.toNat_natCast, hout]
  · have hpart : Sponge.stream Keccak.keccakF (8 * (200 - 2 * m)) (fun _ => false, 0) msg = (string c.st, 8 * j) :=
      Prod.ext h.st.symm hplace
    have hend : Sponge.stream Keccak.keccakF (8 * (200 - 2 * m)) (fun _ => false, 0)
        ((msg ++ [false, true]) ++ Sponge.pad (8 * (200 - 2 * m)) (msg ++ [false, true]).length) =
          (string (keccakf st₂), 0) := by
      have hpad : (msg ++ [false, true]) ++ Sponge.pad (8 * (200 - 2 * m)) (msg ++ [false, true]).length =
          msg ++ tail (8 * (200 - 2 * m)) (8 * pieces.flatten.length + 2) := by
        rw [tail, List.append_assoc, List.length_append, hlen]
        rfl
      rw [hpad, Sponge.stream_append, hpart, Sponge.stream_block (tail_fills hj hL) (by simp [tail]),
        xorAt_tail _ hj hL, ← hs₁, ← hs₂, keccakf_refines]
    rw [Keccak.sha3, show 1600 - 2 * (8 * m) = 8 * (200 - 2 * m) by omega,
      Sponge.sponge_eq_squeeze (by omega) _ hend, Sponge.squeeze_of_le (by omega) (by omega)]

/-! ### Bits as bytes -/

/-- Bits as bytes, the lowest bit of a byte first. -/
def ofBits (P : List Bool) : List Byte :=
  (List.range (P.length / 8)).map fun i => (BitVec.ofBoolListLE ((P.drop (8 * i)).take 8)).setWidth 8

/-- The hash of the standard, of bytes and as bytes. -/
def hash (m : ℕ) (M : List Byte) : List Byte := ofBits (Keccak.sha3 (8 * m) (bytesBits M))

theorem getD_bytesBits (bytes : List Byte) (i : ℕ) {j : ℕ} (hj : j < 8) :
    (bytesBits bytes).getD (8 * i + j) false = (bytes.getD i 0).getLsbD j := by
  induction bytes generalizing i with
  | nil => simp [bytesBits]
  | cons byte bytes ih =>
    rw [bytesBits, List.flatMap_cons]
    cases i with
    | zero =>
      rw [List.getD_append _ _ _ _ (by rw [length_byteBits]; omega), getD_byteBits]
      simp
    | succ i =>
      rw [List.getD_append_right _ _ _ _ (by rw [length_byteBits]; omega), length_byteBits,
        show 8 * (i + 1) + j - 8 = 8 * i + j by omega, List.getD_cons_succ]
      exact ih i

/-- The bytes are not changed by taking them apart. -/
theorem ofBits_bytesBits (bytes : List Byte) : ofBits (bytesBits bytes) = bytes := by
  refine List.ext_getElem ?_ fun i hi hi' => ?_
  · rw [ofBits, List.length_map, List.length_range, length_bytesBits, Nat.mul_div_cancel_left _ (by decide)]
  · refine BitVec.eq_of_getLsbD_eq fun j hj => ?_
    have hget : (ofBits (bytesBits bytes))[i] =
        (BitVec.ofBoolListLE (((bytesBits bytes).drop (8 * i)).take 8)).setWidth 8 := by
      have hlt : i < (bytesBits bytes).length / 8 := by simpa [ofBits] using hi
      rw [List.getElem_eq_iff, ofBits, List.getElem?_map, List.getElem?_range hlt]
      rfl
    rw [hget, BitVec.getLsbD_setWidth, decide_eq_true hj, Bool.true_and, BitVec.getLsbD_ofBoolListLE,
      List.getD_eq_getElem?_getD, List.getElem?_take_of_lt hj, List.getElem?_drop, ← List.getD_eq_getElem?_getD,
      getD_bytesBits bytes i hj, List.getD_eq_getElem _ _ hi']

/-- **The digest, as bytes.** -/
theorem digest_eq_hash (hm : 3 * m ≤ 200) (pieces : List (List Byte)) :
    digest pieces m = some (hash m pieces.flatten) := by
  obtain ⟨out, hout, hbits⟩ := digest_bits hm pieces
  rw [hout, hash, ← hbits, ofBits_bytesBits]

theorem sha3_eq_hash (hm : 3 * m ≤ 200) (M : List Byte) : sha3 M m = some (hash m M) := by
  have hone := digest_eq_hash hm [M]
  rw [List.flatten_singleton] at hone
  rw [← hone]
  simp [digest, sha3]

theorem length_hash (hm : 3 * m ≤ 200) (M : List Byte) : (hash m M).length = m := by
  have hlen : (Keccak.sha3 (8 * m) (bytesBits M)).length = 8 * m := by
    rw [Keccak.sha3, Sponge.sponge, Sponge.squeeze_of_le (by omega) (by omega), Sponge.length_trunc]
    omega
  rw [hash, ofBits, List.length_map, List.length_range, hlen, Nat.mul_div_cancel_left _ (by decide)]

/-- **The hash functions are those of the standard**, however the message is taken apart. -/
theorem digest_refines (hm : 3 * m ≤ 200) (pieces : List (List Byte)) : ∃ out, digest pieces m = some out ∧
    sha3 pieces.flatten m = some out ∧ out.length = m ∧
      bytesBits out = Keccak.sha3 (8 * m) (bytesBits pieces.flatten) := by
  obtain ⟨out, hout, hbits⟩ := digest_bits hm pieces
  have hhash := digest_eq_hash hm pieces
  obtain rfl : out = hash m pieces.flatten := Option.some.inj (hout.symm.trans hhash)
  exact ⟨_, hout, sha3_eq_hash hm _, length_hash hm _, hbits⟩

/-- `abc`, in two pieces, with a digest of 64 bytes. -/
theorem digest_refines_abc : ∃ out, digest [[0x61], [0x62, 0x63]] 64 = some out ∧
    sha3 [0x61, 0x62, 0x63] 64 = some out ∧ out.length = 64 ∧
      bytesBits out = Keccak.sha3 512 (bytesBits [0x61, 0x62, 0x63]) :=
  digest_refines (m := 64) (by decide) [[0x61], [0x62, 0x63]]

end Sha3

end Sanctum
