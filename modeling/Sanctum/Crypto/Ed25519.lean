import Sanctum.Crypto.Scalar
import Sanctum.Hash.Sha3
import Mathlib.Algebra.Module.NatInt

/-!
# Keys and signatures

`keypair.c` and `sign.c`: Ed25519, with SHA3-512 for the hash. A secret key is the hash of a seed; its first half is,
but for a few bits, a number `a`, and the public key is the point `a • B`. A signature of a message is a point `r •
B`, where `r` is a hash of the second half of the key and of the message, and a number `h * a + r` modulo the order
of `B`, where `h` is a hash of the point, the public key and the message.

The functions of `ge.c` that compute multiples of the base point are a parameter (`Ge`), with what their comments
say about them (`Ge.Computes`).

## What is proved

* `ed25519_verifies` — whatever the seed and the message are, the signature `Verifies` under the public key: that is
  a statement about points and hashes, and names neither the seed nor the secret key.
-/

namespace Sanctum

namespace Ed25519

/-! ### Signatures -/

/-- A group with a base point, and points as bytes. -/
structure Curve (G : Type) [AddCommGroup G] where
  /-- The base point. -/
  base : G
  /-- A point as bytes. -/
  encode : G → List Byte
  /-- The order of the base point divides `l`. -/
  order : l • base = 0
  length_encode : ∀ P, (encode P).length = 32

variable {G : Type} [AddCommGroup G]

/-- The hash of a signature's point, the public key and the message. -/
def challenge (R pk msg : List Byte) : ℕ := number (Sha3.hash 64 (R ++ pk ++ msg))

/-- The signature is one of the message under the public key. -/
def Verifies (c : Curve G) (pk msg sig : List Byte) : Prop :=
  ∃ (R A : G) (S : List Byte), sig = c.encode R ++ S ∧ S.length = 32 ∧ number S < l ∧ pk = c.encode A ∧
    number S • c.base = R + challenge (c.encode R) pk msg • A

/-- A public key and a secret one. -/
structure Keypair (c : Curve G) (pk sk : List Byte) : Prop where
  length : sk.length = 64
  /-- The number is a multiple of the cofactor, and its highest bit is set. -/
  clamped : 8 ∣ number (sk.take 32) ∧ 2 ^ 254 ≤ number (sk.take 32) ∧ number (sk.take 32) < 2 ^ 255
  encoded : pk = c.encode (number (sk.take 32) • c.base)

/-! ### The code -/

/-- The functions of `ge.c` that are used. -/
structure Ge where
  /-- `ge_p3`. -/
  P3 : Type
  /-- `ge_scalarmult_base`, of 32 bytes. -/
  geScalarmultBase : List Byte → P3
  /-- `ge_p3_tobytes`. -/
  geP3Tobytes : P3 → List Byte

/-- They compute with points: `h = a * B`, if `a[31] <= 127`. -/
structure Ge.Computes (g : Ge) (c : Curve G) (point : g.P3 → G) : Prop where
  scalarmultBase : ∀ a : List Byte, a.length = 32 → (a.getD 31 0).toNat ≤ 127 →
    point (g.geScalarmultBase a) = number a • c.base
  tobytes : ∀ P, g.geP3Tobytes P = c.encode (point P)

variable (g : Ge)

/-- What becomes of the hash of a seed. -/
def clamp (key : List Byte) : List Byte :=
  let key := key.set 0 (key.getD 0 0 &&& 248)
  let key := key.set 31 (key.getD 31 0 &&& 63)
  key.set 31 (key.getD 31 0 ||| 64)

/-- `ed25519_create_keypair`, of a seed of 32 bytes. -/
def ed25519CreateKeypair (seed : List Byte) : Option (List Byte × List Byte) := do
  let privateKey := clamp (← Sha3.sha3 seed 64)
  let A := g.geScalarmultBase (privateKey.take 32)
  return (g.geP3Tobytes A, privateKey)

/-- `ed25519_sign`. -/
def ed25519Sign (message publicKey privateKey : List Byte) : Option (List Byte) := do
  let r ← Sha3.digest [(privateKey.drop 32).take 32, message] 64
  let r ← scReduce r
  let R := g.geP3Tobytes (g.geScalarmultBase (r.take 32))
  let hram ← Sha3.digest [R.take 32, publicKey.take 32, message] 64
  let hram ← scReduce hram
  let S ← scMuladd (hram.take 32) (privateKey.take 32) (r.take 32)
  return R ++ S

/-! ### Keys -/

theorem clamp_low : ∀ x : Byte, (x &&& 248).toNat % 8 = 0 := by
  decide

theorem clamp_high : ∀ x : Byte, 64 ≤ (x &&& 63 ||| 64).toNat ∧ (x &&& 63 ||| 64).toNat < 128 := by
  decide

theorem clamp_eq {key : List Byte} (hkey : key.length = 64) :
    clamp key = (key.set 0 (key.getD 0 0 &&& 248)).set 31 (key.getD 31 0 &&& 63 ||| 64) := by
  have h31 : ∀ v : Byte, ((key.set 0 v).set 31 (key.getD 31 0 &&& 63)).getD 31 0 = key.getD 31 0 &&& 63 := by
    intro v
    rw [List.getD_eq_getElem?_getD, List.getElem?_set_self (by simp [hkey])]
    rfl
  have h31' : ∀ v : Byte, (key.set 0 v).getD 31 0 = key.getD 31 0 := by
    intro v
    rw [List.getD_eq_getElem?_getD, List.getElem?_set_ne (by decide), ← List.getD_eq_getElem?_getD]
  rw [clamp]
  simp only [h31', h31, List.set_set]

theorem length_clamp (key : List Byte) : (clamp key).length = key.length := by
  simp [clamp]

/-- The number in a clamped key. -/
theorem clamp_spec {key : List Byte} (hkey : key.length = 64) : 8 ∣ number ((clamp key).take 32) ∧
    2 ^ 254 ≤ number ((clamp key).take 32) ∧ number ((clamp key).take 32) < 2 ^ 255 := by
  have hlen : (clamp key).length = 64 := (length_clamp key).trans hkey
  set k := (clamp key).take 32 with hk
  have hk32 : k.length = 32 := by simp [hk, hlen]
  have hlow : number k % 256 = (key.getD 0 0 &&& 248).toNat := by
    have h0 : k.getD 0 0 = key.getD 0 0 &&& 248 := by
      rw [hk, clamp_eq hkey, List.getD_eq_getElem?_getD, List.getElem?_take_of_lt (by decide),
        List.getElem?_set_ne (by decide), List.getElem?_set_self (by omega)]
      rfl
    rw [← h0, ← digit_number k 0, Nat.pow_zero, Nat.div_one]
  have hhigh : number k / 256 ^ 31 % 256 = (key.getD 31 0 &&& 63 ||| 64).toNat := by
    have h31 : k.getD 31 0 = key.getD 31 0 &&& 63 ||| 64 := by
      rw [hk, clamp_eq hkey, List.getD_eq_getElem?_getD, List.getElem?_take_of_lt (by decide),
        List.getElem?_set_self (by simp [hkey])]
      rfl
    rw [digit_number, h31]
  have hlt : number k < 256 ^ 32 := hk32 ▸ number_lt k
  have hmod := clamp_low (key.getD 0 0)
  obtain ⟨hhi, hlo⟩ := clamp_high (key.getD 31 0)
  refine ⟨by omega, ?_, ?_⟩ <;> omega

variable {g} {c : Curve G} {point : g.P3 → G}

/-- The last byte of a number below `2 ^ 255`. -/
theorem last_byte_le {a : List Byte} (h : number a < 2 ^ 255) : (a.getD 31 0).toNat ≤ 127 := by
  rw [← digit_number]
  omega

/-- **The keys of a seed.** -/
theorem ed25519CreateKeypair_spec (hg : g.Computes c point) (seed : List Byte) :
    ∃ pk, ed25519CreateKeypair g seed = some (pk, clamp (Sha3.hash 64 seed)) ∧
      Keypair c pk (clamp (Sha3.hash 64 seed)) := by
  have hlen : (Sha3.hash 64 seed).length = 64 := Sha3.length_hash (by decide) seed
  have hsha : Sha3.sha3 seed 64 = some (Sha3.hash 64 seed) := Sha3.sha3_eq_hash (by decide) seed
  have hclamped := clamp_spec hlen
  have hkey : (clamp (Sha3.hash 64 seed)).length = 64 := (length_clamp _).trans hlen
  refine ⟨_, by rw [ed25519CreateKeypair, hsha]; rfl, ⟨hkey, hclamped, ?_⟩⟩
  rw [hg.tobytes, hg.scalarmultBase _ (by simp [hkey]) (last_byte_le hclamped.2.2)]

/-! ### Signing -/

/-- Numbers may be taken modulo `l`. -/
theorem smul_base_mod (c : Curve G) (n : ℕ) : (n % l) • c.base = n • c.base := by
  calc (n % l) • c.base = (n % l) • c.base + (n / l) • l • c.base := by rw [c.order, smul_zero, add_zero]
    _ = (n % l + l * (n / l)) • c.base := by rw [add_nsmul, mul_nsmul]
    _ = n • c.base := by rw [Nat.mod_add_div]

/-- **A signature verifies.** -/
theorem ed25519Sign_spec (hg : g.Computes c point) {pk sk : List Byte} (hkeys : Keypair c pk sk) (msg : List Byte) :
    ∃ sig, ed25519Sign g msg pk sk = some sig ∧ sig.length = 64 ∧ Verifies c pk msg sig := by
  set a := sk.take 32 with ha
  have halen : a.length = 32 := by rw [ha, List.length_take, hkeys.length]; rfl
  -- the point of the signature
  set r₀ := Sha3.hash 64 ([(sk.drop 32).take 32, msg].flatten) with hr₀
  obtain ⟨r, hr, hrlen, hrnum⟩ := scReduce_spec r₀ (Sha3.length_hash (by decide) _)
  have hrtake : (r ++ r₀.drop 32).take 32 = r := by rw [← hrlen, List.take_left]
  have hrlt : number r < 2 ^ 255 := by
    rw [hrnum]
    exact (Nat.mod_lt _ (by decide)).trans (by decide)
  set R := c.encode (number r • c.base) with hR
  have hpoint : g.geP3Tobytes (g.geScalarmultBase r) = R := by
    rw [hg.tobytes, hg.scalarmultBase r hrlen (last_byte_le hrlt)]
  have hRlen : R.take 32 = R := List.take_of_length_le (c.length_encode _).le
  have hpklen : pk.take 32 = pk := by
    rw [hkeys.encoded]
    exact List.take_of_length_le (c.length_encode _).le
  -- the number that goes with it
  set h₀ := Sha3.hash 64 ([R, pk, msg].flatten) with hh₀
  obtain ⟨h, hh, hhlen, hhnum⟩ := scReduce_spec h₀ (Sha3.length_hash (by decide) _)
  have hhtake : (h ++ h₀.drop 32).take 32 = h := by rw [← hhlen, List.take_left]
  obtain ⟨S, hS, hSlen, hSnum⟩ := scMuladd_spec h a r hhlen halen hrlen
  have hchallenge : number h₀ = challenge R pk msg := by simp [hh₀, challenge]
  have hlen : (R ++ S).length = 64 := by rw [List.length_append, c.length_encode, hSlen]
  refine ⟨R ++ S, ?_, hlen, number r • c.base, number a • c.base, S, rfl,
    hSlen, ?_, hkeys.encoded, ?_⟩
  · have hdigest : ∀ pieces, Sha3.digest pieces 64 = some (Sha3.hash 64 pieces.flatten) :=
      Sha3.digest_eq_hash (by decide)
    simp only [ed25519Sign, hdigest, ← hr₀, hr, hrtake, hpoint, hRlen, hpklen, ← hh₀, hh, hhtake, ← ha, hS,
      Option.bind_eq_bind, Option.bind_some, Option.pure_def]
  · rw [hSnum]
    exact Nat.mod_lt _ (by decide)
  · calc number S • c.base = (number h * number a + number r) • c.base := by rw [hSnum, smul_base_mod]
      _ = number r • c.base + number a • number h • c.base := by rw [add_nsmul, add_comm, mul_nsmul]
      _ = number r • c.base + number a • challenge R pk msg • c.base := by rw [hhnum, smul_base_mod, hchallenge]
      _ = number r • c.base + challenge R pk msg • number a • c.base := by rw [nsmul_left_comm]

/-- **Keys are made, and messages are signed.** -/
theorem ed25519_verifies (hg : g.Computes c point) (seed msg : List Byte) : ∃ pk sk sig,
    ed25519CreateKeypair g seed = some (pk, sk) ∧ Keypair c pk sk ∧ ed25519Sign g msg pk sk = some sig ∧
      sig.length = 64 ∧ Verifies c pk msg sig := by
  obtain ⟨pk, hcreate, hkeys⟩ := ed25519CreateKeypair_spec hg seed
  obtain ⟨sig, hsign, hlen, hverifies⟩ := ed25519Sign_spec hg hkeys msg
  exact ⟨pk, _, sig, hcreate, hkeys, hsign, hlen, hverifies⟩

/-! ### The curve -/

/-- The order of the field. -/
def fieldOrder : ℕ := 2 ^ 255 - 19

/-- Square and multiply, or double and add: `n` times `x`. -/
def times {α : Type} (op : α → α → α) (one x : α) (n : ℕ) : α :=
  (List.range 255).foldr (fun i y => if n.testBit i then op (op y y) x else op y y) one

/-- The inverse in the field. -/
def inverse (x : ℕ) : ℕ := times (fun y z => y * z % fieldOrder) 1 x (fieldOrder - 2)

/-- `d`, of the curve. -/
def curveD : ℕ := (fieldOrder - 121665) * inverse 121666 % fieldOrder

/-- A point of the curve, with `x = X / Z`, `y = Y / Z` and `X * Y = Z * T`. -/
structure Point where
  /-- `X`. -/
  X : ℕ
  /-- `Y`. -/
  Y : ℕ
  /-- `Z`. -/
  Z : ℕ
  /-- `T`. -/
  T : ℕ

namespace Point

/-- The sum of two points. -/
def add (P Q : Point) : Point :=
  let a := (P.Y + (fieldOrder - P.X)) * (Q.Y + (fieldOrder - Q.X)) % fieldOrder
  let b := (P.Y + P.X) * (Q.Y + Q.X) % fieldOrder
  let c := P.T * Q.T % fieldOrder * (2 * curveD) % fieldOrder
  let e := P.Z * Q.Z * 2 % fieldOrder
  { X := (b + (fieldOrder - a)) * (e + (fieldOrder - c)) % fieldOrder
    Y := (e + c) * (b + a) % fieldOrder
    Z := (e + (fieldOrder - c)) * (e + c) % fieldOrder
    T := (b + (fieldOrder - a)) * (b + a) % fieldOrder }

/-- The base point. -/
def base : Point :=
  let x := 15112221349535400772501151409588531511454012693041857206046113283949847762202
  let y := 46316835694926478169428394003475163141307993866256225615783033603165251855960
  ⟨x, y, 1, x * y % fieldOrder⟩

/-- A point as bytes: `y`, and the sign of `x`. -/
def bytes (P : Point) : List Byte :=
  let z := inverse P.Z
  let n := P.Y * z % fieldOrder + 2 ^ 255 * (P.X * z % fieldOrder % 2)
  (List.range 32).map fun i => BitVec.ofNat 8 (n / 256 ^ i)

end Point

/-- The multiples of the base point. -/
def edwards25519 : Curve (ZMod l) where
  base := 1
  encode n := (times .add ⟨0, 1, 1, 0⟩ Point.base n.val).bytes
  order := by rw [nsmul_one, ZMod.natCast_self]
  length_encode _ := by simp [Point.bytes]

/-- What `ge.c` computes. -/
def ge25519 : Ge where
  P3 := ZMod l
  geScalarmultBase a := (number a : ZMod l)
  geP3Tobytes := edwards25519.encode

theorem ge25519_computes : ge25519.Computes edwards25519 id where
  scalarmultBase _ _ _ := (nsmul_one _).symm
  tobytes _ := rfl

/-- A seed of zeros, and the empty message. -/
theorem ed25519_verifies_zero : ∃ pk sk sig, ed25519CreateKeypair ge25519 (List.replicate 32 0) = some (pk, sk) ∧
    Keypair edwards25519 pk sk ∧ ed25519Sign ge25519 [] pk sk = some sig ∧ sig.length = 64 ∧
      Verifies edwards25519 pk [] sig :=
  ed25519_verifies ge25519_computes (List.replicate 32 0) []

end Ed25519

end Sanctum
