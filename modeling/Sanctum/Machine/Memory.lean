import Mathlib.Data.Nat.Bitwise
import Mathlib.Data.BitVec

/-!
# Byte-addressed memory

A memory with one byte at every 64-bit address, and the little-endian loads and
stores of a 64-bit machine. Addresses wrap around, as the machine's do: the `n`
bytes from `a` on are `a, a + 1, .., a + (n – 1)` modulo `2 ^ 64`.

Numbers of any width are loaded and stored as natural numbers (`load`, `store`);
`load64`, `store64`, `load32` and `store32` are the machine's own widths. A store
changes the bytes it covers and no other, so a load is unaffected by a store
`Apart` from it (`load_store_of_apart`), and gives back what a store of the same
bytes put there (`load_store_self`).

A memory `Shrinks` when no byte of it grows. Clearing bits and filling with zeros
do that (`shrinks_store64_and`, `shrinks_zeroed`), wherever they do it, and no
number in a memory that shrinks grows (`Shrinks.load_le`).
-/

namespace Sanctum

/-- A machine word. Addresses are words. -/
abbrev Word := BitVec 64

/-- A byte. -/
abbrev Byte := BitVec 8

/-- A byte at every address. -/
abbrev Memory := Word → Byte

namespace Memory

/-! ### Ranges of addresses -/

/-- `b` is one of the `n` bytes from `a` on. -/
def Within (a : Word) (n : ℕ) (b : Word) : Prop := (b - a).toNat < n

instance (a : Word) (n : ℕ) (b : Word) : Decidable (Within a n b) :=
  inferInstanceAs (Decidable (_ < _))

/-- The `n` bytes from `a` on and the `k` bytes from `b` on have no byte in common. -/
def Apart (a : Word) (n : ℕ) (b : Word) (k : ℕ) : Prop := ∀ x, Within a n x → ¬ Within b k x

theorem Apart.symm {a b : Word} {n k : ℕ} (h : Apart a n b k) : Apart b k a n :=
  fun x hb ha => h x ha hb

theorem Within.mono {a b : Word} {n k : ℕ} (h : Within a n b) (hk : n ≤ k) : Within a k b :=
  lt_of_lt_of_le h hk

/-- A range that does not wrap is an interval. -/
theorem within_iff {a b : Word} {n : ℕ} (h : a.toNat + n ≤ 2 ^ 64) :
    Within a n b ↔ a.toNat ≤ b.toNat ∧ b.toNat < a.toNat + n := by
  unfold Within
  have ha := a.isLt
  have hb := b.isLt
  rw [BitVec.toNat_sub]
  omega

/-- How far byte `i` of a range is from its start. -/
theorem toNat_add_sub {a : Word} {i : ℕ} (hi : i < 2 ^ 64) :
    (a + BitVec.ofNat 64 i - a).toNat = i := by
  rw [BitVec.add_comm, BitVec.add_sub_cancel, BitVec.toNat_ofNat, Nat.mod_eq_of_lt hi]

/-- A byte of a range that does not wrap. -/
theorem toNat_add_ofNat {a : Word} {i : ℕ} (h : a.toNat + i < 2 ^ 64) :
    (a + BitVec.ofNat 64 i).toNat = a.toNat + i := by
  rw [BitVec.toNat_add, BitVec.toNat_ofNat]
  omega

/-- The bytes of a range, one by one. -/
theorem within_add {a : Word} {n i : ℕ} (hi : i < n) (hn : n ≤ 2 ^ 64) :
    Within a n (a + BitVec.ofNat 64 i) := by
  unfold Within
  rwa [toNat_add_sub (lt_of_lt_of_le hi hn)]

theorem exists_of_within {a b : Word} {n : ℕ} (h : Within a n b) :
    ∃ i < n, b = a + BitVec.ofNat 64 i :=
  ⟨(b - a).toNat, h, by rw [BitVec.ofNat_toNat, BitVec.setWidth_eq, BitVec.add_comm, BitVec.sub_add_cancel]⟩

/-- A range within a range. -/
theorem Within.of_add {a b : Word} {i n k : ℕ} (h : Within (a + BitVec.ofNat 64 i) n b) (hk : i + n ≤ k)
    (hlt : k ≤ 2 ^ 64) : Within a k b := by
  obtain ⟨j, hj, rfl⟩ := exists_of_within h
  rw [BitVec.add_assoc, ← BitVec.ofNat_add]
  exact within_add (by omega) hlt

/-- A range in two parts. -/
theorem within_add_iff {a b : Word} {n k : ℕ} (h : n + k ≤ 2 ^ 64) :
    Within a (n + k) b ↔ Within a n b ∨ Within (a + BitVec.ofNat 64 n) k b := by
  constructor
  · intro hb
    obtain ⟨i, hi, rfl⟩ := exists_of_within hb
    by_cases hn : i < n
    · exact .inl (within_add hn (by omega))
    · have hsplit : a + BitVec.ofNat 64 i = a + BitVec.ofNat 64 n + BitVec.ofNat 64 (i - n) := by
        rw [BitVec.add_assoc, ← BitVec.ofNat_add, Nat.add_sub_cancel' (Nat.not_lt.mp hn)]
      exact .inr (hsplit ▸ within_add (by omega) (by omega))
  · rintro (hb | hb)
    · exact hb.mono (by omega)
    · exact hb.of_add le_rfl h

theorem within_one_iff {a b : Word} : Within a 1 b ↔ b = a := by
  constructor
  · intro hb
    obtain ⟨i, hi, rfl⟩ := exists_of_within hb
    rw [Nat.lt_one_iff.mp hi]
    exact BitVec.add_zero a
  · rintro rfl
    rw [Within, BitVec.sub_self]
    exact Nat.zero_lt_one

/-- Two intervals, one below the other, have no byte in common. -/
theorem apart_of_le {a b : Word} {n k : ℕ} (h : a.toNat + n ≤ b.toNat) (hb : b.toNat + k ≤ 2 ^ 64) :
    Apart a n b k := by
  intro x hx hx'
  rw [within_iff (by omega)] at hx
  rw [within_iff hb] at hx'
  omega

/-- Two intervals that do not overlap have no byte in common. -/
theorem apart_of_disjoint {a b : Word} {n k : ℕ} (ha : a.toNat + n ≤ 2 ^ 64) (hb : b.toNat + k ≤ 2 ^ 64)
    (h : a.toNat + n ≤ b.toNat ∨ b.toNat + k ≤ a.toNat) : Apart a n b k := by
  rcases h with h | h
  · exact apart_of_le h hb
  · exact (apart_of_le h ha).symm

/-- Two parts of one range. -/
theorem apart_add {a : Word} {i n j k : ℕ} (h : i + n ≤ j) (hj : j + k ≤ 2 ^ 64) :
    Apart (a + BitVec.ofNat 64 i) n (a + BitVec.ofNat 64 j) k := by
  intro x hx hx'
  obtain ⟨p, hp, rfl⟩ := exists_of_within hx
  obtain ⟨q, hq, e⟩ := exists_of_within hx'
  rw [BitVec.add_assoc, BitVec.add_assoc, ← BitVec.ofNat_add, ← BitVec.ofNat_add] at e
  have hnat := congrArg BitVec.toNat ((BitVec.add_right_inj a).mp e)
  rw [BitVec.toNat_ofNat, BitVec.toNat_ofNat, Nat.mod_eq_of_lt (by omega), Nat.mod_eq_of_lt (by omega)] at hnat
  omega

/-- A byte before or after a part of a range. -/
theorem not_within_add {a : Word} {i j n : ℕ} (h : i < j ∨ j + n ≤ i) (hi : i < 2 ^ 64) (hj : j + n ≤ 2 ^ 64) :
    ¬ Within (a + BitVec.ofNat 64 j) n (a + BitVec.ofNat 64 i) := by
  intro hw
  obtain ⟨k, hk, e⟩ := exists_of_within hw
  rw [BitVec.add_assoc, ← BitVec.ofNat_add] at e
  have hnat := congrArg BitVec.toNat ((BitVec.add_right_inj a).mp e)
  rw [BitVec.toNat_ofNat, BitVec.toNat_ofNat, Nat.mod_eq_of_lt hi, Nat.mod_eq_of_lt (by omega)] at hnat
  omega

/-- The bytes of an aligned word. -/
theorem within_iff_div {a x : Word} {n : ℕ} (hn : n ∣ 2 ^ 64) (ha : a.toNat % n = 0) :
    Within a n x ↔ x.toNat / n = a.toNat / n := by
  have hpos : 0 < n := Nat.pos_of_dvd_of_pos hn (by omega)
  obtain ⟨p, hp⟩ := hn
  obtain ⟨q, hq⟩ := Nat.dvd_of_mod_eq_zero ha
  have hlt : q < p := by
    have hbound := a.isLt
    rw [hp, hq] at hbound
    exact Nat.lt_of_mul_lt_mul_left hbound
  have hend : n * q + n ≤ 2 ^ 64 := by
    rw [hp, ← Nat.mul_succ]
    exact Nat.mul_le_mul_left n hlt
  rw [within_iff (by rw [hq]; exact hend), hq, Nat.mul_div_cancel_left q hpos, Nat.div_eq_iff hpos, Nat.mul_comm q n]
  omega

/-- Aligned words are the same or apart. -/
theorem apart_of_ne {a b : Word} {n : ℕ} (hn : n ∣ 2 ^ 64) (ha : a.toNat % n = 0) (hb : b.toNat % n = 0)
    (hne : a ≠ b) : Apart a n b n := by
  intro x hx hx'
  rw [within_iff_div hn ha] at hx
  rw [within_iff_div hn hb, hx] at hx'
  apply hne
  apply BitVec.eq_of_toNat_eq
  rw [← Nat.div_add_mod a.toNat n, ← Nat.div_add_mod b.toNat n, ha, hb, hx']

/-- Two words of an array are the same or apart, also where the array goes round the address space. -/
theorem apart_words {p : Word} {i j : ℕ} (h : p + BitVec.ofNat 64 (8 * i) ≠ p + BitVec.ofNat 64 (8 * j)) :
    Apart (p + BitVec.ofNat 64 (8 * i)) 8 (p + BitVec.ofNat 64 (8 * j)) 8 := by
  have hmod : ∀ k, (BitVec.ofNat 64 (8 * k) : Word).toNat % 8 = 0 := fun k => by rw [BitVec.toNat_ofNat]; omega
  have hwords := apart_of_ne (by decide) (hmod i) (hmod j) fun heq => h (by rw [heq])
  intro x hx hx'
  refine hwords (x - p) ?_ ?_
  · rwa [Within, BitVec.sub_sub]
  · rwa [Within, BitVec.sub_sub]

/-! ### Loads and stores -/

/-- The number in the `n` bytes from `a` on, least significant byte first. -/
def load (m : Memory) (a : Word) : ℕ → ℕ
  | 0 => 0
  | n + 1 => (m a).toNat + 256 * load m (a + 1) n

/-- The number `v` put in the `n` bytes from `a` on, least significant byte first. -/
def store (m : Memory) (a : Word) (n v : ℕ) : Memory :=
  fun b => if Within a n b then BitVec.ofNat 8 (v / 256 ^ (b - a).toNat) else m b

/-- The byte `x` put in each of the `n` bytes from `a` on. -/
def fill (m : Memory) (a : Word) (n : ℕ) (x : Byte) : Memory :=
  fun b => if Within a n b then x else m b

/-- Zeros put in the `n` bytes from `a` on, as `memset` does it: it goes on while it is below the address
after the last byte, and puts nothing where that address wraps around. -/
def zeroed (m : Memory) (a : Word) (n : ℕ) : Memory := if a.toNat + n < 2 ^ 64 then fill m a n 0 else m

/-- A 64-bit load. -/
def load64 (m : Memory) (a : Word) : Word := BitVec.ofNat 64 (load m a 8)

/-- A 64-bit store. -/
def store64 (m : Memory) (a v : Word) : Memory := store m a 8 v.toNat

/-- A 32-bit load. -/
def load32 (m : Memory) (a : Word) : BitVec 32 := BitVec.ofNat 32 (load m a 4)

/-- A 32-bit store. -/
def store32 (m : Memory) (a : Word) (v : BitVec 32) : Memory := store m a 4 v.toNat

theorem store_of_not_within {m : Memory} {a b : Word} {n v : ℕ} (h : ¬ Within a n b) :
    store m a n v b = m b := if_neg h

theorem store_of_within {m : Memory} {a b : Word} {n v : ℕ} (h : Within a n b) :
    store m a n v b = BitVec.ofNat 8 (v / 256 ^ (b - a).toNat) := if_pos h

theorem fill_of_not_within {m : Memory} {a b : Word} {n : ℕ} {x : Byte} (h : ¬ Within a n b) :
    fill m a n x b = m b := if_neg h

theorem fill_of_within {m : Memory} {a b : Word} {n : ℕ} {x : Byte} (h : Within a n b) :
    fill m a n x b = x := if_pos h

theorem zeroed_eq_fill {m : Memory} {a : Word} {n : ℕ} (h : a.toNat + n < 2 ^ 64) : zeroed m a n = fill m a n 0 :=
  if_pos h

theorem zeroed_eq_self {m : Memory} {a : Word} {n : ℕ} (h : 2 ^ 64 ≤ a.toNat + n) : zeroed m a n = m :=
  if_neg (not_lt.mpr h)

theorem zeroed_of_not_within {m : Memory} {a b : Word} {n : ℕ} (h : ¬ Within a n b) : zeroed m a n b = m b := by
  unfold zeroed
  split
  · exact fill_of_not_within h
  · rfl

theorem zeroed_of_within {m : Memory} {a b : Word} {n : ℕ} (hn : a.toNat + n < 2 ^ 64) (h : Within a n b) :
    zeroed m a n b = 0 := by
  rw [zeroed_eq_fill hn]
  exact fill_of_within h

theorem load_lt (m : Memory) (a : Word) (n : ℕ) : load m a n < 256 ^ n := by
  induction n generalizing a with
  | zero => simp [load]
  | succ n ih =>
    have h1 := (m a).isLt
    have h2 := ih (a + 1)
    rw [load, pow_succ]
    omega

@[simp] theorem toNat_load64 (m : Memory) (a : Word) : (load64 m a).toNat = load m a 8 := by
  rw [load64, BitVec.toNat_ofNat]
  exact Nat.mod_eq_of_lt (load_lt m a 8)

@[simp] theorem toNat_load32 (m : Memory) (a : Word) : (load32 m a).toNat = load m a 4 := by
  rw [load32, BitVec.toNat_ofNat]
  exact Nat.mod_eq_of_lt (load_lt m a 4)

private theorem succ_addr (a : Word) (i : ℕ) :
    a + 1 + BitVec.ofNat 64 i = a + BitVec.ofNat 64 (i + 1) := by
  rw [BitVec.add_assoc, Nat.add_comm i 1, BitVec.ofNat_add]
  rfl

/-- A load looks at the bytes it covers and no other. -/
theorem load_congr {m m' : Memory} {a : Word} {n : ℕ}
    (h : ∀ i < n, m (a + BitVec.ofNat 64 i) = m' (a + BitVec.ofNat 64 i)) :
    load m a n = load m' a n := by
  induction n generalizing a with
  | zero => rfl
  | succ n ih =>
    rw [load, load]
    have h0 := h 0 (Nat.succ_pos n)
    simp only [BitVec.add_zero] at h0
    rw [h0, ih fun i hi => by rw [succ_addr]; exact h (i + 1) (Nat.succ_lt_succ hi)]

theorem load_congr_within {m m' : Memory} {a : Word} {n : ℕ} (hn : n ≤ 2 ^ 64)
    (h : ∀ b, Within a n b → m b = m' b) : load m a n = load m' a n :=
  load_congr fun _ hi => h _ (within_add hi hn)

theorem load64_congr {m m' : Memory} {a : Word} (h : ∀ b, Within a 8 b → m b = m' b) :
    load64 m a = load64 m' a := by
  rw [load64, load64, load_congr_within (by omega) h]

theorem load32_congr {m m' : Memory} {a : Word} (h : ∀ b, Within a 4 b → m b = m' b) :
    load32 m a = load32 m' a := by
  rw [load32, load32, load_congr_within (by omega) h]

/-- A load gives back what a store of the same bytes put there. -/
theorem load_store_self (m : Memory) (a : Word) {n : ℕ} (v : ℕ) (hn : n ≤ 2 ^ 64) :
    load (store m a n v) a n = v % 256 ^ n := by
  -- the bytes from index `k` on hold `v / 256 ^ k`; the induction is on how many are left
  have key : ∀ j k, k + j = n →
      load (store m a n v) (a + BitVec.ofNat 64 k) j = v / 256 ^ k % 256 ^ j := by
    intro j
    induction j with
    | zero => intro k _; simp [load, Nat.mod_one]
    | succ j ih =>
      intro k hk
      have hw : Within a n (a + BitVec.ofNat 64 k) := within_add (by omega) hn
      have hnext := ih (k + 1) (by omega)
      rw [load, store_of_within hw, toNat_add_sub (by omega), BitVec.toNat_ofNat, BitVec.add_assoc,
        show BitVec.ofNat 64 k + 1 = BitVec.ofNat 64 (k + 1) by rw [BitVec.ofNat_add]; rfl, hnext,
        pow_succ 256 k, ← Nat.div_div_eq_div_mul, pow_succ' 256 j, Nat.mod_mul]
  simpa using key n 0 (by omega)

/-- A store does not affect a load apart from it. -/
theorem load_store_of_apart {m : Memory} {a b : Word} {n k v : ℕ} (hn : n ≤ 2 ^ 64)
    (h : Apart a n b k) : load (store m b k v) a n = load m a n :=
  load_congr_within hn fun x hx => store_of_not_within (h x hx)

@[simp] theorem load64_store64_self (m : Memory) (a v : Word) : load64 (store64 m a v) a = v := by
  apply BitVec.eq_of_toNat_eq
  rw [toNat_load64, store64, load_store_self _ _ _ (by omega)]
  exact Nat.mod_eq_of_lt v.isLt

theorem load32_store32_self (m : Memory) (a : Word) (v : BitVec 32) : load32 (store32 m a v) a = v := by
  apply BitVec.eq_of_toNat_eq
  rw [toNat_load32, store32, load_store_self _ _ _ (by omega)]
  exact Nat.mod_eq_of_lt v.isLt

theorem load64_store64_of_apart {m : Memory} {a b v : Word} (h : Apart a 8 b 8) :
    load64 (store64 m b v) a = load64 m a := by
  rw [load64, store64, load_store_of_apart (by omega) h, load64]

theorem load64_store32_of_apart {m : Memory} {a b : Word} {v : BitVec 32} (h : Apart a 8 b 4) :
    load64 (store32 m b v) a = load64 m a := by
  rw [load64, store32, load_store_of_apart (by omega) h, load64]

theorem load32_store64_of_apart {m : Memory} {a b v : Word} (h : Apart a 4 b 8) :
    load32 (store64 m b v) a = load32 m a := by
  rw [load32, store64, load_store_of_apart (by omega) h, load32]

theorem load32_store32_of_apart {m : Memory} {a b : Word} {v : BitVec 32} (h : Apart a 4 b 4) :
    load32 (store32 m b v) a = load32 m a := by
  rw [load32, store32, load_store_of_apart (by omega) h, load32]

theorem load_zero (a : Word) (n : ℕ) : load (fun _ => 0) a n = 0 := by
  induction n generalizing a with
  | zero => rfl
  | succ n ih => rw [load, ih]; rfl

/-- A word in a range of zeros. -/
theorem load64_fill_zero {m : Memory} {a b : Word} {n : ℕ} (h : ∀ x, Within a 8 x → Within b n x) :
    load64 (fill m b n 0) a = 0 := by
  have hbytes : ∀ x, Within a 8 x → fill m b n 0 x = (fun _ => 0 : Memory) x := fun x hx => fill_of_within (h x hx)
  rw [load64_congr hbytes, load64, load_zero]
  rfl

theorem load64_zeroed_of_apart {m : Memory} {a b : Word} {k : ℕ} (h : Apart a 8 b k) :
    load64 (zeroed m b k) a = load64 m a :=
  load64_congr fun y hy => zeroed_of_not_within (h y hy)

theorem store64_of_not_within {m : Memory} {a b v : Word} (h : ¬ Within a 8 b) :
    store64 m a v b = m b := store_of_not_within h

theorem store32_of_not_within {m : Memory} {a b : Word} {v : BitVec 32} (h : ¬ Within a 4 b) :
    store32 m a v b = m b := store_of_not_within h

/-- The first byte of a word that is stored is its lowest. -/
theorem store64_self (m : Memory) (a v : Word) : store64 m a v a = v.setWidth 8 := by
  have hself : Within a 8 a := by simp [Within]
  rw [store64, store_of_within hself, BitVec.sub_self]
  apply BitVec.eq_of_toNat_eq
  simp

/-- Stores one after the other. -/
def storeAll (m : Memory) (stores : List (Word × Word)) : Memory :=
  stores.foldl (fun m p => m.store64 p.1 p.2) m

/-- Stores change the bytes they cover and no other. -/
theorem storeAll_of_not_within {m : Memory} {stores : List (Word × Word)} {b : Word}
    (h : ∀ p ∈ stores, ¬ Within p.1 8 b) : storeAll m stores b = m b := by
  induction stores generalizing m with
  | nil => rfl
  | cons p ps ih =>
    rw [storeAll, List.foldl_cons, ← storeAll, ih fun q hq => h q (List.mem_cons_of_mem _ hq)]
    exact store64_of_not_within (h p List.mem_cons_self)

/-- A word that none of the stores overlaps. -/
theorem load64_storeAll_of_apart {m : Memory} {stores : List (Word × Word)} {a : Word}
    (h : ∀ p ∈ stores, Apart a 8 p.1 8) : load64 (storeAll m stores) a = load64 m a :=
  load64_congr fun _ hb => storeAll_of_not_within fun p hp => h p hp _ hb

/-- A word that has been stored, and that no later store overlaps. -/
theorem load64_storeAll_append {m : Memory} {before after : List (Word × Word)} {a v : Word}
    (h : ∀ p ∈ after, Apart a 8 p.1 8) : load64 (storeAll m (before ++ (a, v) :: after)) a = v := by
  have hsplit : storeAll m (before ++ (a, v) :: after) = storeAll (store64 (storeAll m before) a v) after := by
    rw [storeAll, List.foldl_append, List.foldl_cons]
    rfl
  rw [hsplit, load64_storeAll_of_apart h, load64_store64_self]

/-! ### Memories that shrink -/

/-- Every byte of `m'` is at most what it is in `m`. -/
def Shrinks (m m' : Memory) : Prop := ∀ a, (m' a).toNat ≤ (m a).toNat

theorem Shrinks.refl (m : Memory) : Shrinks m m := fun _ => le_rfl

theorem Shrinks.trans {m₁ m₂ m₃ : Memory} (h : Shrinks m₁ m₂) (h' : Shrinks m₂ m₃) : Shrinks m₁ m₃ :=
  fun a => le_trans (h' a) (h a)

/-- A number in a memory that shrinks does not grow. -/
theorem Shrinks.load_le {m m' : Memory} (h : Shrinks m m') (a : Word) (n : ℕ) : load m' a n ≤ load m a n := by
  induction n generalizing a with
  | zero => exact le_rfl
  | succ n ih =>
    have hb : (m' a).toNat ≤ (m a).toNat := h a
    have hr := ih (a + 1)
    rw [load, load]
    omega

theorem Shrinks.load64_le {m m' : Memory} (h : Shrinks m m') (a : Word) :
    (load64 m' a).toNat ≤ (load64 m a).toNat := by
  rw [toNat_load64, toNat_load64]
  exact h.load_le a 8

theorem shrinks_zeroed (m : Memory) (a : Word) (n : ℕ) : Shrinks m (zeroed m a n) := by
  intro b
  unfold zeroed
  split
  · by_cases hb : Within a n b
    · rw [fill_of_within hb]
      exact Nat.zero_le _
    · rw [fill_of_not_within hb]
  · exact le_rfl

/-- The bytes of a number that is loaded. -/
theorem load_div_mod (m : Memory) (a : Word) {n i : ℕ} (hi : i < n) :
    load m a n / 256 ^ i % 256 = (m (a + BitVec.ofNat 64 i)).toNat := by
  induction n generalizing a i with
  | zero => exact absurd hi (Nat.not_lt_zero i)
  | succ n ih =>
    have hb := (m a).isLt
    rw [load]
    cases i with
    | zero => simp only [pow_zero, Nat.div_one, BitVec.add_zero]; omega
    | succ i =>
      rw [pow_succ', ← Nat.div_div_eq_div_mul,
        show ((m a).toNat + 256 * load m (a + 1) n) / 256 = load m (a + 1) n by omega,
        ih (a + 1) (Nat.lt_of_succ_lt_succ hi), succ_addr]

/-- A word is zero only if all its bytes are. -/
theorem eq_zero_of_load64 {m : Memory} {a b : Word} (h : load64 m a = 0) (hb : Within a 8 b) : m b = 0 := by
  obtain ⟨i, hi, rfl⟩ := exists_of_within hb
  have hload : load m a 8 = 0 := (toNat_load64 m a).symm.trans (congrArg BitVec.toNat h)
  apply BitVec.eq_of_toNat_eq
  rw [← load_div_mod m a hi, hload, Nat.zero_div]
  rfl

/-- A word copied, byte by byte. -/
theorem store64_load64 (m m' : Memory) (a b : Word) {i : ℕ} (hi : i < 8) :
    store64 m a (load64 m' b) (a + BitVec.ofNat 64 i) = m' (b + BitVec.ofNat 64 i) := by
  apply BitVec.eq_of_toNat_eq
  rw [store64, store_of_within (within_add hi (by omega)), toNat_load64, toNat_add_sub (by omega),
    BitVec.toNat_ofNat, ← load_div_mod m' b hi]

/-- Storing a number whose bytes are at most those that are there. -/
theorem shrinks_store {m : Memory} {a : Word} {n v : ℕ} (hn : n ≤ 2 ^ 64)
    (h : ∀ i < n, v / 256 ^ i % 256 ≤ load m a n / 256 ^ i % 256) : Shrinks m (store m a n v) := by
  intro b
  by_cases hb : Within a n b
  · obtain ⟨i, hi, rfl⟩ := exists_of_within hb
    rw [store_of_within hb, toNat_add_sub (by omega), BitVec.toNat_ofNat, ← load_div_mod m a hi]
    exact h i hi
  · rw [store_of_not_within hb]

/-- Clearing bits of a word. -/
theorem shrinks_store64_and (m : Memory) (a w : Word) : Shrinks m (store64 m a (load64 m a &&& w)) := by
  refine shrinks_store (by omega) fun i _ => ?_
  have h256 : (256 : ℕ) ^ i = 2 ^ (8 * i) := by rw [pow_mul]; rfl
  rw [BitVec.toNat_and, toNat_load64, h256, Nat.and_div_two_pow, show 256 = 2 ^ 8 from rfl, Nat.and_mod_two_pow]
  exact Nat.and_le_left

theorem shrinks_store64_zero (m : Memory) (a : Word) : Shrinks m (store64 m a 0) := by
  have h := shrinks_store64_and m a 0
  rwa [show load64 m a &&& 0 = 0 from BitVec.and_zero] at h

-- From here on, loads and stores are known by the lemmas above.
attribute [irreducible] load store fill zeroed load64 store64 load32 store32

end Memory

end Sanctum
