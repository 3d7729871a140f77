import Mathlib.Data.List.TakeWhile
import Sanctum.Machine.Bytes

/-!
# Strings

The functions of `string.c` that the device tree code uses. A string is in memory, with a null byte
after it; `strlen` and `strcmp` read on until they find one. The second argument of `strcmp` and of
`strcpy` is a constant wherever they are called, so it is the list of its characters here.
-/

namespace Sanctum

namespace Memory

/-- The loop of `strlen`. There are `2 ^ 64` addresses to look at. -/
def strlenLoop (m : Memory) : ℕ → Word → Option ℕ
  | 0, _ => none
  | n + 1, s => if m s = 0 then some 0 else (strlenLoop m n (s + 1)).map (· + 1)

/-- `strlen`, if it returns. -/
def strlen (m : Memory) (s : Word) : Option ℕ := strlenLoop m (2 ^ 64) s

/-- `strcmp`. -/
def strcmp (m : Memory) : Word → List Byte → ℤ
  | s₁, [] => (m s₁).toNat
  | s₁, c :: s₂ => if m s₁ ≠ 0 ∧ m s₁ = c then strcmp m (s₁ + 1) s₂ else (m s₁).toNat - c.toNat

/-- The bytes `bs` are put into memory from `a` on. -/
def put (m : Memory) : Word → List Byte → Memory
  | _, [] => m
  | a, b :: bs => fun x => if x = a then b else put m (a + 1) bs x

/-- `strcpy`. -/
def strcpy (m : Memory) (dest : Word) (src : List Byte) : Memory := m.put dest (src ++ [0])

variable {m : Memory} {a b : Word} {s s' : List Byte}

/-! ### A string in memory -/

/-- The characters of a string are not null. -/
def NoNull (s : List Byte) : Prop := ∀ c ∈ s, c ≠ 0

instance (s : List Byte) : Decidable (NoNull s) := inferInstanceAs (Decidable (∀ c ∈ s, c ≠ 0))

theorem NoNull.tail {c : Byte} (h : NoNull (c :: s)) : NoNull s := fun d hd => h d (List.mem_cons_of_mem _ hd)

theorem strlenLoop_eq {n : ℕ} (hs : NoNull s) (h : Holds m a (s ++ [0])) (hn : s.length < n) :
    strlenLoop m n a = some s.length := by
  induction s generalizing a n with
  | nil =>
    cases n with
    | zero => exact absurd hn (Nat.not_lt_zero _)
    | succ n => rw [strlenLoop, if_pos h.1]; rfl
  | cons c s ih =>
    cases n with
    | zero => exact absurd hn (Nat.not_lt_zero _)
    | succ n =>
      have hc : m a ≠ 0 := h.1 ▸ hs c List.mem_cons_self
      rw [strlenLoop, if_neg hc, ih hs.tail h.2 (Nat.lt_of_succ_lt_succ hn)]
      rfl

/-- **`strlen`** is the length. -/
theorem strlen_eq (hs : NoNull s) (h : Holds m a (s ++ [0])) (hn : s.length < 2 ^ 64) : strlen m a = some s.length :=
  strlenLoop_eq hs h hn

/-- **`strcmp`** returns zero if the string is in memory. -/
theorem strcmp_eq_zero_iff (hs : NoNull s) : strcmp m a s = 0 ↔ Holds m a (s ++ [0]) := by
  have h0 : (0 : Byte).toNat = 0 := rfl
  induction s generalizing a with
  | nil =>
    rw [strcmp, Int.natCast_eq_zero, ← h0, BitVec.toNat_inj]
    exact (and_iff_left trivial).symm
  | cons c s ih =>
    have hc := hs c List.mem_cons_self
    rw [strcmp]
    split
    · next h => exact (ih hs.tail).trans (and_iff_right h.2).symm
    · next h =>
      constructor
      · intro heq
        have hnat : (m a).toNat = c.toNat := by omega
        have hmc : m a = c := BitVec.eq_of_toNat_eq hnat
        exact absurd ⟨hmc ▸ hc, hmc⟩ h
      · intro hold
        exact absurd ⟨hold.1 ▸ hc, hold.1⟩ h

/-- At one address there is one string. -/
theorem string_unique (hs : NoNull s) (hs' : NoNull s') (h : Holds m a (s ++ [0])) (h' : Holds m a (s' ++ [0])) :
    s = s' := by
  induction s generalizing a s' with
  | nil =>
    cases s' with
    | nil => rfl
    | cons c s' => exact absurd (h'.1.symm.trans h.1) (hs' c List.mem_cons_self)
  | cons c s ih =>
    cases s' with
    | nil => exact absurd (h.1.symm.trans h'.1) (hs c List.mem_cons_self)
    | cons c' s' =>
      have hc : c = c' := h.1.symm.trans h'.1
      rw [hc, ih hs.tail hs'.tail h.2 h'.2]

/-- `strcmp` of two strings. -/
theorem strcmp_eq_zero_iff_eq (hs : NoNull s) (hs' : NoNull s') (h : Holds m a (s ++ [0])) :
    strcmp m a s' = 0 ↔ s = s' := by
  rw [strcmp_eq_zero_iff hs']
  exact ⟨fun h' => string_unique hs hs' h h', fun heq => heq ▸ h⟩

/-- The first string in a list of bytes. -/
theorem exists_string (v : List Byte) : NoNull v ∨ ∃ s rest, NoNull s ∧ v = s ++ 0 :: rest := by
  induction v with
  | nil => exact .inl fun c hc => nomatch hc
  | cons b v ih =>
    by_cases hb : b = 0
    · exact .inr ⟨[], v, fun c hc => (nomatch hc), by rw [hb]; rfl⟩
    · have hcons {s : List Byte} (hs : NoNull s) : NoNull (b :: s) := by
        intro c hc
        rcases List.mem_cons.mp hc with rfl | hc
        · exact hb
        · exact hs c hc
      rcases ih with h | ⟨s, rest, hs, rfl⟩
      · exact .inl (hcons h)
      · exact .inr ⟨b :: s, rest, hcons hs, rfl⟩

/-- The bytes before the first null byte. -/
def cstring (v : List Byte) : List Byte := v.takeWhile (· ≠ 0)

theorem cstring_of_noNull (hs : NoNull s) : cstring s = s := by
  rw [cstring, List.takeWhile_eq_self_iff]
  exact fun c hc => decide_eq_true (hs c hc)

theorem cstring_string (hs : NoNull s) (rest : List Byte) : cstring (s ++ 0 :: rest) = s := by
  rw [cstring, List.takeWhile_append_of_pos fun c hc => decide_eq_true (hs c hc)]
  simp

/-- **`strcmp` with bytes that have a null byte after them.** -/
theorem strcmp_eq_zero_iff_cstring (hs : NoNull s) {v t : List Byte} (h : Holds m a (v ++ 0 :: t)) :
    strcmp m a s = 0 ↔ cstring v = s := by
  rcases exists_string v with hv | ⟨s', rest, hs', rfl⟩
  · rw [← List.singleton_append, ← List.append_assoc, holds_append] at h
    rw [cstring_of_noNull hv]
    exact strcmp_eq_zero_iff_eq hv hs h.1
  · rw [List.append_assoc, List.cons_append, ← List.singleton_append, ← List.append_assoc, holds_append] at h
    rw [cstring_string hs']
    exact strcmp_eq_zero_iff_eq hs' hs h.1

/-! ### Bytes put into memory -/

/-- Each byte is as it was, or one of those put there. -/
theorem put_or_mem (m : Memory) (a : Word) (bs : List Byte) (b : Word) : put m a bs b = m b ∨ put m a bs b ∈ bs := by
  induction bs generalizing a with
  | nil => exact .inl rfl
  | cons c bs ih =>
    change (if b = a then c else put m (a + 1) bs b) = m b ∨ (if b = a then c else put m (a + 1) bs b) ∈ c :: bs
    split
    · exact .inr List.mem_cons_self
    · exact (ih (a + 1)).imp_right (List.mem_cons_of_mem _)

theorem put_of_not_within {bs : List Byte} (h : ¬ Within a bs.length b) (hbs : bs.length ≤ 2 ^ 64) :
    put m a bs b = m b := by
  induction bs generalizing a with
  | nil => rfl
  | cons c bs ih =>
    have hb : b ≠ a := by
      rintro rfl
      refine h ?_
      rw [Within, BitVec.sub_self]
      exact Nat.succ_pos _
    rw [List.length_cons] at h hbs
    refine (if_neg hb).trans (ih (fun hw => h ?_) (by omega))
    obtain ⟨k, hk, rfl⟩ := exists_of_within hw
    rw [add_one_add]
    exact within_add (by omega) hbs

theorem holds_put {bs : List Byte} (hbs : bs.length ≤ 2 ^ 64) : Holds (put m a bs) a bs := by
  induction bs generalizing a with
  | nil => trivial
  | cons c bs ih =>
    rw [List.length_cons] at hbs
    refine ⟨if_pos rfl, (ih (by omega)).congr (by omega) fun b hb => if_neg ?_⟩
    rintro rfl
    obtain ⟨k, hk, heq⟩ := exists_of_within hb
    rw [add_one_add] at heq
    have hnat := congrArg BitVec.toNat (BitVec.self_eq_add_right.mp heq)
    rw [BitVec.toNat_ofNat, Nat.mod_eq_of_lt (by omega)] at hnat
    exact absurd hnat (Nat.succ_ne_zero k)

end Memory

end Sanctum
