import Sanctum.Devices.Htif
import Mathlib.Order.Filter.AtTopBot.Basic

/-!
# Printing

`print_char` of `bootloader.c`. The boot loader puts a character into `tohost` for the host to take, and before that
waits until the host has taken the last one. There is no hart yet with which it would have to share the registers.

The host has a turn before every access to its registers, and may do in it what it likes. That it changes nothing
else (`Confined`), and that it does not leave a command for good (`Serves`), is what the code relies on.

## What is proved

* `printChars_frame` — whatever the host does, what it may not change is as it was once characters have been printed.
* `printChars_spec` — with a host that serves, printing comes to an end, and the host is given all of the characters,
  in order: none is put in the place of one that has not been taken.
-/

namespace Sanctum

namespace Boot

open Memory Filter

/-! ### The code -/

/-- Where the linker has put what the boot loader refers to. -/
structure Symbols where
  /-- `fromhost`. -/
  fromhost : Word
  /-- `tohost`. -/
  tohost : Word
  /-- `PK_D`, the beginning of the header. -/
  header : Word
  /-- `sm_ptr`. -/
  smPtr : Word
  /-- The host's registers come first, -/
  fromhost_le : fromhost.toNat + 8 ≤ tohost.toNat
  tohost_le : tohost.toNat + 8 ≤ header.toNat
  /-- and the monitor after the header. -/
  header_le : header.toNat + 264 ≤ smPtr.toNat

/-- Memory, and what the host has had of it. -/
structure State where
  /-- Memory. -/
  mem : Memory
  /-- How many turns the host has had. -/
  turn : ℕ
  /-- The commands that the host has taken, oldest first. -/
  taken : List Word

/-- What the host makes of memory in each of its turns. -/
abbrev Host := ℕ → Memory → Memory

/-- The command in a register, if there is one. -/
def command (w : Word) : List Word := if w = 0 then [] else [w]

/-- The host has a turn. It takes a command by putting a zero in its place. -/
def State.yield (H : Host) (L : Symbols) (s : State) : State :=
  let m := H s.turn s.mem
  ⟨m, s.turn + 1, if m.load64 L.tohost = 0 then s.taken ++ command (s.mem.load64 L.tohost) else s.taken⟩

/-- The loop of `print_char`, with `n` looks at `tohost` at most. -/
def waitTohost (H : Host) (L : Symbols) : ℕ → State → Option State
  | 0, _ => none
  | n + 1, s =>
    let s := s.yield H L
    if s.mem.load64 L.tohost = 0 then some s
    else
      let s := s.yield H L
      waitTohost H L n { s with mem := s.mem.store64 L.fromhost 0 }

/-- `print_char`. -/
def printChar (H : Host) (L : Symbols) (n : ℕ) (s : State) (c : Byte) : Option State := do
  let s ← waitTohost H L n s
  let s := s.yield H L
  return { s with mem := s.mem.store64 L.tohost (Htif.writeCmd c) }

/-- Characters, one after the other. -/
def printChars (H : Host) (L : Symbols) (n : ℕ) (s : State) (chars : List Byte) : Option State :=
  chars.foldlM (printChar H L n) s

/-! ### What the code relies on -/

/-- The byte is in one of the host's registers. -/
def Symbols.InRegisters (L : Symbols) (b : Word) : Prop := Within L.fromhost 8 b ∨ Within L.tohost 8 b

/-- The host changes some bytes only. Its registers are among them, and all of them are before the header. -/
structure Host.Confined (H : Host) (L : Symbols) (P : Word → Prop) : Prop where
  frame : ∀ t m b, ¬ P b → H t m b = m b
  registers : ∀ b, L.InRegisters b → P b
  below : ∀ b, P b → b.toNat < L.header.toNat

/-- The host changes its registers only, and takes what it is given. -/
structure Host.Serves (H : Host) (L : Symbols) : Prop where
  frame : ∀ t m b, ¬ L.InRegisters b → H t m b = m b
  /-- It takes a command, or leaves it there. -/
  tohost : ∀ t m, (H t m).load64 L.tohost = m.load64 L.tohost ∨ (H t m).load64 L.tohost = 0
  /-- Again and again it takes whatever there is. -/
  takes : ∀ t, ∃ t' ≥ t, ∀ m, (H t' m).load64 L.tohost = 0

/-- What the host has been given: what it has taken, and what it has yet to take. -/
def State.given (L : Symbols) (s : State) : List Word := s.taken ++ command (s.mem.load64 L.tohost)

variable {H : Host} {L : Symbols} {P : Word → Prop} {s s' : State} {n : ℕ}

theorem toNat_lt_header {b : Word} (hb : L.InRegisters b) : b.toNat < L.header.toNat := by
  have h₁ := L.fromhost_le
  have h₂ := L.tohost_le
  have h₃ := L.header.isLt
  rcases hb with hb | hb
  · rw [within_iff (by omega)] at hb
    omega
  · rw [within_iff (by omega)] at hb
    omega

theorem Host.Serves.confined (hH : H.Serves L) : H.Confined L L.InRegisters :=
  ⟨hH.frame, fun _ hb => hb, fun _ => toNat_lt_header⟩

theorem apart_registers : Apart L.tohost 8 L.fromhost 8 :=
  (apart_of_le L.fromhost_le (by have := L.tohost_le; have := L.header.isLt; omega)).symm

/-! ### What printing leaves alone -/

section Frame

variable (hH : H.Confined L P)

include hH

theorem waitTohost_frame {b : Word} (hb : ¬ P b) (h : waitTohost H L n s = some s') : s'.mem b = s.mem b := by
  induction n generalizing s with
  | zero => nomatch h
  | succ n ih =>
    rw [waitTohost] at h
    split at h
    · obtain rfl := Option.some.inj h
      exact hH.frame _ _ b hb
    · have hfromhost : ¬ Within L.fromhost 8 b := fun hin => hb (hH.registers b (.inl hin))
      calc s'.mem b = ((s.yield H L).yield H L).mem.store64 L.fromhost 0 b := ih h
        _ = ((s.yield H L).yield H L).mem b := store64_of_not_within hfromhost
        _ = (s.yield H L).mem b := hH.frame _ _ b hb
        _ = s.mem b := hH.frame _ _ b hb

theorem printChar_frame {c : Byte} {a : Word} (ha : ¬ P a) (h : printChar H L n s c = some s') :
    s'.mem a = s.mem a := by
  obtain ⟨s₁, hwait, hs'⟩ := Option.bind_eq_some_iff.mp h
  obtain rfl := Option.some.inj hs'
  have htohost : ¬ Within L.tohost 8 a := fun hin => ha (hH.registers a (.inr hin))
  calc (s₁.yield H L).mem.store64 L.tohost (Htif.writeCmd c) a = (s₁.yield H L).mem a :=
        store64_of_not_within htohost
    _ = s₁.mem a := hH.frame _ _ a ha
    _ = s.mem a := waitTohost_frame hH ha hwait

end Frame

/-- What each round of a loop leaves alone, -/
theorem foldlM_frame {α : Type} {f : State → α → Option State} {b : Word}
    (hf : ∀ {s x s'}, f s x = some s' → s'.mem b = s.mem b) {xs : List α} (h : xs.foldlM f s = some s') :
    s'.mem b = s.mem b := by
  induction xs generalizing s with
  | nil => rw [← Option.some.inj h]
  | cons x xs ih =>
    rw [List.foldlM_cons] at h
    obtain ⟨s₁, h₁, hrest⟩ := Option.bind_eq_some_iff.mp h
    exact (ih hrest).trans (hf h₁)

/-- and so what **printing** leaves alone. -/
theorem printChars_frame (hH : H.Confined L P) {b : Word} (hb : ¬ P b) {chars : List Byte}
    (h : printChars H L n s chars = some s') : s'.mem b = s.mem b :=
  foldlM_frame (fun h => printChar_frame hH hb h) h

/-! ### What the host is given -/

theorem given_congr (htaken : s'.taken = s.taken) (hm : ∀ b, Within L.tohost 8 b → s'.mem b = s.mem b) :
    s'.given L = s.given L := by
  rw [State.given, State.given, htaken, load64_congr hm]

theorem given_of_tohost (h : s.mem.load64 L.tohost = 0) : s.given L = s.taken := by
  rw [State.given, h, command, if_pos rfl, List.append_nil]

section Serves

variable (hH : H.Serves L)

include hH

/-- A turn of the host: what it has been given remains the same. -/
theorem given_yield (s : State) : (s.yield H L).given L = s.given L := by
  by_cases h0 : (H s.turn s.mem).load64 L.tohost = 0
  · rw [given_of_tohost h0, State.given, State.yield]
    exact if_pos h0
  · have hleft := (hH.tohost s.turn s.mem).resolve_right h0
    rw [hleft] at h0
    rw [State.given, State.given, State.yield]
    simp only [hleft, if_neg h0]

/-- A free register remains free. -/
theorem tohost_yield (h : s.mem.load64 L.tohost = 0) : (s.yield H L).mem.load64 L.tohost = 0 :=
  (hH.tohost s.turn s.mem).elim (fun hleft => hleft.trans h) id

/-- If the register is free when it is looked at, the wait is over. -/
theorem waitTohost_of_free (h : (s.yield H L).mem.load64 L.tohost = 0) :
    ∃ s', (∀ᶠ n in atTop, waitTohost H L n s = some s') ∧ s'.mem.load64 L.tohost = 0 ∧ s'.given L = s.given L := by
  refine ⟨s.yield H L, ?_, h, given_yield hH s⟩
  filter_upwards [eventually_ge_atTop 1] with n hn
  obtain ⟨n, rfl⟩ := Nat.exists_eq_add_of_le' hn
  rw [waitTohost, if_pos h]

/-- **The wait** is over at the latest when the host takes whatever there is, in turn `t`. -/
theorem waitTohost_spec {t : ℕ} (htakes : ∀ m, (H t m).load64 L.tohost = 0) (k : ℕ) (s : State)
    (hk : s.mem.load64 L.tohost = 0 ∨ s.turn ≤ t ∧ t < s.turn + k) :
    ∃ s', (∀ᶠ n in atTop, waitTohost H L n s = some s') ∧ s'.mem.load64 L.tohost = 0 ∧ s'.given L = s.given L := by
  -- the induction is on how many turns there are until then
  induction k generalizing s with
  | zero => exact waitTohost_of_free hH (tohost_yield hH (hk.resolve_right (by omega)))
  | succ k ih =>
    by_cases hfree : (s.yield H L).mem.load64 L.tohost = 0
    · exact waitTohost_of_free hH hfree
    · obtain ⟨hle, hlt⟩ := hk.resolve_left fun h0 => hfree (tohost_yield hH h0)
      have hne : t ≠ s.turn := by
        rintro rfl
        exact hfree (htakes s.mem)
      set s₁ := (s.yield H L).yield H L with hs₁
      have hstored : (s₁.mem.store64 L.fromhost 0).load64 L.tohost = s₁.mem.load64 L.tohost :=
        load64_store64_of_apart apart_registers
      have hnext : s₁.mem.load64 L.tohost = 0 ∨ s₁.turn ≤ t ∧ t < s₁.turn + k := by
        by_cases hturn : t = s.turn + 1
        · subst hturn
          exact .inl (htakes (s.yield H L).mem)
        · have hs₁turn : s₁.turn = s.turn + 2 := rfl
          exact .inr (by omega)
      obtain ⟨s', hs', hzero, hgiven⟩ := ih { s₁ with mem := s₁.mem.store64 L.fromhost 0 }
        (by rwa [hstored])
      refine ⟨s', ?_, hzero, ?_⟩
      · obtain ⟨N, hN⟩ := eventually_atTop.mp hs'
        filter_upwards [eventually_ge_atTop (N + 1)] with n hn
        obtain ⟨n, rfl⟩ := Nat.exists_eq_add_of_le' (Nat.one_le_of_lt hn)
        rw [waitTohost, if_neg hfree, ← hs₁]
        exact hN n (by omega)
      · calc s'.given L = ({ s₁ with mem := s₁.mem.store64 L.fromhost 0 } : State).given L := hgiven
          _ = s₁.given L := given_congr rfl fun b hb => store64_of_not_within (apart_registers b hb)
          _ = (s.yield H L).given L := given_yield hH _
          _ = s.given L := given_yield hH s

/-- A character is given to the host. -/
theorem printChar_spec (s : State) (c : Byte) :
    ∃ s', (∀ᶠ n in atTop, printChar H L n s c = some s') ∧ s'.given L = s.given L ++ [Htif.writeCmd c] := by
  obtain ⟨t, ht, htakes⟩ := hH.takes s.turn
  obtain ⟨s₁, hs₁, hfree, hgiven⟩ := waitTohost_spec hH htakes (t - s.turn + 1) s (.inr (by omega))
  refine ⟨_, hs₁.mono fun n hn => by rw [printChar, hn]; rfl, ?_⟩
  have htaken : (s₁.yield H L).taken = s.given L := by
    rw [← given_of_tohost (tohost_yield hH hfree), given_yield hH, hgiven]
  rw [State.given, load64_store64_self, command, if_neg (Htif.writeCmd_ne_zero c), htaken]

/-- **Characters are given to the host**, in order. -/
theorem printChars_spec (s : State) (chars : List Byte) :
    ∃ s', (∀ᶠ n in atTop, printChars H L n s chars = some s') ∧
      s'.given L = s.given L ++ chars.map Htif.writeCmd := by
  induction chars generalizing s with
  | nil => exact ⟨s, .of_forall fun _ => rfl, (List.append_nil _).symm⟩
  | cons c chars ih =>
    obtain ⟨s₁, hs₁, hgiven₁⟩ := printChar_spec hH s c
    obtain ⟨s₂, hs₂, hgiven₂⟩ := ih s₁
    refine ⟨s₂, ?_, ?_⟩
    · filter_upwards [hs₁, hs₂] with n h₁ h₂
      rw [printChars, List.foldlM_cons, h₁]
      exact h₂
    · rw [hgiven₂, hgiven₁, List.append_assoc, List.singleton_append, ← List.map_cons]

end Serves

end Boot

end Sanctum
