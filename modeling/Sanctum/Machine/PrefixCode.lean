import Mathlib.Data.List.Basic

/-!
# Prefix codes

A code that writes a message for every item is a prefix code if what comes after a
message cannot be mistaken for a part of it. Messages written one after the other can
then be told apart (`PrefixCode.flatMap_injective`).
-/

namespace Sanctum

variable {α β : Type}

/-- No message is empty, and a message and what comes after it say which item it is of. -/
structure PrefixCode (code : α → List β) : Prop where
  /-- A message has at least one symbol. -/
  ne_nil : ∀ a, code a ≠ []
  /-- The message tells the item, whatever comes after it. -/
  item_eq : ∀ a b s t, code a ++ s = code b ++ t → a = b

namespace PrefixCode

variable {code : α → List β}

/-- It tells what comes after it, too. -/
theorem cancel (h : PrefixCode code) {a b : α} {s t : List β} (heq : code a ++ s = code b ++ t) :
    a = b ∧ s = t := by
  obtain rfl := h.item_eq a b s t heq
  exact ⟨rfl, List.append_cancel_left heq⟩

/-- **The items can be read off** their messages, written one after the other. -/
theorem flatMap_injective (h : PrefixCode code) : Function.Injective (List.flatMap code) := by
  intro l
  induction l with
  | nil =>
    intro l' heq
    cases l' with
    | nil => rfl
    | cons b l' =>
      rw [List.flatMap_nil, List.flatMap_cons] at heq
      exact absurd (List.append_eq_nil_iff.mp heq.symm).1 (h.ne_nil b)
  | cons a l ih =>
    intro l' heq
    cases l' with
    | nil =>
      rw [List.flatMap_nil, List.flatMap_cons] at heq
      exact absurd (List.append_eq_nil_iff.mp heq).1 (h.ne_nil a)
    | cons b l' =>
      rw [List.flatMap_cons, List.flatMap_cons] at heq
      obtain ⟨rfl, hrest⟩ := h.cancel heq
      rw [ih hrest]

end PrefixCode

end Sanctum
