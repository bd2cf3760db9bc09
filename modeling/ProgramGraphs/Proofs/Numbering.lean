import Mathlib.Data.List.TakeWhile
import Mathlib.Logic.Function.Basic

/-! # Numbers in names

Numbers that differ are written differently, and the text of a number is read off a longer text up
to the first character that is no digit. So names that are made of letters and numbers in turn are
the same only where all their numbers are.
-/

namespace ProgramGraphs

theorem toList_toString (number : Nat) : (toString number).toList = Nat.toDigits 10 number :=
  Nat.toList_repr

theorem isDigit_of_mem_toString {number : Nat} {c : Char} (member : c ∈ (toString number).toList) :
    c.isDigit = true := by
  rw [toList_toString] at member
  exact Nat.isDigit_of_mem_toDigits (by decide) (by decide) member

theorem toString_injective : Function.Injective (toString : Nat → String) := by
  intro first second same
  have digits := congrArg String.toList same
  rw [toList_toString, toList_toString] at digits
  rw [← @Nat.ofDigitChars_ten_toDigits first, digits, Nat.ofDigitChars_ten_toDigits]

/-- No digit stands at the head of a text. -/
def EndsDigits (rest : List Char) : Prop :=
  ∀ c ∈ rest.head?, c.isDigit = false

theorem endsDigits_nil : EndsDigits [] :=
  fun _ none => nomatch none

theorem endsDigits_cons {c : Char} (other : c.isDigit = false) (rest : List Char) :
    EndsDigits (c :: rest) := by
  rintro _ ⟨⟩
  exact other

theorem takeWhile_toString_append (number : Nat) {rest : List Char} (ends : EndsDigits rest) :
    ((toString number).toList ++ rest).takeWhile Char.isDigit = (toString number).toList := by
  rw [List.takeWhile_append_of_pos fun c => isDigit_of_mem_toString]
  cases rest with
  | nil => exact List.append_nil _
  | cons c rest =>
    rw [List.takeWhile_cons_of_neg (Bool.not_eq_true _ ▸ ends c rfl), List.append_nil]

/-- Where numbers end, both they and what follows them can be read off. -/
theorem toString_append_inj {first second : Nat} {rest other : List Char} (ends : EndsDigits rest)
    (endsOther : EndsDigits other) :
    (toString first).toList ++ rest = (toString second).toList ++ other ↔
      first = second ∧ rest = other := by
  constructor
  · intro same
    have digits := congrArg (List.takeWhile Char.isDigit) same
    rw [takeWhile_toString_append first ends, takeWhile_toString_append second endsOther] at digits
    rw [digits, List.append_cancel_left_eq] at same
    exact ⟨toString_injective (String.toList_inj.mp digits), same⟩
  · rintro ⟨rfl, rfl⟩
    rfl

end ProgramGraphs
