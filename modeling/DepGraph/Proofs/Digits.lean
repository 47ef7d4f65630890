import Mathlib.Data.List.Basic
import Mathlib.Data.List.TakeWhile

/-!
# Digits at the front of a text

Numbers are read by splitting off the digits that a text begins with. How many there are is decided
by the first character that is not a digit, so the digits are found whatever comes after it.

The digits that a number is written with do not begin with a zero, except for the number zero. So a
reader that refuses superfluous zeros does not refuse any number.
-/

namespace DepGraph

variable {found rest : List Char}

/-- **The digits that a text begins with** are found if no further one comes after them. -/
theorem takeWhile_isDigit_append (hfound : ∀ c ∈ found, c.isDigit = true)
    (hrest : ∀ c ∈ rest.head?, c.isDigit = false) :
    (found ++ rest).takeWhile Char.isDigit = found := by
  rw [List.takeWhile_append_of_pos hfound]
  rcases rest with _ | ⟨c, rest⟩
  · rw [List.takeWhile_nil, List.append_nil]
  · rw [List.takeWhile_cons_of_neg (by simp [hrest c rfl]), List.append_nil]

theorem dropWhile_isDigit_append (hfound : ∀ c ∈ found, c.isDigit = true)
    (hrest : ∀ c ∈ rest.head?, c.isDigit = false) :
    (found ++ rest).dropWhile Char.isDigit = rest := by
  rw [List.dropWhile_append_of_pos hfound]
  rcases rest with _ | ⟨c, rest⟩
  · rfl
  · rw [List.dropWhile_cons_of_neg (by simp [hrest c rfl])]

/-- What is left after the digits does not begin with one. -/
theorem isDigit_of_mem_head?_dropWhile {text : List Char} {c : Char}
    (hc : c ∈ (text.dropWhile Char.isDigit).head?) : c.isDigit = false := by
  have hnot := List.head?_dropWhile_not Char.isDigit text
  rw [hc] at hnot
  simpa using hnot

/-- The digits of a number do not begin with a zero, unless it is the only one. -/
theorem toDigits_eq_of_head? {n : Nat} (h : (Nat.toDigits 10 n).head? = some '0') :
    Nat.toDigits 10 n = ['0'] := by
  induction n using Nat.strongRecOn with
  | ind n ih =>
    rw [Nat.toDigits_eq_if (by decide)] at h ⊢
    split at h
    · next hlt =>
      rw [if_pos hlt]
      exact congrArg ([·]) (Option.some.inj h)
    · next hle =>
      -- the digits of a tenth are those of zero, but the tenth is not zero
      rw [List.head?_append_of_ne_nil _ Nat.toDigits_ne_nil] at h
      have hzero := ih (n / 10) (by omega) h
      have hvalue := Nat.ofDigitChars_ten_toDigits (n := n / 10)
      rw [hzero] at hvalue
      have htenth : (0 : Nat) = n / 10 := hvalue
      omega

end DepGraph
