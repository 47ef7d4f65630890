import DepGraph.Json.Category
import DepGraph.Word

/-!
# Numerals

A numeral is kept as it is written – its digits, not its value – because what it is worth
depends on what it is read as. A count or a depth has to be written as a whole number;
a weight may be written either way.

For a weight the digits are turned into a double by one scaling: as many leading digits
as fit into sixty-four bits make a significand, the digits beyond them only count as
places, and the significand is multiplied or divided by a power of ten.
-/

namespace DepGraph.Json

/-- A number as it is written. -/
structure Numeral where
  negative : Bool
  /-- The digits before the point. -/
  whole : List Char
  /-- The digits after the point; none if there is no point. -/
  fraction : List Char
  /-- Whether the exponent has a minus sign, and its digits. -/
  exponent : Option (Bool × List Char)
deriving DecidableEq, Repr

namespace Numeral

/-! ### Reading -/

/-- The fault of a numeral that stops where it needs another digit. -/
def lacking (rest : List Char) : Fault := ⟨if rest.isEmpty then .eof else .malformed, .malformed⟩

/-- Split digits off the front of a text; there has to be at least one. -/
def digits (text : List Char) : Except Fault (List Char × List Char) :=
  let found := text.takeWhile Char.isDigit
  let rest := text.dropWhile Char.isDigit
  if found.isEmpty then .error (lacking rest) else .ok (found, rest)

/-- Split the digits before the point off a text. A zero stands alone. -/
def readWhole (text : List Char) : Except Fault (List Char × List Char) := do
  let (found, rest) ← digits text
  if found.head? = some '0' ∧ found ≠ ['0'] then .error (.of .malformed) else .ok (found, rest)

/-- Split a point and the digits after it off a text, if there is a point. -/
def readFraction : List Char → Except Fault (List Char × List Char)
  | '.' :: rest => digits rest
  | text => .ok ([], text)

/-- Split the sign of an exponent off a text, if there is one. -/
def readSign : List Char → Bool × List Char
  | '-' :: rest => (true, rest)
  | '+' :: rest => (false, rest)
  | text => (false, text)

/-- Split an exponent off a text, if there is one. -/
def readExponent (text : List Char) : Except Fault (Option (Bool × List Char) × List Char) :=
  match text with
  | 'e' :: rest | 'E' :: rest => do
    let (negative, rest) := readSign rest
    let (found, rest) ← digits rest
    .ok (some (negative, found), rest)
  | _ => .ok (none, text)

/-- Split a numeral whose sign has been read off a text. -/
def readUnsigned (negative : Bool) (text : List Char) : Except Fault (Numeral × List Char) := do
  let (whole, rest) ← readWhole text
  let (fraction, rest) ← readFraction rest
  let (exponent, rest) ← readExponent rest
  .ok (⟨negative, whole, fraction, exponent⟩, rest)

/-- **Split a numeral off a text.** -/
def read : List Char → Except Fault (Numeral × List Char)
  | '-' :: rest => readUnsigned true rest
  | text => readUnsigned false text

/-! ### Every numeral has a digit -/

theorem length_digits {text found rest : List Char} (h : digits text = .ok (found, rest)) :
    rest.length < text.length := by
  unfold digits at h
  simp only at h
  split at h
  · simp at h
  · rename_i some_digit
    simp only [Except.ok.injEq, Prod.mk.injEq] at h
    obtain ⟨-, rfl⟩ := h
    have whole := congrArg List.length (List.takeWhile_append_dropWhile (p := Char.isDigit) (l := text))
    rw [List.length_append] at whole
    have : 0 < (text.takeWhile Char.isDigit).length := by
      cases h : text.takeWhile Char.isDigit with
      | nil => simp [h] at some_digit
      | cons => simp
    omega

theorem length_readWhole {text found rest : List Char} (h : readWhole text = .ok (found, rest)) :
    rest.length < text.length := by
  unfold readWhole at h
  cases split : digits text with
  | error fault => simp [split, bind, Except.bind] at h
  | ok pair =>
    have := length_digits split
    simp only [split, bind, Except.bind] at h
    split at h <;> simp_all

theorem length_readFraction {text found rest : List Char}
    (h : readFraction text = .ok (found, rest)) : rest.length ≤ text.length := by
  unfold readFraction at h
  split at h
  · have := length_digits h
    simp only [List.length_cons]
    omega
  · simp_all

theorem length_readSign (text : List Char) : (readSign text).2.length ≤ text.length := by
  unfold readSign
  split <;> simp

theorem length_readExponent {text rest : List Char} {found : Option (Bool × List Char)}
    (h : readExponent text = .ok (found, rest)) : rest.length ≤ text.length := by
  unfold readExponent at h
  split at h
  case h_3 => simp_all
  all_goals
    rename_i left
    have := length_readSign left
    cases split : digits (readSign left).2 with
    | error fault => simp [split, bind, Except.bind] at h
    | ok pair =>
      have := length_digits split
      simp only [split, bind, Except.bind, Except.ok.injEq, Prod.mk.injEq] at h
      simp only [List.length_cons, ← h.2]
      omega

theorem length_readUnsigned {negative : Bool} {text rest : List Char} {n : Numeral}
    (h : readUnsigned negative text = .ok (n, rest)) : rest.length < text.length := by
  unfold readUnsigned at h
  cases first : readWhole text with
  | error fault => simp [first, bind, Except.bind] at h
  | ok whole =>
    cases second : readFraction whole.2 with
    | error fault => simp [first, second, bind, Except.bind] at h
    | ok fraction =>
      cases third : readExponent fraction.2 with
      | error fault => simp [first, second, third, bind, Except.bind] at h
      | ok exponent =>
        have := length_readWhole first
        have := length_readFraction second
        have := length_readExponent third
        simp only [first, second, third, bind, Except.bind, Except.ok.injEq, Prod.mk.injEq] at h
        rw [← h.2]
        omega

/-- What is left after a numeral is shorter. -/
theorem length_read {text rest : List Char} {n : Numeral} (h : read text = .ok (n, rest)) :
    rest.length < text.length := by
  unfold read at h
  split at h
  · have := length_readUnsigned h
    simp only [List.length_cons]
    omega
  · exact length_readUnsigned h

/-! ### Whole numbers -/

/-- The number that decimal digits make. -/
def ofDigits (digits : List Char) : Nat :=
  digits.foldl (fun n c => 10 * n + (c.toNat - '0'.toNat)) 0

/-- Whether the numeral has neither a point nor an exponent. -/
def isWhole (n : Numeral) : Bool := n.fraction.isEmpty && n.exponent.isNone

/-- The numeral as a count: a whole number of at most sixty-four bits, without a sign. -/
def count? (n : Numeral) : Option Nat :=
  if n.isWhole && !n.negative then word? (ofDigits n.whole) else none

/-- The numeral as a signed whole number of sixty-four bits. A zero with a sign is not
one. -/
def integer? (n : Numeral) : Option Int :=
  let size := ofDigits n.whole
  if n.isWhole && !(n.negative && size = 0) then signedWord? n.negative size else none

/-! ### Doubles -/

/-- Append digits to a significand as long as it keeps within sixty-four bits; the digits
that are left are the second result. -/
def absorb : Nat → List Char → Nat × List Char
  | significand, [] => (significand, [])
  | significand, c :: rest =>
    let longer := 10 * significand + (c.toNat - '0'.toNat)
    if longer < wordLimit then absorb longer rest else (significand, c :: rest)

/-- The significand and the power of ten that the digits make together. -/
def parts (n : Numeral) : Nat × Int :=
  let (significand, beyond) := absorb 0 n.whole
  let (significand, dropped) := absorb significand n.fraction
  let written : Int :=
    match n.exponent with
    | some (true, digits) => -(ofDigits digits : Int)
    | some (false, digits) => ofDigits digits
    | none => 0
  (significand, written + beyond.length - (n.fraction.length - dropped.length : Nat))

/-- The greatest power of ten that is a double. -/
def greatestPower : Nat := 308

/-- A power of ten as a double. -/
def powerOfTen (exponent : Nat) : Float := Float.ofScientific 1 false exponent

/-- Scale a double by a power of ten; `none` if the result is too large to be one. A
negative power beyond the greatest is taken in several steps, which ends at zero at the
latest. -/
def scale (x : Float) (exponent : Int) : Option Float :=
  if exponent.natAbs ≤ greatestPower then
    if 0 ≤ exponent then
      let y := x * powerOfTen exponent.natAbs
      if y.isInf then none else some y
    else some (x / powerOfTen exponent.natAbs)
  else if x == 0 then some x
  else if 0 ≤ exponent then none
  else scale (x / powerOfTen greatestPower) (exponent + greatestPower)
termination_by exponent.natAbs
decreasing_by simp only [greatestPower] at *; omega

/-- The numeral as a double; `none` if it is too large to be one. -/
def real? (n : Numeral) : Option Float :=
  let (significand, exponent) := n.parts
  (scale significand.toFloat exponent).map fun x => if n.negative then -x else x

end Numeral

end DepGraph.Json
