import DepGraph.Decimal.Binary

/-!
# The shortest decimal that reads back

A double stands for every real number that is nearer to it than to any other double.
Among the decimals in that interval the *shortest* one has the fewest digits, and of
those with as few it is the one nearest to the double itself. It is what a program
should print: nothing shorter can be read back, and nothing longer says more.

The search is a plain one. Decimals with `n` digits form a grid, and if any point of a
grid lies in the interval then so does one of the two grid points around the double. So
grids are tried from the coarsest on, and two points of each are tested
(`DepGraph.Magnitude.onGrid?`). Seventeen digits always suffice.

When the double lies exactly halfway between two grid points that both read back, the
rule that chooses is a parameter, `DepGraph.Tie`.
-/

namespace DepGraph

/-- Which of two equally near neighbours is taken. -/
inductive Tie
  /-- The one whose last digit is even. -/
  | toEven
  /-- The one farther from zero. -/
  | away
deriving DecidableEq, Repr

/-- A positive decimal: `digits · 10 ^ exponent`, where `digits` does not end in a
zero. -/
structure Decimal where
  digits : Nat
  exponent : Int
deriving DecidableEq, Repr

/-- A positive double together with the interval of the reals that round to it, all four
numbers over one denominator. -/
structure Magnitude where
  /-- Numerator of the double. -/
  value : Nat
  /-- Numerator of the lower end of the interval. -/
  low : Nat
  /-- Numerator of the upper end of the interval. -/
  high : Nat
  /-- The common denominator. -/
  scale : Nat
  /-- Whether the two ends themselves round to the double. -/
  closed : Bool
deriving Repr

namespace Magnitude

/-- The interval around `significand · 2 ^ exponent`. Each end is halfway to the
neighbouring double; the lower neighbour of a power of two is only half as far away.
Halfway points go to the even significand. -/
def ofFinite (significand : Nat) (exponent : Int) : Magnitude :=
  let narrow := significand = Binary.leastNormal ∧ Binary.leastExponent < exponent
  -- in units of a quarter of the last binary place
  let up := Nat.pow 2 (exponent - 2).toNat
  { value := 4 * significand * up
    low := (4 * significand - if narrow then 1 else 2) * up
    high := (4 * significand + 2) * up
    scale := Nat.pow 2 (2 - exponent).toNat
    closed := significand % 2 = 0 }

/-- Whether the decimal `digits · 10 ^ exponent` rounds to this double. -/
def readsBack (m : Magnitude) (digits : Nat) (exponent : Int) : Bool :=
  let decimal := digits * Nat.pow 10 exponent.toNat * m.scale
  let down := Nat.pow 10 (-exponent).toNat
  if m.closed then
    m.low * down ≤ decimal && decimal ≤ m.high * down
  else
    m.low * down < decimal && decimal < m.high * down

/-- The number of digits of a positive whole number, and one for zero. -/
def digitCount (n : Nat) : Nat := (Nat.toDigits 10 n).length

/-- The exponent of the leading digit: the `e` with `10 ^ e ≤ value < 10 ^ (e + 1)`. -/
def leadingExponent (m : Magnitude) : Int :=
  if m.scale ≤ m.value then
    digitCount (m.value / m.scale) - 1
  else
    -(digitCount ((m.scale - 1) / m.value) : Int)

/-- The nearer of the two grid points around the double that reads back, if one does.
The grid consists of the multiples of `10 ^ exponent`. -/
def onGrid? (m : Magnitude) (tie : Tie) (exponent : Int) : Option Nat :=
  let numerator := m.value * Nat.pow 10 (-exponent).toNat
  let denominator := m.scale * Nat.pow 10 exponent.toNat
  let below := numerator / denominator
  let past := numerator % denominator
  let aboveFirst : Bool :=
    if 2 * past = denominator then
      match tie with
      | .toEven => below % 2 == 1
      | .away => true
    else decide (denominator < 2 * past)
  let candidates := if aboveFirst then [below + 1, below] else [below, below + 1]
  candidates.find? fun digits => m.readsBack digits exponent

/-- A decimal in lowest terms: `fuel` bounds how many zeros can be taken off the end. -/
def stripZeros : Nat → Nat → Int → Decimal
  | fuel + 1, digits, exponent =>
    if digits ≠ 0 ∧ digits % 10 = 0 then stripZeros fuel (digits / 10) (exponent + 1)
    else ⟨digits, exponent⟩
  | 0, digits, exponent => ⟨digits, exponent⟩

/-- Try grids of `count`, `count + 1`, … digits, `fuel` of them. -/
def search (m : Magnitude) (tie : Tie) (leading : Int) : Nat → Nat → Option Decimal
  | 0, _ => none
  | fuel + 1, count =>
    let exponent := leading - count + 1
    match m.onGrid? tie exponent with
    | some digits => some (stripZeros (digitCount digits) digits exponent)
    | none => search m tie leading fuel (count + 1)

/-- How many digits tell any two doubles apart. -/
def enoughDigits : Nat := 17

/-- **The shortest decimal that reads back as this double.** The search never fails on a
double; the grid of its own digits is the fallback that makes the function total. -/
def shortest (m : Magnitude) (tie : Tie) : Decimal :=
  let leading := m.leadingExponent
  (m.search tie leading enoughDigits 1).getD ⟨m.value, 0⟩

end Magnitude

/-- The shortest decimal for the positive number `significand · 2 ^ exponent`. -/
def Decimal.shortest (tie : Tie) (significand : Nat) (exponent : Int) : Decimal :=
  (Magnitude.ofFinite significand exponent).shortest tie

/-- One tenth, whose significand is `0x1999999999999A`. -/
example : Decimal.shortest .toEven 0x1999999999999A (-56) = ⟨1, -1⟩ := by decide +kernel

/-- The least positive double. -/
example : Decimal.shortest .toEven 1 (-1074) = ⟨5, -324⟩ := by decide +kernel

/-- The power of two `2 ^ -25` lies halfway between two decimals of seventeen digits. -/
example : (Decimal.shortest .toEven (2 ^ 52) (-77), Decimal.shortest .away (2 ^ 52) (-77)) =
    (⟨29802322387695312, -24⟩, ⟨29802322387695313, -24⟩) := by decide +kernel

end DepGraph
