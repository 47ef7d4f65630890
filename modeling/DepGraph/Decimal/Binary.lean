/-!
# Doubles as exact numbers

A double is read off its sixty-four bits: a sign, and either one of the two special
cases or a whole number times a power of two. Everything the library decides about the
decimal form of a weight it decides on this exact value, in whole-number arithmetic, so
that no rounding of the machine's own enters.
-/

namespace DepGraph

/-- What the bits of a double stand for. -/
inductive Binary
  /-- No number at all. -/
  | nan
  /-- One of the two infinities. -/
  | infinite (negative : Bool)
  /-- The number `± significand · 2 ^ exponent`. Zero keeps its sign. -/
  | finite (negative : Bool) (significand : Nat) (exponent : Int)
deriving DecidableEq, Repr

namespace Binary

/-- The least exponent of a double. -/
def leastExponent : Int := -1074

/-- The significand of a power of two, at which the doubles below lie twice as dense as
those above. -/
def leastNormal : Nat := 0x10000000000000

/-- Read a double from its bits: one for the sign, eleven for the exponent, fifty-two for
the significand, whose leading one is not written unless the exponent is the least. -/
def ofBits (bits : UInt64) : Binary :=
  let n := bits.toNat
  let negative := n / 0x8000000000000000 == 1
  let biased : Nat := n / leastNormal % 0x800
  let fraction : Nat := n % leastNormal
  if biased = 2047 then
    if fraction = 0 then infinite negative else nan
  else if biased = 0 then
    finite negative fraction leastExponent
  else
    finite negative (leastNormal + fraction) (leastExponent + (biased : Int) - 1)

/-- What a double stands for. -/
def ofFloat (x : Float) : Binary := ofBits x.toBits

/-- Whether this is a number. -/
def isFinite : Binary → Bool
  | finite .. => true
  | _ => false

example : ofBits 0x3FF0000000000000 = finite false (2 ^ 52) (-52) := by decide +kernel
example : ofBits 0x8000000000000000 = finite true 0 (-1074) := by decide +kernel
example : ofBits 0x7FF0000000000000 = infinite false := by decide +kernel

end Binary

end DepGraph
