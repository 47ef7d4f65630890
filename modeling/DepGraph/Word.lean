/-!
# Sixty-four bits

Counts are numbers of sixty-four bits, and so are depths, which have a sign. Numbers that
are written in a text may be larger than that; then they are not what is asked for.
-/

namespace DepGraph

/-- The least number that needs more than sixty-four bits. -/
def wordLimit : Nat := 0x10000000000000000

/-- The least number that needs more than sixty-three bits. -/
def signedLimit : Nat := 0x8000000000000000

/-- The number as a count, if it has at most sixty-four bits. -/
def word? (n : Nat) : Option Nat := if n < wordLimit then some n else none

/-- The number with a sign as one of sixty-four bits. -/
def signedWord? (negative : Bool) (size : Nat) : Option Int :=
  if negative then if size ≤ signedLimit then some (-size) else none
  else if size < signedLimit then some size else none

end DepGraph
