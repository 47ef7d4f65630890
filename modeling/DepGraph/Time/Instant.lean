/-!
# Instants

Every edge remembers when it was last written. An instant counts the seconds since the
beginning of 1970 and, within the second, nanoseconds. During a leap second the count of
seconds stands still and the nanoseconds run on past a thousand million; comparing the
seconds first and then the nanoseconds is right for it too.
-/

namespace DepGraph

/-- A point in time. -/
structure Instant where
  /-- Whole seconds since the beginning of 1970, leap seconds not counted. -/
  seconds : Int
  /-- Nanoseconds within the second; from `10 ^ 9` on within a leap second. -/
  nanos : Nat
deriving DecidableEq, Repr, Inhabited

namespace Instant

/-- Nanoseconds in a second. -/
def nanosPerSecond : Nat := 1000000000

/-- The order of time. -/
instance : LE Instant where
  le a b := a.seconds < b.seconds ∨ a.seconds = b.seconds ∧ a.nanos ≤ b.nanos

instance (a b : Instant) : Decidable (a ≤ b) :=
  inferInstanceAs (Decidable (_ ∨ _))

/-- The later of two instants. -/
def later (a b : Instant) : Instant := if a ≤ b then b else a

end Instant

end DepGraph
