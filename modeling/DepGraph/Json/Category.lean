/-!
# How reading can fail

A text that is read as a value of some kind can fail in three ways, and which one it is
depends on the first place, from left to right, at which something is wrong.

Sometimes a value is read only to be skipped, and then less is asked of it: the digits of
a number need not fit anywhere and an escape need not stand for a character. The same
broken place can therefore be a different failure depending on whether it is *decoded* or
*skipped*, and a `DepGraph.Json.Fault` keeps both answers.
-/

namespace DepGraph.Json

/-- The kinds of failure. -/
inductive Category
  /-- The text ends too early. -/
  | eof
  /-- The text is not well formed. -/
  | malformed
  /-- The text is well formed so far, but not what is asked for. -/
  | mismatch
deriving DecidableEq, Repr

/-- What is wrong at a place of a text. -/
structure Fault where
  /-- The failure if the place is decoded. -/
  decoded : Category
  /-- The failure if the place is skipped. -/
  skipped : Category
deriving DecidableEq, Repr

/-- A fault that is the same failure either way. -/
def Fault.of (c : Category) : Fault := ⟨c, c⟩

end DepGraph.Json
