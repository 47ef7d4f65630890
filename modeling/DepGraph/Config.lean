import DepGraph.Limits

/-!
# Configuration

A configuration says which limits to use. It is usable if the limits are.
-/

namespace DepGraph

/-- What can be configured. -/
structure Config where
  limits : QueryLimits := {}
deriving DecidableEq, Repr, Inhabited

/-- **Check that a configuration is usable.** -/
def Config.validate (c : Config) : Except Error Config := do
  c.limits.validate
  return c

end DepGraph
