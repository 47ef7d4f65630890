import DepGraph.Error
import DepGraph.Graph.Cycles

/-!
# Limits

Answers are capped, and the depth of an impact query is kept within a range. The limits
have defaults, and a configuration may set others. Limits are sensible when no cap is
zero and the default depth does not exceed the greatest one; the queries themselves are
defined for any limits.
-/

namespace DepGraph

/-- The caps on answers and the range of impact depths. -/
structure QueryLimits where
  /-- How many edges a listing shows. -/
  maxListedEdges : Nat := 1000
  /-- How many cycles are reported. -/
  maxCycles : Nat := 50
  /-- How many files are ranked. -/
  maxHotspots : Nat := 20
  /-- The depth of an impact query that does not ask for one. -/
  defaultImpactDepth : Nat := 3
  /-- The greatest depth of an impact query. -/
  maxImpactDepth : Nat := 5
deriving DecidableEq, Repr, Inhabited

namespace QueryLimits

/-- The limits by name, in the order in which they are checked. -/
def named (l : QueryLimits) : List (String × Nat) :=
  [("max_listed_edges", l.maxListedEdges),
   ("max_cycles", l.maxCycles),
   ("max_hotspots", l.maxHotspots),
   ("default_impact_depth", l.defaultImpactDepth),
   ("max_impact_depth", l.maxImpactDepth)]

/-- **Check that limits are sensible.** -/
def validate (l : QueryLimits) : Except Error Unit :=
  match l.named.find? fun limit => limit.2 == 0 with
  | some (name, _) => .error (.config (name ++ " must be at least 1"))
  | none =>
    if l.maxImpactDepth < l.defaultImpactDepth then
      .error (.config
        ("default_impact_depth (" ++ l.defaultImpactDepth.repr ++
          ") exceeds max_impact_depth (" ++ l.maxImpactDepth.repr ++ ")"))
    else .ok ()

/-- The depth that an impact query gets: the one asked for or else the default, brought
into the range from one to the greatest depth. -/
def clampDepth (l : QueryLimits) (requested : Option Int) : Nat :=
  let ceiling := max l.maxImpactDepth 1
  match requested with
  | none => max 1 (min l.defaultImpactDepth ceiling)
  | some depth => if depth < 1 then 1 else min depth.toNat ceiling

/-- The cycles that are reported: of two to six edges. A file that depends on itself is
not worth a report. -/
def cycleQuery (l : QueryLimits) : CycleQuery := ⟨2, 6, l.maxCycles⟩

end QueryLimits

end DepGraph
