import DepGraph.Time.Instant

/-!
# Edges

An edge says that one file depends on another in a certain way – by importing it, by
calling it. Two files may depend on each other in several ways at once, so an edge is
identified by its source, its target *and* its type; the other fields describe the
dependency and who last reported it.
-/

namespace DepGraph

/-- What identifies an edge: the depending file, the file depended upon and the type of
the dependency. -/
structure EdgeKey where
  source : String
  target : String
  type : String
deriving DecidableEq, Repr

/-- What an edge says beyond its key. -/
structure EdgeDetail where
  /-- How strong the dependency is. -/
  weight : Float
  /-- The analysis run that wrote the edge last. -/
  run : String
  /-- When the edge was written last. -/
  updatedAt : Instant

/-- An edge with all of its fields. -/
structure Edge where
  source : String
  target : String
  type : String
  weight : Float
  run : String
  updatedAt : Instant

/-- The part of an edge that listings show. -/
structure EdgeSummary where
  source : String
  target : String
  type : String
  weight : Float

namespace Edge

/-- What identifies the edge. -/
def key (e : Edge) : EdgeKey := ⟨e.source, e.target, e.type⟩

/-- What the edge says beyond its key. -/
def detail (e : Edge) : EdgeDetail := ⟨e.weight, e.run, e.updatedAt⟩

/-- The part that listings show. -/
def summary (e : Edge) : EdgeSummary := ⟨e.source, e.target, e.type, e.weight⟩

end Edge

/-- The weight of an edge that was reported without one. -/
def defaultWeight : Float := 1.0

end DepGraph
