import DepGraph.Edge

/-!
# Batches

Edges arrive in batches: all the dependencies that one run of an analysis found in one
repository. What arrives may be incomplete, so every field of a *descriptor* is optional.
A batch that has been checked is *accepted*; it has everything that an edge needs, and
writing it into a graph cannot fail.
-/

namespace DepGraph

/-- One dependency as reported, before it has been checked. -/
structure Descriptor where
  sourcePath : Option String := none
  targetPath : Option String := none
  depType : Option String := none
  weight : Option Float := none
deriving Inhabited

/-- The dependencies of one repository as one run reported them. -/
structure Batch where
  repoId : String := ""
  analysisId : String := ""
  edges : List Descriptor := []
deriving Inhabited

/-- One dependency that has been checked. -/
structure AcceptedEdge where
  source : String
  target : String
  type : String
  weight : Float

/-- A batch that has been checked. -/
structure Accepted where
  repoId : String
  analysisId : String
  edges : List AcceptedEdge

/-- The part of a checked dependency that listings show. -/
def AcceptedEdge.summary (e : AcceptedEdge) : EdgeSummary := ⟨e.source, e.target, e.type, e.weight⟩

/-- What a checked dependency identifies. -/
def AcceptedEdge.key (e : AcceptedEdge) : EdgeKey := ⟨e.source, e.target, e.type⟩

/-- The edges that a checked batch stands for when it is written at some instant. -/
def Accepted.writes (b : Accepted) (now : Instant) : List Edge :=
  b.edges.map fun e => ⟨e.source, e.target, e.type, e.weight, b.analysisId, now⟩

end DepGraph
