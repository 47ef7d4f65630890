import DepGraph.Limits
import DepGraph.Report

/-!
# Questions about a graph

There are four questions to ask about the graph of a repository. An answer is a report
that keeps within the limits; about a repository that does not exist there is an answer,
too, and it is empty.
-/

namespace DepGraph

/-- A question about a repository. -/
inductive Question
  | edges
  | impact (path : String) (depth : Option Int)
  | cycles
  | hotspots
deriving DecidableEq, Repr

namespace RepoGraph

/-- The edges, as many as may be listed. -/
def edgeListing (g : RepoGraph) (limits : QueryLimits) : EdgeListing :=
  .ofEdges (g.listing limits.maxListedEdges)

/-- The files downstream of a file, up to the depth that the limits allow. -/
def impactReport (g : RepoGraph) (limits : QueryLimits) (path : String) (depth : Option Int) :
    ImpactReport :=
  let maxDepth := limits.clampDepth depth
  .ofFiles path maxDepth (g.impact path maxDepth)

/-- The circular dependencies, as many as may be reported. -/
def cycleReport (g : RepoGraph) (limits : QueryLimits) : CycleReport :=
  .ofCycles (g.cycles limits.cycleQuery)

/-- The most entangled files, as many as may be ranked. -/
def hotspotReport (g : RepoGraph) (limits : QueryLimits) : HotspotReport :=
  ⟨g.hotspots limits.maxHotspots⟩

end RepoGraph

namespace Question

/-- The answer to a question about a graph. -/
def about (q : Question) (limits : QueryLimits) (g : RepoGraph) : Report :=
  match q with
  | edges => .edges (g.edgeListing limits)
  | impact path depth => .impact (g.impactReport limits path depth)
  | cycles => .cycles (g.cycleReport limits)
  | hotspots => .hotspots (g.hotspotReport limits)

/-- The answer to a question about a repository that does not exist. -/
def aboutNothing (q : Question) (limits : QueryLimits) : Report :=
  match q with
  | edges => .edges {}
  | impact path depth => .impact (.ofFiles path (limits.clampDepth depth) [])
  | cycles => .cycles {}
  | hotspots => .hotspots {}

end Question

end DepGraph
