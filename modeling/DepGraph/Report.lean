import DepGraph.Edge
import DepGraph.Graph.Cycles
import DepGraph.Graph.Hotspots
import DepGraph.Graph.Impact

/-!
# Reports

The answers to the four queries and to the ingestion of a batch. Totals count what the
report holds, that is, after the caps.
-/

namespace DepGraph

/-- The answer to an accepted batch. -/
structure IngestReport where
  message : String
  /-- How many descriptors the batch had. -/
  count : Nat
deriving DecidableEq, Repr

/-- The edges of a repository, oldest first. -/
structure EdgeListing where
  edges : List EdgeSummary := []
  total : Nat := 0
deriving Inhabited

/-- The files downstream of a file. -/
structure ImpactReport where
  source : String
  affectedFiles : List AffectedFile
  totalImpact : Nat
  /-- The depth that was searched. -/
  maxDepth : Nat
deriving DecidableEq, Repr

/-- The circular dependencies of a repository. -/
structure CycleReport where
  cycles : List (List String) := []
  total : Nat := 0
deriving DecidableEq, Repr, Inhabited

/-- The most entangled files of a repository. -/
structure HotspotReport where
  hotspots : List Hotspot := []
deriving DecidableEq, Repr, Inhabited

/-- The answer to a question of any kind. -/
inductive Report
  | edges (listing : EdgeListing)
  | impact (report : ImpactReport)
  | cycles (report : CycleReport)
  | hotspots (report : HotspotReport)

/-- The answer to a batch with a number of descriptors. -/
def IngestReport.ofCount (count : Nat) : IngestReport := ⟨"dependencies ingested", count⟩

/-- A listing of edges. -/
def EdgeListing.ofEdges (edges : List EdgeSummary) : EdgeListing := ⟨edges, edges.length⟩

/-- The report on an impact. -/
def ImpactReport.ofFiles (source : String) (maxDepth : Nat) (files : List AffectedFile) :
    ImpactReport :=
  ⟨source, files, files.length, maxDepth⟩

/-- The report on cycles. -/
def CycleReport.ofCycles (cycles : List (List String)) : CycleReport := ⟨cycles, cycles.length⟩

end DepGraph
