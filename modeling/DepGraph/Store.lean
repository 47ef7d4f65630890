import DepGraph.Batch.Apply
import DepGraph.Batch.Validation
import DepGraph.Question
import Std.Data.HashMap

/-!
# The store: one graph per repository

A store keeps the graphs of any number of repositories apart and answers queries about
them within its limits. A repository begins to exist with the first edge that is written
to it, so a batch without edges is accepted but leaves no trace. Queries never change a
store; on a repository that does not exist they have empty answers.
-/

namespace DepGraph

/-- The graphs of all repositories, and the limits on answers about them. -/
structure Store where
  limits : QueryLimits := {}
  repositories : Std.HashMap String RepoGraph := ∅
deriving Inhabited

namespace Store

/-- A store with no repositories. -/
def empty (limits : QueryLimits) : Store := { limits }

/-- The graph of a repository, if the repository exists. -/
def graph? (s : Store) (repo : String) : Option RepoGraph := s.repositories[repo]?

/-- How many repositories there are. -/
def repositoryCount (s : Store) : Nat := s.repositories.size

/-- Put a graph in the place of a repository's. -/
def setGraph (s : Store) (repo : String) (g : RepoGraph) : Store :=
  { s with repositories := s.repositories.insert repo g }

/-! ### Writing -/

/-- Make a repository exist. -/
def create (s : Store) (repo : String) : Store :=
  match s.graph? repo with
  | some _ => s
  | none => s.setGraph repo .empty

/-- Write an accepted batch. -/
def applyBatch (s : Store) (now : Instant) (b : Accepted) : Store :=
  if b.edges.isEmpty then s
  else s.setGraph b.repoId (b.apply now ((s.graph? b.repoId).getD .empty)).1

/-- **Check a batch and write it**, all of it or nothing. -/
def ingest (s : Store) (now : Instant) (batch : Batch) : Except Error (Store × IngestReport) := do
  let accepted ← batch.validate
  return (s.applyBatch now accepted, .ofCount accepted.edges.length)

/-! ### Queries -/

/-- The edges of a repository. -/
def listEdges (s : Store) (repo : String) : EdgeListing :=
  match s.graph? repo with
  | some g => g.edgeListing s.limits
  | none => {}

/-- The files downstream of a file. -/
def impact (s : Store) (repo path : String) (depth : Option Int) : ImpactReport :=
  match s.graph? repo with
  | some g => g.impactReport s.limits path depth
  | none => .ofFiles path (s.limits.clampDepth depth) []

/-- The circular dependencies of a repository. -/
def cycles (s : Store) (repo : String) : CycleReport :=
  match s.graph? repo with
  | some g => g.cycleReport s.limits
  | none => {}

/-- The most entangled files of a repository. -/
def hotspots (s : Store) (repo : String) : HotspotReport :=
  match s.graph? repo with
  | some g => g.hotspotReport s.limits
  | none => {}

/-- The answer to a question about a repository. -/
def ask (s : Store) (repo : String) : Question → Report
  | .edges => .edges (s.listEdges repo)
  | .impact path depth => .impact (s.impact repo path depth)
  | .cycles => .cycles (s.cycles repo)
  | .hotspots => .hotspots (s.hotspots repo)

end Store

end DepGraph
