import DepGraph.Batch.Basic
import DepGraph.Graph.Basic

/-!
# Writing a batch into a graph

The edges of an accepted batch are written in their order, all with the same time. Along
the way it is counted how many of them were new.
-/

namespace DepGraph

/-- What writing a batch did. -/
structure ApplyStats where
  /-- How many edges the batch has. -/
  processed : Nat := 0
  /-- How many of them were new to the graph. -/
  inserted : Nat := 0
  /-- How many were there already. -/
  updated : Nat := 0
deriving DecidableEq, Repr

/-- Count one more write. -/
def ApplyStats.count (stats : ApplyStats) : Outcome → ApplyStats
  | .inserted _ => { stats with processed := stats.processed + 1, inserted := stats.inserted + 1 }
  | .updated _ => { stats with processed := stats.processed + 1, updated := stats.updated + 1 }

/-- Write an edge and count what that did. -/
def RepoGraph.countedWrite (state : RepoGraph × ApplyStats) (edge : Edge) :
    RepoGraph × ApplyStats :=
  let (graph, outcome) := state.1.upsert edge
  (graph, state.2.count outcome)

/-- **Write a batch into a graph**, and say what that did. -/
def Accepted.apply (b : Accepted) (now : Instant) (g : RepoGraph) : RepoGraph × ApplyStats :=
  (b.writes now).foldl RepoGraph.countedWrite (g, {})

end DepGraph
