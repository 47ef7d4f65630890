import DepGraph.Graph.Basic

/-!
# Hotspots: the files most entangled with others

The degree of a file counts the *files* it is connected with, not the edges: two edges of
different types between the same two files count once on either side, and a file that
depends on itself counts as its own neighbour in both directions. Files are ranked by the
sum of the two degrees, and files with the same sum by their paths.
-/

namespace DepGraph

/-- A file with its degrees. -/
structure Hotspot where
  path : String
  /-- How many files it depends on. -/
  outDegree : Nat
  /-- How many files depend on it. -/
  inDegree : Nat
  /-- The sum of the two. -/
  totalDegree : Nat
deriving DecidableEq, Repr

/-- Files with a greater total come first; among equals the order is that of the paths. -/
def Hotspot.before (a b : Hotspot) : Bool :=
  b.totalDegree < a.totalDegree || a.totalDegree == b.totalDegree && decide (a.path ≤ b.path)

namespace RepoGraph

/-- A file of the graph with its degrees. -/
def hotspot (g : RepoGraph) (file : Nat) : Hotspot :=
  let out := (distinct (g.targets file)).length
  let into := (distinct (g.sources file)).length
  ⟨g.path file, out, into, out + into⟩

/-- **The first files of the ranking**, at most `top` of them. -/
def hotspots (g : RepoGraph) (top : Nat) : List Hotspot :=
  (((List.range g.nodeCount).map g.hotspot).mergeSort Hotspot.before).take top

end RepoGraph

end DepGraph
