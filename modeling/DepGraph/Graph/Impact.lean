import DepGraph.Graph.Basic
import Std.Data.HashSet

/-!
# Impact: what a file reaches, and how far away it is

The impact of a file consists of the files that can be reached from it along edges, each
with the least number of edges it takes – its *distance* – as long as that does not
exceed a given depth. The file itself is never part of its own impact, even if it lies on
a cycle.

The search is breadth-first. Its state, `DepGraph.Wave`, holds the files seen so far and
a queue of those whose neighbours have not been looked at, each with its distance. One
step takes the front of the queue. Since a file enters the queue only when it is first
seen, there are never more steps than files, and the search simply runs that often.
-/

namespace DepGraph

/-- A file in the impact of another. -/
structure AffectedFile where
  path : String
  distance : Nat
deriving DecidableEq, Repr

/-- The state of a breadth-first search. Files are known by their numbers. -/
structure Wave where
  /-- The start and every file found so far. -/
  visited : Std.HashSet Nat
  /-- The files still to be expanded, with their distances. -/
  queue : List (Nat × Nat)
  /-- The files found so far, with their distances; the start is not among them. -/
  affected : Array (Nat × Nat)

namespace Wave

/-- The search before its first step. -/
def start (file : Nat) : Wave := ⟨Std.HashSet.emptyWithCapacity.insert file, [(file, 0)], #[]⟩

/-- Note a file at a distance, unless it has been seen before. -/
def discover (distance : Nat) (w : Wave) (file : Nat) : Wave :=
  if w.visited.contains file then w
  else
    { visited := w.visited.insert file
      queue := w.queue ++ [(file, distance)]
      affected := w.affected.push (file, distance) }

/-- Take the front of the queue and discover its neighbours, unless they would lie beyond
the greatest depth. -/
def step (g : RepoGraph) (maxDepth : Nat) (w : Wave) : Wave :=
  match w.queue with
  | [] => w
  | (file, depth) :: rest =>
    let w := { w with queue := rest }
    if maxDepth ≤ depth then w
    else (g.targets file).foldl (discover (depth + 1)) w

/-- A number of steps. -/
def run (g : RepoGraph) (maxDepth : Nat) : Nat → Wave → Wave
  | 0, w => w
  | rounds + 1, w => run g maxDepth rounds (w.step g maxDepth)

end Wave

namespace AffectedFile

/-- Nearer files come first; files at one distance are in the order of their paths. -/
def before (a b : AffectedFile) : Bool :=
  a.distance < b.distance || a.distance == b.distance && decide (a.path ≤ b.path)

end AffectedFile

/-- **The impact of a file**: everything within `maxDepth` edges of it, nearest first. An
unknown file has none. -/
def RepoGraph.impact (g : RepoGraph) (path : String) (maxDepth : Nat) : List AffectedFile :=
  match g.files.number? path with
  | none => []
  | some file =>
    let found := ((Wave.start file).run g maxDepth g.nodeCount).affected.toList
    (found.map fun (file, distance) => ⟨g.path file, distance⟩).mergeSort AffectedFile.before

end DepGraph
