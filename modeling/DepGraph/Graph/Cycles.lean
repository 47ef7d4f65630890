import DepGraph.Graph.Basic

/-!
# Circular dependencies

A cycle is a way along edges that comes back to where it began and meets no file twice in
between. Told from each of its files in turn it would be many ways, so it is told from
the one with the least path only: the search from a file never enters a file with a
lesser path. Parallel edges make no difference to it.

All of this is about the order of paths, not about the order in which files came into the
graph. So the search does not run on the graph itself but on its *ranked* form
(`DepGraph.Ranked`), in which every file is known by the place of its path among all
paths: comparing paths becomes comparing numbers, and the history of the graph has
disappeared.

The search is depth-first with backtracking. It carries one path, a mark on every file of
that path, and the cycles found so far; a file is pushed before the search goes on from
it and popped afterwards. The number of edges that may still be walked decreases with
every push, which is what the recursion is on.
-/

namespace DepGraph

/-- A graph with its files numbered in the order of their paths, and its edges reduced to
which file depends on which. -/
structure Ranked where
  /-- The paths in ascending order. -/
  files : Roster String
  /-- For each file the files it depends on, in ascending order. -/
  successors : Array (List Nat)

namespace Ranked

/-- The files that a file depends on. -/
def next (g : Ranked) (file : Nat) : List Nat := g.successors.getD file []

/-- The path of a file. -/
def path (g : Ranked) (file : Nat) : String := (g.files.get? file).getD ""

end Ranked

/-- The ranked form of a graph. -/
def RepoGraph.ranked (g : RepoGraph) : Ranked :=
  let paths := g.files.toList.mergeSort fun a b => decide (a ≤ b)
  let files := Roster.ofList paths
  let successors path :=
    match g.files.number? path with
    | some file =>
      RepoGraph.distinct ((g.targets file).filterMap fun target => files.number? (g.path target))
    | none => []
  ⟨files, (paths.map successors).toArray⟩

/-- Which cycles are wanted: how many edges they may have, and how many of them. -/
structure CycleQuery where
  /-- The least number of edges. -/
  least : Nat
  /-- The greatest number of edges. -/
  greatest : Nat
  /-- How many cycles to stop at. -/
  limit : Nat
deriving DecidableEq, Repr

/-- The state of a backtracking search. -/
structure Search where
  /-- The current path, its last file first. -/
  path : List Nat
  /-- For each file whether it is on the current path. -/
  onPath : Array Bool
  /-- The cycles found so far, each from its start up to the return to it. -/
  found : Array (List Nat)

namespace Search

/-- The search before it has gone anywhere, among a number of files. -/
def start (files : Nat) : Search := ⟨[], Array.replicate files false, #[]⟩

/-- Go on to a file. -/
def push (s : Search) (file : Nat) : Search :=
  { s with path := file :: s.path, onPath := s.onPath.setIfInBounds file true }

/-- Go back from a file. -/
def pop (s : Search) (file : Nat) : Search :=
  { s with path := s.path.tail, onPath := s.onPath.setIfInBounds file false }

/-- Note the cycle that the current path makes when it returns to its start. -/
def report (s : Search) (start : Nat) : Search :=
  { s with found := s.found.push (s.path.reverse ++ [start]) }

/-- Whether no further cycles are wanted. -/
def isFull (s : Search) (q : CycleQuery) : Bool := q.limit ≤ s.found.size

/-- Whether a file is on the current path. -/
def visits (s : Search) (file : Nat) : Bool := s.onPath.getD file false

/-- Explore every way on from `current`, the last file of the path, that takes at most a
given number of further edges, and come back. An edge to the start closes a cycle. An
edge to any other file is followed only if there is an edge left to return by, and only
to files that come after the start and are not on the path. -/
def extend (g : Ranked) (q : CycleQuery) (start : Nat) : Nat → Nat → Search → Search
  | 0, _, s => s
  | left + 1, current, s =>
    (g.next current).foldl
      (fun s next =>
        if s.isFull q then s
        else if next = start then
          if q.least ≤ s.path.length then s.report start else s
        else if left = 0 || next < start || s.visits next then s
        else (extend g q start left next (s.push next)).pop next)
      s

/-- Find the cycles whose least file is `start`. -/
def explore (g : Ranked) (q : CycleQuery) (s : Search) (start : Nat) : Search :=
  if s.isFull q then s
  else (extend g q start q.greatest start (s.push start)).pop start

end Search

/-- The cycles of a ranked graph, from the files in ascending order. -/
def Ranked.cycles (g : Ranked) (q : CycleQuery) : List (List Nat) :=
  ((List.range g.files.size).foldl (Search.explore g q) (Search.start g.files.size)).found.toList

/-- **The circular dependencies of a graph**, each as the list of its paths with the first
one repeated at the end. -/
def RepoGraph.cycles (g : RepoGraph) (q : CycleQuery) : List (List String) :=
  let ranked := g.ranked
  (ranked.cycles q).map (·.map ranked.path)

end DepGraph
