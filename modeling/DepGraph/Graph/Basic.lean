import DepGraph.Edge
import DepGraph.Roster

/-!
# The dependency graph of one repository

A `DepGraph.RepoGraph` is a directed graph with several edges allowed between the same
two files. Files come into being with the first edge that names them; neither files nor
edges are ever removed. Both are numbered in the order in which they came, on a
`DepGraph.Roster` each, and an edge is known by the *numbers* of its two files and its
type.

Beside the edges themselves every file has two lists of edge numbers, of those that
leave it and of those that arrive at it, newest first. The queries walk along these.

There is one way to change a graph: `DepGraph.RepoGraph.upsert` writes an edge. A new
key is appended; a known one has its details overwritten where it stands, except that
the time of an edge never goes back.
-/

namespace DepGraph

/-- What identifies an edge inside a graph: the numbers of its files, and its type. -/
structure Link where
  source : Nat
  target : Nat
  type : String
deriving DecidableEq, Hashable, Repr

/-- The directed multigraph of one repository. -/
structure RepoGraph where
  /-- The files, in the order in which edges first named them. -/
  files : Roster String := .empty
  /-- The edges, in the order in which they were first written. -/
  links : Roster Link := .empty
  /-- The details of each edge, by its number. -/
  details : Array EdgeDetail := #[]
  /-- For each file the edges that leave it, newest first. -/
  outgoing : Array (List Nat) := #[]
  /-- For each file the edges that arrive at it, newest first. -/
  incoming : Array (List Nat) := #[]
deriving Inhabited

/-- What writing an edge did: it made a new one, or changed a known one, with this
number. -/
inductive Outcome
  | inserted (number : Nat)
  | updated (number : Nat)
deriving DecidableEq, Repr

/-- The number of the edge that was written. -/
def Outcome.number : Outcome → Nat
  | inserted n => n
  | updated n => n

/-- Whether a new edge was made. -/
def Outcome.isInsert : Outcome → Bool
  | inserted _ => true
  | updated _ => false

namespace RepoGraph

/-- The graph with no files and no edges. -/
def empty : RepoGraph := {}

/-- How many files there are. -/
def nodeCount (g : RepoGraph) : Nat := g.files.size

/-- How many edges there are. -/
def edgeCount (g : RepoGraph) : Nat := g.links.size

/-- Whether some edge names this file. -/
def hasFile (g : RepoGraph) (path : String) : Bool := g.files.contains path

/-- The path of a file, by its number. -/
def path (g : RepoGraph) (file : Nat) : String := (g.files.get? file).getD ""

/-! ### Writing -/

/-- Give a file its place, unless it has one. -/
def enterFile (g : RepoGraph) (path : String) : RepoGraph × Nat :=
  match g.files.number? path with
  | some file => (g, file)
  | none =>
    ({ g with
        files := (g.files.enter path).1
        outgoing := g.outgoing.push []
        incoming := g.incoming.push [] }, g.files.size)

/-- The details of an edge after another write: all of them new, but the time is the
later one. -/
def overwrite (old new : EdgeDetail) : EdgeDetail :=
  { new with updatedAt := old.updatedAt.later new.updatedAt }

/-- Write the details of a key whose files have their places. -/
def writeLink (g : RepoGraph) (link : Link) (detail : EdgeDetail) : RepoGraph × Outcome :=
  match g.links.number? link with
  | some number =>
    ({ g with details := g.details.modify number (overwrite · detail) }, .updated number)
  | none =>
    let number := g.links.size
    ({ g with
        links := (g.links.enter link).1
        details := g.details.push detail
        outgoing := g.outgoing.modify link.source (number :: ·)
        incoming := g.incoming.modify link.target (number :: ·) }, .inserted number)

/-- **Write an edge.** If there is one with the same source, target and type, its details
are overwritten in place; otherwise the edge becomes the last one. -/
def upsert (g : RepoGraph) (edge : Edge) : RepoGraph × Outcome :=
  let (g, source) := g.enterFile edge.source
  let (g, target) := g.enterFile edge.target
  g.writeLink ⟨source, target, edge.type⟩ edge.detail

/-- The graph after a sequence of writes. -/
def writeAll (g : RepoGraph) (edges : List Edge) : RepoGraph :=
  edges.foldl (fun g edge => (g.upsert edge).1) g

/-! ### Reading -/

/-- The edge with this number. -/
def edge? (g : RepoGraph) (number : Nat) : Option Edge := do
  let link ← g.links.get? number
  let detail ← g.details[number]?
  return ⟨g.path link.source, g.path link.target, link.type,
    detail.weight, detail.run, detail.updatedAt⟩

/-- All edges, oldest first. -/
def edges (g : RepoGraph) : List Edge := (List.range g.edgeCount).filterMap g.edge?

/-- The edges listed for a file in one of the two directions. -/
def edgesOf (g : RepoGraph) (lists : Array (List Nat)) (path : String) : List Edge :=
  match g.files.number? path with
  | some file => (lists[file]?.getD []).filterMap g.edge?
  | none => []

/-- The edges that leave a file, newest first. There are none if the file is unknown. -/
def outEdges (g : RepoGraph) (path : String) : List Edge := g.edgesOf g.outgoing path

/-- The edges that arrive at a file, newest first. -/
def inEdges (g : RepoGraph) (path : String) : List Edge := g.edgesOf g.incoming path

/-- The first edges of the graph, as many as a listing may show. -/
def listing (g : RepoGraph) (cap : Nat) : List EdgeSummary :=
  (g.edges.take cap).map Edge.summary

/-! ### Neighbours -/

/-- The distinct members of a list of numbers, in ascending order. -/
def distinct (numbers : List Nat) : List Nat := numbers.mergeSort.eraseReps

/-- The numbers of the files that a file depends on, once for every edge. -/
def targets (g : RepoGraph) (file : Nat) : List Nat :=
  (g.outgoing[file]?.getD []).filterMap fun number =>
    (g.links.get? number).map Link.target

/-- The numbers of the files that depend on a file, once for every edge. -/
def sources (g : RepoGraph) (file : Nat) : List Nat :=
  (g.incoming[file]?.getD []).filterMap fun number =>
    (g.links.get? number).map Link.source

end RepoGraph

end DepGraph
