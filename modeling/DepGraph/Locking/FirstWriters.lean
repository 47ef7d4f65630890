import DepGraph.Batch.Apply
import Std.Data.HashMap

/-!
# Writers that race to create a repository

A closer look at writing: how two writers that both find no repository end up sharing one.
Repositories are *partitions* here, numbered in the order of their creation, and a
registry says which of them a repository's name stands for. A writer takes up to four
steps, and other writers may take theirs in between:

* it looks the name up in the registry;
* if there was nothing, it looks again while the registry is its own, and if there still
  is nothing it creates a partition, which it holds from the beginning;
* it waits for the lock of the partition, unless it holds it;
* it writes its batch into the partition and lets go.

Whoever comes second to the registry finds the partition of whoever came first, so a name
never changes its partition.
-/

namespace DepGraph.Locking

/-- How far a writer has come. -/
inductive Progress
  /-- It has not looked its repository up. -/
  | arriving
  /-- It found no partition. -/
  | missing
  /-- It found a partition and waits for its lock. -/
  | waiting (partition : Nat)
  /-- It holds the lock of a partition. -/
  | holding (partition : Nat)
  /-- It has written its batch. -/
  | finished
deriving DecidableEq, Repr

/-- A writer with its batch. -/
structure Writer where
  batch : Accepted
  /-- The time at which it writes. -/
  time : Instant
  progress : Progress := .arriving

/-- A graph with a lock. -/
structure Partition where
  graph : RepoGraph := .empty
  /-- The number of the writer that holds the lock. -/
  owner : Option Nat
  /-- The numbers of the writers that were given the lock, in their order. -/
  owners : List Nat

/-- A partition that its creator holds. -/
def Partition.createdBy (writer : Nat) : Partition := { owner := some writer, owners := [writer] }

/-- The partition after a writer has been given the lock. -/
def Partition.givenTo (p : Partition) (writer : Nat) : Partition :=
  { p with owner := some writer, owners := p.owners ++ [writer] }

/-- The partition after its owner has written a batch and let go. -/
def Partition.writtenBy (p : Partition) (w : Writer) : Partition :=
  { p with graph := (w.batch.apply w.time p.graph).1, owner := none }

/-- Writers on their way. -/
structure Race where
  writers : Array Writer
  /-- The partition that a repository's name stands for. -/
  registry : Std.HashMap String Nat := ∅
  partitions : Array Partition := #[]

namespace Race

/-- The race before anyone has moved. -/
def start (batches : List (Accepted × Instant)) : Race :=
  { writers := (batches.map fun (batch, time) => { batch, time }).toArray }

/-- Note how far a writer has come. -/
def progressTo (r : Race) (i : Nat) (progress : Progress) : Race :=
  { r with writers := r.writers.modify i fun w => { w with progress } }

/-- Change a partition. -/
def modifyPartition (r : Race) (p : Nat) (f : Partition → Partition) : Race :=
  { r with partitions := r.partitions.modify p f }

/-- **One step of a writer**; `none` if it cannot take one, because it has finished or the
lock that it waits for is held. -/
def advance (r : Race) (i : Nat) : Option Race := do
  let w ← r.writers[i]?
  let repo := w.batch.repoId
  match w.progress with
  | .arriving =>
    match r.registry[repo]? with
    | some p => return r.progressTo i (.waiting p)
    | none => return r.progressTo i .missing
  | .missing =>
    match r.registry[repo]? with
    | some p => return r.progressTo i (.waiting p)
    | none =>
      let p := r.partitions.size
      return { r with
        registry := r.registry.insert repo p
        partitions := r.partitions.push (.createdBy i) }.progressTo i (.holding p)
  | .waiting p =>
    let partition ← r.partitions[p]?
    if partition.owner.isSome then none
    else return (r.modifyPartition p (·.givenTo i)).progressTo i (.holding p)
  | .holding p => return (r.modifyPartition p (·.writtenBy w)).progressTo i .finished
  | .finished => none

/-- The race after the writers have tried to move in some order. -/
def run (r : Race) (moves : List Nat) : Race :=
  moves.foldl (fun r i => (r.advance i).getD r) r

/-- Whether every writer has finished. -/
def finished (r : Race) : Bool := r.writers.all fun w => w.progress = .finished

end Race

end DepGraph.Locking
