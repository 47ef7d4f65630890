import DepGraph.Store

/-!
# Tasks

What can be done with a store while others use it, too. Beside the operations proper
there are *holds*, which do nothing but keep a repository locked until they are let go.

`DepGraph.Locking.Task.alone` says what a task does when nobody else is there: no locks,
no waiting. Everything about locking is measured against it.
-/

namespace DepGraph.Locking

/-- How a repository is locked. -/
inductive Mode
  /-- Together with others, to read. -/
  | shared
  /-- Alone, to write. -/
  | exclusive
deriving DecidableEq, Repr

/-- Whether two locks on the same repository cannot be held at the same time. -/
def Mode.excludes : Mode → Mode → Bool
  | shared, shared => false
  | _, _ => true

/-- What can be done with a store. -/
inductive Task
  /-- Check a batch and write it. -/
  | ingest (batch : Batch)
  /-- Ask about a repository. -/
  | ask (repo : String) (question : Question)
  /-- Count the repositories. -/
  | count
  /-- Lock a repository and keep it locked. An exclusive hold makes the repository exist. -/
  | hold (repo : String) (mode : Mode)

/-- What a task results in. -/
inductive Result
  | ingested (report : IngestReport)
  | report (report : Report)
  /-- The batch is not well formed. -/
  | rejected (error : Error)
  | count (repositories : Nat)
  /-- The lock is held. -/
  | held
  /-- There is nothing to lock. -/
  | absent

/-- **What a task does on its own**, with no locks. -/
def Task.alone (now : Instant) (s : Store) : Task → Store × Result
  | ingest batch =>
    match s.ingest now batch with
    | .ok (s, report) => (s, .ingested report)
    | .error e => (s, .rejected e)
  | ask repo question => (s, .report (s.ask repo question))
  | count => (s, .count s.repositoryCount)
  | hold repo .shared => (s, if (s.graph? repo).isSome then .held else .absent)
  | hold repo .exclusive => (s.create repo, .held)

end DepGraph.Locking
