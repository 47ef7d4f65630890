import DepGraph.Locking.Task

/-!
# Locking, first come first served

Every repository has a lock of its own, shared for questions and exclusive for writing.
A *machine* is a store in use: beside the store it has the locks that are being held and
the tasks that wait for one, oldest first.

When a task is started it either is completed at once, because it needs no lock – the
batch is not well formed or has no edges, the repository does not exist yet – or it draws
a *ticket* and waits. A ticket is served when nobody holds a lock on its repository that
excludes its own and no older ticket for the same repository is waiting: a reader behind
a waiting writer waits. What stops a ticket therefore stands before it in the line or
outside of it, so a single pass along the line serves all that can be served
(`DepGraph.Locking.Machine.settle`).

Writing and answering take their lock, do their work and let go in one go. Holds keep
their lock until they are dropped. Dropping a ticket abandons its task, which leaves
nothing behind.
-/

namespace DepGraph.Locking

/-- What a task does once it has its lock. -/
inductive Work
  | write (batch : Accepted)
  | answer (question : Question)
  | hold (mode : Mode)

/-- The lock that a piece of work needs. -/
def Work.mode : Work → Mode
  | write _ => .exclusive
  | answer _ => .shared
  | hold mode => mode

/-- A task that waits for the lock of a repository. -/
structure Ticket (ι : Type) where
  id : ι
  task : Task
  repo : String
  work : Work

/-- A lock that is being held. -/
structure Hold (ι : Type) where
  id : ι
  repo : String
  mode : Mode

/-- Whether a hold keeps a ticket from being served. -/
def Hold.blocks {ι : Type} (h : Hold ι) (t : Ticket ι) : Bool :=
  h.repo = t.repo && h.mode.excludes t.work.mode

/-- A task that was completed, with the time at which it did its work. -/
structure Completion (ι : Type) where
  id : ι
  task : Task
  time : Instant
  result : Result

/-- A store in use. -/
structure Machine (ι : Type) where
  store : Store
  holds : List (Hold ι) := []
  /-- The tasks that wait, oldest first. -/
  pending : List (Ticket ι) := []

/-- What can happen to a machine. -/
inductive Step (ι : Type)
  | start (id : ι) (task : Task)
  /-- Let go of a lock, or abandon a task that waits. -/
  | drop (id : ι)

namespace Machine

variable {ι : Type}

/-- A machine on which nothing has happened. -/
def initial (limits : QueryLimits) : Machine ι := { store := .empty limits }

/-! ### Serving tickets -/

/-- Whether a ticket has to wait, given the tickets before it. -/
def blocks (m : Machine ι) (t : Ticket ι) : Bool :=
  m.holds.any (·.blocks t) || m.pending.any fun older => older.repo = t.repo

/-- Do the work of a ticket. -/
def serve (m : Machine ι) (now : Instant) (t : Ticket ι) : Machine ι × Result :=
  let graph := (m.store.graph? t.repo).getD .empty
  match t.work with
  | .write batch =>
    ({ m with store := m.store.setGraph t.repo (batch.apply now graph).1 },
      .ingested (.ofCount batch.edges.length))
  | .answer question => (m, .report (question.about m.store.limits graph))
  | .hold mode => ({ m with holds := m.holds ++ [⟨t.id, t.repo, mode⟩] }, .held)

/-- Go along a line of tickets; those that cannot be served join the ones that wait. -/
def pass (m : Machine ι) (now : Instant) : List (Ticket ι) → Machine ι × List (Completion ι)
  | [] => (m, [])
  | t :: line =>
    if m.blocks t then pass { m with pending := m.pending ++ [t] } now line
    else
      let (m, result) := m.serve now t
      let (m, done) := pass m now line
      (m, ⟨t.id, t.task, now, result⟩ :: done)

/-- Serve all tickets that can be served. -/
def settle (m : Machine ι) (now : Instant) : Machine ι × List (Completion ι) :=
  pass { m with pending := [] } now m.pending

/-! ### Starting and dropping tasks -/

/-- Let a task wait for the lock of a repository. -/
def enqueue (m : Machine ι) (id : ι) (task : Task) (repo : String) (work : Work) : Machine ι :=
  { m with pending := m.pending ++ [⟨id, task, repo, work⟩] }

/-- What becomes of a task at first: the result, or nothing if it has to draw a ticket. -/
def arrive (m : Machine ι) (now : Instant) (id : ι) (task : Task) : Machine ι × Option Result :=
  match task with
  | .ingest batch =>
    match batch.validate with
    | .error e => (m, some (.rejected e))
    | .ok accepted =>
      let done := Result.ingested (.ofCount accepted.edges.length)
      if accepted.edges.isEmpty then (m, some done)
      else
        match m.store.graph? accepted.repoId with
        | some _ => (m.enqueue id task accepted.repoId (.write accepted), none)
        | none =>
          let graph := (accepted.apply now .empty).1
          ({ m with store := m.store.setGraph accepted.repoId graph }, some done)
  | .ask repo question =>
    match m.store.graph? repo with
    | some _ => (m.enqueue id task repo (.answer question), none)
    | none => (m, some (.report (question.aboutNothing m.store.limits)))
  | .count => (m, some (.count m.store.repositoryCount))
  | .hold repo mode =>
    match m.store.graph? repo, mode with
    | some _, _ => (m.enqueue id task repo (.hold mode), none)
    | none, .shared => (m, some .absent)
    | none, .exclusive =>
      ({ m with
          store := m.store.setGraph repo .empty
          holds := m.holds ++ [⟨id, repo, .exclusive⟩] }, some .held)

/-- Forget a task: the lock that it holds, or its ticket. -/
def forget [DecidableEq ι] (m : Machine ι) (id : ι) : Machine ι :=
  { m with
    holds := m.holds.filter fun h => h.id ≠ id
    pending := m.pending.filter fun t => t.id ≠ id }

/-- **One step**: it happens, and then every ticket is served that can be. -/
def step [DecidableEq ι] (m : Machine ι) (now : Instant) :
    Step ι → Machine ι × List (Completion ι)
  | .start id task =>
    let (m, result) := m.arrive now id task
    let (m, served) := m.settle now
    (m, (result.map fun r => ⟨id, task, now, r⟩).toList ++ served)
  | .drop id => (m.forget id).settle now

/-- A run from some state on; the completions are in their order. -/
def run [DecidableEq ι] (m : Machine ι) : List (Instant × Step ι) → Machine ι × List (Completion ι)
  | [] => (m, [])
  | (now, s) :: steps =>
    let (m, done) := m.step now s
    let (m, more) := m.run steps
    (m, done ++ more)

end Machine

end DepGraph.Locking
