import DepGraph.Locking.Machine
import DepGraph.Proofs.Store

/-!
# What a machine does for one task

A machine works on a task in one of two places: when the task arrives, or later when its
ticket is served. Either way it does to the store what the task does on its own, and gives
the same result (`DepGraph.Locking.Machine.arrive_cases`,
`DepGraph.Locking.Machine.serve_of_due`). This is all that has to be known about the
operations of a store when locking is concerned.

A ticket stands for its task only as long as its repository exists, for a question about a
repository that does not exist is answered without a lock. As repositories never cease to
exist, a ticket that is once due stays due (`DepGraph.Locking.Ticket.Due.alone`).
-/

namespace DepGraph

namespace Locking

/-! ### Tasks on their own -/

section Tasks

variable {now : Instant} {s : Store}

/-- Whatever a task writes, the repositories that exist go on existing. -/
theorem Task.isSome_graph?_alone {repo : String} (h : (s.graph? repo).isSome) (task : Task) :
    ((task.alone now s).1.graph? repo).isSome := by
  cases task with
  | ingest batch =>
    cases hb : batch.validate with
    | error e =>
      rw [alone, Store.ingest_of_error hb]
      exact h
    | ok b =>
      rw [alone, Store.ingest_of_ok hb]
      by_cases hedges : b.edges.isEmpty
      · rw [Store.applyBatch_of_isEmpty hedges]
        exact h
      · rw [Store.applyBatch_of_not_isEmpty hedges]
        exact Store.isSome_graph?_setGraph h
  | ask _ _ => exact h
  | count => exact h
  | hold other mode =>
    cases mode with
    | shared => exact h
    | exclusive =>
      change ((s.create other).graph? repo).isSome
      cases hother : s.graph? other with
      | some g => rwa [Store.create_of_graph? (by rw [hother]; rfl)]
      | none =>
        rw [Store.create_of_absent hother]
        exact Store.isSome_graph?_setGraph h

/-- **Tasks in turn**, each on its own: the store that they leave, and their results. -/
def inTurn (s : Store) : List (Instant × Task) → Store × List Result
  | [] => (s, [])
  | (now, task) :: tasks =>
    let (s, result) := task.alone now s
    let (s, results) := inTurn s tasks
    (s, result :: results)

theorem inTurn_concat (tasks : List (Instant × Task)) (task : Task) :
    inTurn s (tasks ++ [(now, task)]) =
      ((task.alone now (inTurn s tasks).1).1,
        (inTurn s tasks).2 ++ [(task.alone now (inTurn s tasks).1).2]) := by
  induction tasks generalizing s with
  | nil => rfl
  | cons first tasks ih =>
    obtain ⟨time, earlier⟩ := first
    rw [List.cons_append, inTurn]
    dsimp only
    rw [ih]
    rfl

end Tasks

/-! ### Tickets -/

/-- **What a task needs a lock for**: the repository to be locked, and the work to be done
under the lock. A batch that is not well formed or has no edges needs none, and neither does
counting. -/
inductive Task.Draws : Task → String → Work → Prop
  | ingest {batch : Batch} {b : Accepted} (hb : batch.validate = .ok b)
      (hedges : ¬b.edges.isEmpty) : Draws (.ingest batch) b.repoId (.write b)
  | ask (repo : String) (question : Question) : Draws (.ask repo question) repo (.answer question)
  | hold (repo : String) (mode : Mode) : Draws (.hold repo mode) repo (.hold mode)

variable {ι : Type} {s : Store} {t : Ticket ι}

/-- **A ticket that is due**: its task needs a lock for what the ticket says, and there is
something to lock. -/
structure Ticket.Due (s : Store) (t : Ticket ι) : Prop where
  /-- It is the task's own work. -/
  draws : t.task.Draws t.repo t.work
  /-- The repository exists. -/
  exists_graph : (s.graph? t.repo).isSome

/-- A ticket stays due whatever tasks are done. -/
theorem Ticket.Due.alone (h : t.Due s) (now : Instant) (task : Task) :
    t.Due (task.alone now s).1 :=
  ⟨h.draws, task.isSome_graph?_alone h.exists_graph⟩

namespace Machine

variable {m : Machine ι}

/-- **Serving a ticket that is due is doing its task**, with nobody else there. -/
theorem serve_of_due (h : t.Due m.store) (now : Instant) :
    ((m.serve now t).1.store, (m.serve now t).2) = t.task.alone now m.store := by
  obtain ⟨id, task, repo, work⟩ := t
  obtain ⟨hdraws, hexists⟩ := h
  obtain ⟨g, hg⟩ := Option.isSome_iff_exists.mp hexists
  dsimp only at hdraws hg
  cases hdraws with
  | ingest hb hedges =>
    rw [Task.alone, Store.ingest_of_ok hb, Store.applyBatch_of_not_isEmpty hedges]
    rfl
  | ask repo question =>
    rw [Task.alone, Store.ask_of_graph? hg, serve, hg]
    rfl
  | hold repo mode =>
    cases mode with
    | shared =>
      rw [Task.alone, hg]
      rfl
    | exclusive =>
      rw [Task.alone, Store.create_of_graph? (by rw [hg]; rfl)]
      rfl

/-- Serving a ticket leaves the line alone. -/
theorem pending_serve (m : Machine ι) (now : Instant) (t : Ticket ι) :
    (m.serve now t).1.pending = m.pending := by
  rw [serve]
  split <;> rfl

/-- **What becomes of a task when it arrives**: it is done at once, as if nobody else were
there; or it makes a repository exist in order to hold it; or it draws a ticket that is
due. -/
theorem arrive_cases (m : Machine ι) (now : Instant) (id : ι) (task : Task) :
    m.arrive now id task =
        ({ m with store := (task.alone now m.store).1 }, some (task.alone now m.store).2) ∨
      (∃ repo, task = .hold repo .exclusive ∧ m.store.graph? repo = none ∧
        m.arrive now id task =
          ({ m with
              store := (task.alone now m.store).1
              holds := m.holds ++ [⟨id, repo, .exclusive⟩] },
            some (task.alone now m.store).2)) ∨
      ∃ repo work, Ticket.Due m.store ⟨id, task, repo, work⟩ ∧
        m.arrive now id task = (m.enqueue id task repo work, none) := by
  cases task with
  | ingest batch =>
    cases hb : batch.validate with
    | error e =>
      refine Or.inl ?_
      rw [arrive, hb, Task.alone, Store.ingest_of_error hb]
    | ok b =>
      rw [arrive, hb, Task.alone, Store.ingest_of_ok hb]
      dsimp only
      by_cases hedges : b.edges.isEmpty
      · refine Or.inl ?_
        rw [if_pos hedges, Store.applyBatch_of_isEmpty hedges]
      · rw [if_neg hedges, Store.applyBatch_of_not_isEmpty hedges]
        cases hg : m.store.graph? b.repoId with
        | none => exact Or.inl rfl
        | some g =>
          exact Or.inr (Or.inr ⟨b.repoId, .write b, ⟨.ingest hb hedges, by rw [hg]; rfl⟩, rfl⟩)
  | ask repo question =>
    rw [arrive]
    cases hg : m.store.graph? repo with
    | none =>
      refine Or.inl ?_
      rw [Task.alone, Store.ask_of_absent hg]
    | some g =>
      exact Or.inr (Or.inr ⟨repo, .answer question, ⟨.ask repo question, by rw [hg]; rfl⟩, rfl⟩)
  | count => exact Or.inl rfl
  | hold repo mode =>
    cases hg : m.store.graph? repo with
    | some g =>
      refine Or.inr (Or.inr ⟨repo, .hold mode, ⟨.hold repo mode, by rw [hg]; rfl⟩, ?_⟩)
      simp only [arrive, hg]
    | none =>
      cases mode with
      | shared =>
        refine Or.inl ?_
        simp only [arrive, Task.alone, hg]
        rfl
      | exclusive =>
        refine Or.inr (Or.inl ⟨repo, rfl, hg, ?_⟩)
        simp only [arrive, Task.alone, hg, Store.create_of_absent hg]

end Machine

end Locking

end DepGraph
