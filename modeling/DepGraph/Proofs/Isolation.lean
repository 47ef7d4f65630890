import DepGraph.Proofs.Batch
import DepGraph.Proofs.Graph.Timeless
import DepGraph.Proofs.Locking.Alone
import Mathlib.Data.List.Induction

/-!
# Repositories are isolated

A *history* is a list of operations that were done on a store one after another, each with the
time at which it was done. What it did to one repository is told by its *contributions*, the
accepted batches with edges that name the repository: the graph of the repository consists of
what they write, in their order, and there is one exactly if there is a contribution
(`DepGraph.Store.isSome_graph?_after`, `DepGraph.Store.getD_graph?_after`). Nothing else leaves
a trace: a batch that is rejected, however much of it was fine, a batch without edges, a
question, or anything that is done to a repository with another name, be it ever so similar.

Two histories with the same contributions may write them at different times, so their graphs
need not be equal. They are equal without their times, and that is all that a question gets to
see (`DepGraph.Question.about_timeless`).

An operation does to a store what `DepGraph.Locking.Task.alone` says. Whatever is done
concurrently amounts to doing it in some order on its own, so what is said here of histories is
true of the order in which concurrent operations are completed.
-/

namespace DepGraph

open Locking (Task inTurn inTurn_concat)

/-- What users of a store do with it. -/
inductive Operation
  | ingest (batch : Batch)
  | ask (repo : String) (question : Question)
  | count

namespace Operation

/-- The operation as a task. -/
def task : Operation → Task
  | ingest batch => .ingest batch
  | ask repo question => .ask repo question
  | count => .count

/-- **What an operation contributes to a repository**: an accepted batch that names the
repository and has edges. -/
def contribution? (repo : String) : Operation → Option Accepted
  | ingest batch =>
    match batch.validate with
    | .ok b => if b.repoId = repo ∧ ¬b.edges.isEmpty then some b else none
    | .error _ => none
  | ask _ _ => none
  | count => none

theorem contribution?_of_ok {batch : Batch} {b : Accepted} (h : batch.validate = .ok b)
    (repo : String) :
    (ingest batch).contribution? repo =
      if b.repoId = repo ∧ ¬b.edges.isEmpty then some b else none := by
  rw [contribution?, h]

theorem contribution?_of_error {batch : Batch} {e : Error} (h : batch.validate = .error e)
    (repo : String) : (ingest batch).contribution? repo = none := by
  rw [contribution?, h]

/-- The contributions are the accepted batches with edges that name the repository. -/
theorem contribution?_eq_some_iff {repo : String} {op : Operation} {b : Accepted} :
    op.contribution? repo = some b ↔
      ∃ batch, op = ingest batch ∧ batch.validate = .ok b ∧ batch.repoId = repo ∧
        batch.edges ≠ [] := by
  constructor
  · intro h
    cases op with
    | ingest batch =>
      rcases hvalid : batch.validate with e | accepted
      · rw [contribution?_of_error hvalid] at h
        cases h
      · rw [contribution?_of_ok hvalid] at h
        split at h
        · next hnames =>
          obtain rfl := Option.some.inj h
          refine ⟨batch, rfl, hvalid, (Batch.validate_eq_ok hvalid).1.symm.trans hnames.1, ?_⟩
          rw [ne_eq, ← Batch.edges_eq_nil_iff hvalid, ← List.isEmpty_iff]
          exact hnames.2
        · cases h
    | ask _ _ => cases h
    | count => cases h
  · rintro ⟨batch, rfl, hvalid, hrepo, hedges⟩
    rw [contribution?_of_ok hvalid, if_pos]
    rw [ne_eq, ← Batch.edges_eq_nil_iff hvalid, ← List.isEmpty_iff] at hedges
    exact ⟨(Batch.validate_eq_ok hvalid).1.trans hrepo, hedges⟩

/-- **What one operation does to the graph of a repository**: it writes its contribution, and
nothing if there is none. -/
theorem graph?_alone (op : Operation) (now : Instant) (s : Store) (repo : String) :
    (op.task.alone now s).1.graph? repo =
      match op.contribution? repo with
      | none => s.graph? repo
      | some b => some (((s.graph? repo).getD .empty).writeAll (b.writes now)) := by
  cases op with
  | ingest batch =>
    rcases hvalid : batch.validate with e | b
    · rw [contribution?_of_error hvalid, task, Task.alone, Store.ingest_of_error hvalid]
    · rw [contribution?_of_ok hvalid, task, Task.alone, Store.ingest_of_ok hvalid]
      dsimp only
      by_cases hedges : b.edges.isEmpty
      · rw [Store.applyBatch_of_isEmpty hedges, if_neg fun h => h.2 hedges]
      · rw [Store.applyBatch_of_not_isEmpty hedges, Store.graph?_setGraph, Accepted.fst_apply]
        by_cases hrepo : b.repoId = repo
        · rw [if_pos hrepo, if_pos ⟨hrepo, hedges⟩, hrepo]
        · rw [if_neg hrepo, if_neg fun h => hrepo h.1]
  | ask _ _ => rfl
  | count => rfl

/-- No operation changes the limits. -/
theorem limits_alone (op : Operation) (now : Instant) (s : Store) :
    (op.task.alone now s).1.limits = s.limits := by
  cases op with
  | ingest batch =>
    rcases hvalid : batch.validate with e | b
    · rw [task, Task.alone, Store.ingest_of_error hvalid]
    · rw [task, Task.alone, Store.ingest_of_ok hvalid]
      by_cases hedges : b.edges.isEmpty
      · rw [Store.applyBatch_of_isEmpty hedges]
      · rw [Store.applyBatch_of_not_isEmpty hedges]
        rfl
  | ask _ _ => rfl
  | count => rfl

end Operation

/-! ### Histories -/

/-- The contributions of a history to a repository. -/
def contributions (repo : String) (history : List (Instant × Operation)) : List Accepted :=
  history.filterMap fun e => e.2.contribution? repo

/-- The edges that a history writes to a repository. -/
def writesTo (repo : String) (history : List (Instant × Operation)) : List Edge :=
  history.flatMap fun e => (e.2.contribution? repo).elim [] (·.writes e.1)

theorem contributions_concat (repo : String) (history : List (Instant × Operation))
    (now : Instant) (op : Operation) :
    contributions repo (history ++ [(now, op)]) =
      contributions repo history ++ (op.contribution? repo).toList := by
  rw [contributions, contributions, List.filterMap_append]
  rcases h : op.contribution? repo with _ | b <;> simp [h]

theorem writesTo_concat (repo : String) (history : List (Instant × Operation))
    (now : Instant) (op : Operation) :
    writesTo repo (history ++ [(now, op)]) =
      writesTo repo history ++ (op.contribution? repo).elim [] (·.writes now) := by
  rw [writesTo, writesTo, List.flatMap_append, List.flatMap_singleton]

theorem mem_contributions_iff {repo : String} {history : List (Instant × Operation)}
    {b : Accepted} :
    b ∈ contributions repo history ↔
      ∃ now batch, (now, .ingest batch) ∈ history ∧ batch.validate = .ok b ∧
        batch.repoId = repo ∧ batch.edges ≠ [] := by
  rw [contributions, List.mem_filterMap]
  constructor
  · rintro ⟨⟨now, op⟩, hmem, hop⟩
    obtain ⟨batch, rfl, hbatch⟩ := Operation.contribution?_eq_some_iff.mp hop
    exact ⟨now, batch, hmem, hbatch⟩
  · rintro ⟨now, batch, hmem, hbatch⟩
    exact ⟨(now, .ingest batch), hmem, Operation.contribution?_eq_some_iff.mpr ⟨batch, rfl, hbatch⟩⟩

/-- An operation without a contribution leaves no trace in the contributions. -/
theorem contributions_of_none {repo : String} {op : Operation}
    (h : op.contribution? repo = none) (earlier later : List (Instant × Operation))
    (now : Instant) :
    contributions repo (earlier ++ (now, op) :: later) = contributions repo (earlier ++ later) := by
  rw [contributions, contributions, List.filterMap_append, List.filterMap_append,
    List.filterMap_cons, h]

/-- Without their times the edges are those of the contributions. -/
theorem timeless_writesTo (repo : String) (history : List (Instant × Operation)) :
    (writesTo repo history).map Edge.timeless =
      (contributions repo history).flatMap (·.writes .epoch) := by
  induction history with
  | nil => rfl
  | cons e history ih =>
    rw [writesTo, List.flatMap_cons, List.map_append, contributions, List.filterMap_cons]
    rcases e.2.contribution? repo with _ | b
    · exact ih
    · rw [Option.elim_some, List.flatMap_cons, Accepted.timeless_writes]
      exact congrArg (_ ++ ·) ih

namespace Store

/-- **The store after a history** that began with nothing. -/
def after (limits : QueryLimits) (history : List (Instant × Operation)) : Store :=
  (inTurn (.empty limits) (history.map fun e => (e.1, e.2.task))).1

variable {limits : QueryLimits} {repo : String}

theorem after_concat (limits : QueryLimits) (history : List (Instant × Operation)) (now : Instant)
    (op : Operation) :
    after limits (history ++ [(now, op)]) = (op.task.alone now (after limits history)).1 := by
  rw [after, List.map_append, List.map_singleton, inTurn_concat]
  rfl

theorem limits_after (limits : QueryLimits) (history : List (Instant × Operation)) :
    (after limits history).limits = limits := by
  induction history using List.reverseRecOn with
  | nil => rfl
  | append_singleton history e ih => rw [after_concat, Operation.limits_alone, ih]

theorem graph?_after_concat (limits : QueryLimits) (history : List (Instant × Operation))
    (now : Instant) (op : Operation) (repo : String) :
    (after limits (history ++ [(now, op)])).graph? repo =
      match op.contribution? repo with
      | none => (after limits history).graph? repo
      | some b => some ((((after limits history).graph? repo).getD .empty).writeAll
          (b.writes now)) := by
  rw [after_concat, Operation.graph?_alone]

/-- **A repository exists** exactly if something was contributed to it. -/
theorem isSome_graph?_after (limits : QueryLimits) (repo : String)
    (history : List (Instant × Operation)) :
    ((after limits history).graph? repo).isSome ↔ contributions repo history ≠ [] := by
  induction history using List.reverseRecOn with
  | nil => simp [after, inTurn, graph?, empty, contributions]
  | append_singleton history e ih =>
    obtain ⟨now, op⟩ := e
    rw [graph?_after_concat, contributions_concat]
    rcases op.contribution? repo with _ | b
    · rw [Option.toList_none, List.append_nil]
      exact ih
    · simp

/-- **The graph of a repository** consists of what was contributed to it. -/
theorem getD_graph?_after (limits : QueryLimits) (repo : String)
    (history : List (Instant × Operation)) :
    ((after limits history).graph? repo).getD .empty =
      RepoGraph.empty.writeAll (writesTo repo history) := by
  induction history using List.reverseRecOn with
  | nil => simp [after, inTurn, graph?, empty, writesTo, RepoGraph.writeAll]
  | append_singleton history e ih =>
    obtain ⟨now, op⟩ := e
    rw [graph?_after_concat, writesTo_concat]
    rcases op.contribution? repo with _ | b
    · rw [Option.elim_none, List.append_nil]
      exact ih
    · rw [Option.elim_some, RepoGraph.writeAll_append, ← ih]
      rfl

/-- The graph of a repository is coherent, whatever has been done. -/
theorem coherent_graph_after (limits : QueryLimits) (repo : String)
    (history : List (Instant × Operation)) :
    (((after limits history).graph? repo).getD .empty).Coherent := by
  rw [getD_graph?_after]
  exact RepoGraph.coherent_writeAll_empty _

/-- **A repository after a history**: with nothing contributed, it does not exist. -/
theorem graph?_after (limits : QueryLimits) (repo : String) (history : List (Instant × Operation)) :
    (after limits history).graph? repo =
      if contributions repo history = [] then none
      else some (RepoGraph.empty.writeAll (writesTo repo history)) := by
  have hexists := isSome_graph?_after limits repo history
  rw [← getD_graph?_after limits]
  rcases hgraph : (after limits history).graph? repo with _ | g
  · rw [hgraph] at hexists
    rw [if_pos (by simpa using hexists)]
  · rw [hgraph] at hexists
    rw [if_neg (by simpa using hexists)]
    rfl

/-- **What is answered after a history.** -/
theorem ask_after (limits : QueryLimits) (repo : String) (history : List (Instant × Operation))
    (question : Question) :
    (after limits history).ask repo question =
      if contributions repo history = [] then question.aboutNothing limits
      else question.about limits (RepoGraph.empty.writeAll (writesTo repo history)) := by
  have hgraph := graph?_after limits repo history
  split
  case isTrue hnone =>
    rw [if_pos hnone] at hgraph
    rw [ask_of_absent hgraph, limits_after]
  case isFalse hsome =>
    rw [if_neg hsome] at hgraph
    rw [ask_of_graph? hgraph, limits_after]

/-- **What can be asked about a repository is decided by the contributions to it.** The times
at which they were made, and all else that was done meanwhile, make no difference. -/
theorem ask_after_congr {history history' : List (Instant × Operation)}
    (h : contributions repo history = contributions repo history') (question : Question) :
    (after limits history).ask repo question = (after limits history').ask repo question := by
  have htimeless : (RepoGraph.empty.writeAll (writesTo repo history)).timeless =
      (RepoGraph.empty.writeAll (writesTo repo history')).timeless := by
    rw [RepoGraph.timeless_writeAll, RepoGraph.timeless_writeAll, timeless_writesTo,
      timeless_writesTo, h]
  rw [ask_after, ask_after, h, ← question.about_timeless _ (RepoGraph.empty.writeAll
    (writesTo repo history)), htimeless, question.about_timeless]

/-- **Repositories are isolated, and batches are written as a whole or not at all.** After
every history, a repository exists exactly if an accepted batch with edges that names it was
ingested. After two histories in which these batches were the same, every question about the
repository has the same answer. So an operation of any other kind – a batch that is not
accepted, has no edges or names another repository, a question, a count – could as well not
have been done. -/
theorem repositories_isolated (limits : QueryLimits) (repo : String) :
    (∀ history : List (Instant × Operation),
      ((after limits history).graph? repo).isSome ↔
        ∃ now batch b, (now, .ingest batch) ∈ history ∧ batch.validate = .ok b ∧
          batch.repoId = repo ∧ batch.edges ≠ []) ∧
    (∀ history history' : List (Instant × Operation),
      contributions repo history = contributions repo history' →
        ∀ question,
          (after limits history).ask repo question = (after limits history').ask repo question) ∧
    ∀ (earlier later : List (Instant × Operation)) (now : Instant) (op : Operation),
      (∀ batch b, op = .ingest batch → batch.validate = .ok b → batch.repoId = repo →
        batch.edges = []) →
      let s := after limits (earlier ++ (now, op) :: later)
      let s' := after limits (earlier ++ later)
      ((s.graph? repo).isSome ↔ (s'.graph? repo).isSome) ∧
        ∀ question, s.ask repo question = s'.ask repo question := by
  refine ⟨fun history => ?_, fun _ _ => ask_after_congr, fun earlier later now op hop => ?_⟩
  · rw [isSome_graph?_after]
    constructor
    · intro hne
      obtain ⟨b, hb⟩ := List.exists_mem_of_ne_nil _ hne
      obtain ⟨now, batch, hbatch⟩ := mem_contributions_iff.mp hb
      exact ⟨now, batch, b, hbatch⟩
    · rintro ⟨now, batch, b, hbatch⟩
      exact List.ne_nil_of_mem (mem_contributions_iff.mpr ⟨now, batch, hbatch⟩)
  · have hnone : op.contribution? repo = none := by
      rw [Option.eq_none_iff_forall_ne_some]
      intro b hb
      obtain ⟨batch, hbatch, hvalid, hrepo, hedges⟩ := Operation.contribution?_eq_some_iff.mp hb
      exact hedges (hop batch b hbatch hvalid hrepo)
    have hcontributions := contributions_of_none hnone earlier later now
    refine ⟨?_, ask_after_congr hcontributions⟩
    rw [isSome_graph?_after, isSome_graph?_after, hcontributions]

end Store

end DepGraph
