import DepGraph.Store
import Mathlib.Data.Set.Card

/-!
# What the operations of a store do to its graphs

A store is read through `DepGraph.Store.graph?`. Everything that is written to one
repository leaves the graphs of all others alone, and no repository ever ceases to exist
(`DepGraph.Store.isSome_graph?_setGraph`). Answers to questions depend on the graph of their
repository only, whether it exists (`DepGraph.Store.ask_of_graph?`) or not
(`DepGraph.Store.ask_of_absent`).
-/

namespace DepGraph

namespace Store

variable {s : Store}

/-! ### Graphs -/

theorem graph?_setGraph (s : Store) (repo other : String) (g : RepoGraph) :
    (s.setGraph repo g).graph? other = if repo = other then some g else s.graph? other := by
  rw [graph?, setGraph, Std.HashMap.getElem?_insert]
  simp only [beq_iff_eq]
  rfl

/-- A repository that exists goes on existing. -/
theorem isSome_graph?_setGraph {repo other : String} {g : RepoGraph}
    (h : (s.graph? other).isSome) : ((s.setGraph repo g).graph? other).isSome := by
  rw [graph?_setGraph]
  split
  · rfl
  · exact h

theorem create_of_graph? {repo : String} (h : (s.graph? repo).isSome) : s.create repo = s := by
  obtain ⟨g, hg⟩ := Option.isSome_iff_exists.mp h
  rw [create, hg]

theorem create_of_absent {repo : String} (h : s.graph? repo = none) :
    s.create repo = s.setGraph repo .empty := by
  rw [create, h]

/-- The repositories are counted once each. -/
theorem repositoryCount_eq_ncard (s : Store) :
    s.repositoryCount = {repo | (s.graph? repo).isSome}.ncard := by
  classical
  have hkeys : {repo | (s.graph? repo).isSome} = (s.repositories.keys.toFinset : Set String) := by
    ext repo
    simp [graph?]
  have hnodup : s.repositories.keys.Nodup :=
    s.repositories.distinct_keys.imp fun h => by simpa using h
  rw [hkeys, Set.ncard_coe_finset, List.toFinset_card_of_nodup hnodup, Std.HashMap.length_keys]
  rfl

/-! ### Batches -/

theorem applyBatch_of_isEmpty {now : Instant} {b : Accepted} (h : b.edges.isEmpty) :
    s.applyBatch now b = s := by
  rw [applyBatch, if_pos h]

theorem applyBatch_of_not_isEmpty {now : Instant} {b : Accepted} (h : ¬b.edges.isEmpty) :
    s.applyBatch now b =
      s.setGraph b.repoId (b.apply now ((s.graph? b.repoId).getD .empty)).1 := by
  rw [applyBatch, if_neg h]

theorem ingest_of_ok {now : Instant} {batch : Batch} {b : Accepted} (h : batch.validate = .ok b) :
    s.ingest now batch = .ok (s.applyBatch now b, .ofCount b.edges.length) := by
  rw [ingest, h]
  rfl

theorem ingest_of_error {now : Instant} {batch : Batch} {e : Error}
    (h : batch.validate = .error e) : s.ingest now batch = .error e := by
  rw [ingest, h]
  rfl

/-! ### Questions -/

/-- The answer about a repository that exists is the one about its graph. -/
theorem ask_of_graph? {repo : String} {g : RepoGraph} (h : s.graph? repo = some g)
    (question : Question) : s.ask repo question = question.about s.limits g := by
  cases question with
  | edges => rw [ask, listEdges, h, Question.about]
  | impact path depth => rw [ask, impact, h, Question.about]
  | cycles => rw [ask, cycles, h, Question.about]
  | hotspots => rw [ask, hotspots, h, Question.about]

/-- The answer about a repository that does not exist is the one about nothing. -/
theorem ask_of_absent {repo : String} (h : s.graph? repo = none) (question : Question) :
    s.ask repo question = question.aboutNothing s.limits := by
  cases question with
  | edges => rw [ask, listEdges, h, Question.aboutNothing]
  | impact path depth => rw [ask, impact, h, Question.aboutNothing]
  | cycles => rw [ask, cycles, h, Question.aboutNothing]
  | hotspots => rw [ask, hotspots, h, Question.aboutNothing]

end Store

end DepGraph
