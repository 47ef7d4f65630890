import DepGraph.Proofs.Graph.Growth
import DepGraph.Proofs.Statistics
import DepGraph.Proofs.Structural

/-!
# Replaying a history

When batches are ingested a second time in the same order, the edges go through everything again
that they have been through: in the middle of it an edge may say what it said long ago, and the
graph is not what it was. Only at the end all is as before. What an edge says apart from its time
is what the last write of its key said (`DepGraph.Edge.Settles.lastWrite?_timeless`), and the last
write of a replay is the last write of what is replayed
(`DepGraph.Ledger.lastWrite?_replay`). No key is new to a replay, so no edge is added and none
moves.

Times are different, as they are those of the replay; but no edge gets an earlier one, whatever the
clock shows.
-/

namespace DepGraph

/-! ### The last writes -/

namespace Ledger

/-- The last write of a key, if there is one. -/
def lastWrite? (writes : List Edge) (key : EdgeKey) : Option Edge :=
  writes.reverse.find? fun e => e.key = key

theorem lastWrite?_append (writes more : List Edge) (key : EdgeKey) :
    lastWrite? (writes ++ more) key = (lastWrite? more key).or (lastWrite? writes key) := by
  rw [lastWrite?, List.reverse_append, List.find?_append]
  rfl

/-- Taking the times off makes no difference to which write is the last. -/
theorem lastWrite?_map_timeless (writes : List Edge) (key : EdgeKey) :
    lastWrite? (writes.map Edge.timeless) key = (lastWrite? writes key).map Edge.timeless := by
  rw [lastWrite?, ← List.map_reverse, List.find?_map]
  rfl

/-- **Replayed writes change no last write**, apart from its time. -/
theorem lastWrite?_replay {writes replayed again : List Edge}
    (h : again.map Edge.timeless = replayed.map Edge.timeless) (key : EdgeKey) :
    (lastWrite? (writes ++ replayed ++ again) key).map Edge.timeless =
      (lastWrite? (writes ++ replayed) key).map Edge.timeless := by
  rw [← lastWrite?_map_timeless, ← lastWrite?_map_timeless, List.map_append, List.map_append, h,
    lastWrite?_append, lastWrite?_append]
  rcases lastWrite? (replayed.map Edge.timeless) key with _ | e <;> rfl

end Ledger

theorem Edge.timeless_eq_iff {a b : Edge} :
    a.timeless = b.timeless ↔ a.key = b.key ∧ a.weight = b.weight ∧ a.run = b.run := by
  obtain ⟨source, target, type, weight, run, time⟩ := a
  obtain ⟨source', target', type', weight', run', time'⟩ := b
  simp only [timeless, key, Edge.mk.injEq, EdgeKey.mk.injEq]
  tauto

/-- **Apart from its time, an edge says what the last write of its key said.** -/
theorem Edge.Settles.lastWrite?_timeless {e : Edge} {writes : List Edge} (h : e.Settles writes) :
    (Ledger.lastWrite? writes e.key).map Edge.timeless = some e.timeless := by
  obtain ⟨before, last, after, rfl, hkey, hafter, hweight, hrun⟩ := h.last
  have hnone : Ledger.lastWrite? after e.key = none := by
    rw [Ledger.lastWrite?, List.find?_eq_none]
    intro w hw
    simpa using hafter w (List.mem_reverse.mp hw)
  have hlast : Ledger.lastWrite? [last] e.key = some last := by
    rw [Ledger.lastWrite?, List.reverse_singleton, List.find?_cons_of_pos (by simpa using hkey)]
  have hsplit : before ++ last :: after = before ++ [last] ++ after := by simp
  rw [hsplit, Ledger.lastWrite?_append, hnone, Ledger.lastWrite?_append, hlast, Option.none_or,
    Option.some_or, Option.map_some, Edge.timeless_eq_iff.mpr ⟨hkey, hweight.symm, hrun.symm⟩]

namespace Ledger

/-- **A replay leaves the edges as they were**, each in its place, apart from their times. -/
theorem timeless_ofWrites_replay {writes replayed again : List Edge}
    (h : again.map Edge.timeless = replayed.map Edge.timeless) :
    (ofWrites (writes ++ replayed ++ again)).map Edge.timeless =
      (ofWrites (writes ++ replayed)).map Edge.timeless := by
  have hagain : again.map Edge.key = replayed.map Edge.key := by
    have hkeys := congrArg (List.map Edge.key) h
    rwa [List.map_map, List.map_map] at hkeys
  have hkeys : (ofWrites (writes ++ replayed ++ again)).map Edge.key =
      (ofWrites (writes ++ replayed)).map Edge.key := by
    rw [keys_ofWrites, keys_ofWrites, List.map_append, List.eraseDups_append]
    have hnone : (again.map Edge.key).removeAll ((writes ++ replayed).map Edge.key) = [] := by
      rw [List.removeAll, List.filter_eq_nil_iff, hagain]
      intro key hkey
      simp [List.mem_map.mp hkey]
    rw [hnone, List.eraseDups_nil, List.append_nil]
  -- edges of one key say what the last write of the key said, before the replay and after it
  refine List.ext_getElem? fun i => ?_
  have hkey := congrArg (·[i]?) hkeys
  simp only [List.getElem?_map] at hkey ⊢
  rcases hold : (ofWrites (writes ++ replayed))[i]? with _ | old
  · rw [hold] at hkey
    rw [Option.map_eq_none_iff.mp hkey]
  · rw [hold] at hkey
    obtain ⟨new, hnew, hnewkey⟩ := Option.map_eq_some_iff.mp hkey
    have hsettles := settles_of_mem_ofWrites (List.mem_of_getElem? hold)
    have hsettles' := settles_of_mem_ofWrites (List.mem_of_getElem? hnew)
    rw [hnew, Option.map_some, Option.map_some, ← hsettles.lastWrite?_timeless,
      ← hsettles'.lastWrite?_timeless, hnewkey, lastWrite?_replay h]

end Ledger

/-! ### Replayed batches -/

/-- Batches as they are ingested one after another, each at its time. -/
def ingestions (batches : List (Instant × Batch)) : List (Instant × Operation) :=
  batches.map fun e => (e.1, .ingest e.2)

section Round

variable {repo : String} {first again : List (Instant × Batch)}

theorem contributions_append (repo : String) (history later : List (Instant × Operation)) :
    contributions repo (history ++ later) =
      contributions repo history ++ contributions repo later :=
  List.filterMap_append

theorem writesTo_append (repo : String) (history later : List (Instant × Operation)) :
    writesTo repo (history ++ later) = writesTo repo history ++ writesTo repo later :=
  List.flatMap_append

/-- The same batches contribute the same, whenever they are ingested. -/
theorem contributions_ingestions_congr (h : again.map Prod.snd = first.map Prod.snd) :
    contributions repo (ingestions again) = contributions repo (ingestions first) := by
  have hround : ∀ round : List (Instant × Batch), contributions repo (ingestions round) =
      (round.map Prod.snd).filterMap fun batch => (Operation.ingest batch).contribution? repo :=
    fun round => by
      rw [contributions, ingestions, List.filterMap_map, List.filterMap_map]
      rfl
  rw [hround, hround, h]

/-- Without their times the same batches write the same. -/
theorem timeless_writesTo_ingestions_congr (h : again.map Prod.snd = first.map Prod.snd) :
    (writesTo repo (ingestions again)).map Edge.timeless =
      (writesTo repo (ingestions first)).map Edge.timeless := by
  rw [timeless_writesTo, timeless_writesTo, contributions_ingestions_congr h]

/-- The keys that a history writes are those of its contributions. -/
theorem keys_writesTo (repo : String) (history : List (Instant × Operation)) :
    (writesTo repo history).map Edge.key =
      (contributions repo history).flatMap fun b => b.edges.map AcceptedEdge.key := by
  have hkey : Edge.key ∘ Edge.timeless = Edge.key := rfl
  rw [← hkey, ← List.map_map, timeless_writesTo, List.map_flatMap]
  simp only [Accepted.writes, List.map_map]
  rfl

/-- A replay contributes nothing that has not been contributed before. -/
theorem mem_contributions_replay (h : again.map Prod.snd = first.map Prod.snd)
    {history : List (Instant × Operation)} {b : Accepted} :
    b ∈ contributions repo (history ++ ingestions first ++ ingestions again) ↔
      b ∈ contributions repo (history ++ ingestions first) := by
  rw [contributions_append, contributions_append, contributions_ingestions_congr h,
    List.mem_append, List.mem_append]
  tauto

/-- A repository to which nothing has been contributed, gets nothing from a replay. -/
theorem contributions_replay_eq_nil_iff (h : again.map Prod.snd = first.map Prod.snd)
    {history : List (Instant × Operation)} :
    contributions repo (history ++ ingestions first ++ ingestions again) = [] ↔
      contributions repo (history ++ ingestions first) = [] := by
  simp only [List.eq_nil_iff_forall_not_mem, mem_contributions_replay h]

end Round

namespace Store

variable (limits : QueryLimits) (history : List (Instant × Operation))
  {first again : List (Instant × Batch)}

/-- **A replay changes no repository**, apart from times. -/
theorem map_graph?_replay (h : again.map Prod.snd = first.map Prod.snd) (repo : String) :
    ((after limits (history ++ ingestions first ++ ingestions again)).graph? repo).map
        (·.edges.map Edge.timeless) =
      ((after limits (history ++ ingestions first)).graph? repo).map
        (·.edges.map Edge.timeless) := by
  have hledger : (Ledger.ofWrites (writesTo repo (history ++ ingestions first ++
      ingestions again))).map Edge.timeless =
      (Ledger.ofWrites (writesTo repo (history ++ ingestions first))).map Edge.timeless := by
    rw [writesTo_append, writesTo_append]
    exact Ledger.timeless_ofWrites_replay (timeless_writesTo_ingestions_congr h)
  rw [graph?_after, graph?_after]
  simp only [contributions_replay_eq_nil_iff h]
  split
  · rfl
  · rw [Option.map_some, Option.map_some, RepoGraph.edges_writeAll_empty,
      RepoGraph.edges_writeAll_empty, hledger]

/-- **A replay adds no repository.** -/
theorem repositoryCount_replay (h : again.map Prod.snd = first.map Prod.snd) :
    (after limits (history ++ ingestions first ++ ingestions again)).repositoryCount =
      (after limits (history ++ ingestions first)).repositoryCount := by
  rw [repositoryCount_eq_ncard, repositoryCount_eq_ncard]
  simp only [isSome_graph?_after, ne_eq, contributions_replay_eq_nil_iff h]

/-- **A replay changes no answer.** -/
theorem ask_replay (h : again.map Prod.snd = first.map Prod.snd) (repo : String)
    (question : Question) :
    (after limits (history ++ ingestions first ++ ingestions again)).ask repo question =
      (after limits (history ++ ingestions first)).ask repo question := by
  by_cases hquestion : question = .edges
  · -- a listing does not show times
    subst hquestion
    have hgraph := map_graph?_replay limits history h repo
    rw [graph?_after, graph?_after] at hgraph
    rw [ask_after, ask_after]
    simp only [contributions_replay_eq_nil_iff h] at hgraph ⊢
    split
    · rfl
    · next hsome =>
      rw [if_neg hsome, if_neg hsome, Option.map_some, Option.map_some, Option.some_inj,
        ← RepoGraph.edges_timeless, ← RepoGraph.edges_timeless] at hgraph
      rw [← Question.about_timeless, ← Question.about_timeless _ _ (RepoGraph.empty.writeAll
        (writesTo repo (history ++ ingestions first))), Question.about, Question.about,
        RepoGraph.edgeListing, RepoGraph.edgeListing, RepoGraph.listing, RepoGraph.listing, hgraph]
  · exact ask_after_congr_of_reports (fun a b => by simp only [mem_contributions_replay h])
      hquestion

/-- **In a replay all that a batch writes is known**, as it was written the first time. -/
theorem snd_apply_replay (h : again.map Prod.snd = first.map Prod.snd)
    {before rest : List (Instant × Batch)} {now : Instant} {batch : Batch}
    (hagain : again = before ++ (now, batch) :: rest) {b : Accepted}
    (hvalid : batch.validate = .ok b) :
    (b.apply now (((after limits (history ++ ingestions first ++ ingestions before)).graph?
      b.repoId).getD .empty)).2 =
        { processed := b.edges.length, inserted := 0, updated := b.edges.length } := by
  rw [getD_graph?_after]
  refine Accepted.snd_apply_of_known (RepoGraph.coherent_writeAll_empty _) fun e he => ?_
  rw [RepoGraph.edges_writeAll_empty, Ledger.mem_keys_ofWrites, keys_writesTo, List.mem_flatMap]
  obtain ⟨written, hwritten, rfl⟩ := List.mem_map.mp he
  refine ⟨b, ?_, List.mem_map_of_mem hwritten⟩
  -- the batch is one of the first round, too
  have hbatch : batch ∈ first.map Prod.snd := by
    rw [← h, hagain]
    simp
  obtain ⟨⟨past, given⟩, hfirst, hgiven⟩ := List.mem_map.mp hbatch
  obtain rfl : given = batch := hgiven
  have hedges : given.edges ≠ [] := by
    rw [ne_eq, ← Batch.edges_eq_nil_iff hvalid]
    exact List.ne_nil_of_mem hwritten
  refine mem_contributions_iff.mpr ⟨past, given, ?_, hvalid,
    (Batch.validate_eq_ok hvalid).1.symm, hedges⟩
  exact List.mem_append_left _ (List.mem_append_right _ (List.mem_map.mpr ⟨_, hfirst, rfl⟩))

/-- **Whatever is done to a store, its graphs only grow**, and the times of their edges with
them. -/
theorem growsInto_after (limits : QueryLimits) (repo : String)
    (earlier later : List (Instant × Operation)) :
    Ledger.GrowsInto (((after limits earlier).graph? repo).getD .empty).edges
      (((after limits (earlier ++ later)).graph? repo).getD .empty).edges := by
  rw [getD_graph?_after, getD_graph?_after, writesTo_append, RepoGraph.writeAll_append]
  exact (RepoGraph.coherent_writeAll_empty _).growsInto_writeAll _

/-- **Replaying changes times only.** After any history, let some batches be ingested one after
another, and then again in the same order, at any times. The second round

* leaves in every repository the edges that the first left, in the same order and with the same
  weights and runs, and leaves a repository absent that was absent;
* leaves as many repositories and the same answers to all questions;
* has nothing new to any graph in any of its batches, so that each counts updates only.

No edge ever gets an earlier time, neither in the second round nor otherwise. -/
theorem replay_changes_times_only (limits : QueryLimits) (history : List (Instant × Operation))
    {first again : List (Instant × Batch)} (h : again.map Prod.snd = first.map Prod.snd) :
    let once := after limits (history ++ ingestions first)
    let twice := after limits (history ++ ingestions first ++ ingestions again)
    (∀ repo, (twice.graph? repo).map (·.edges.map Edge.timeless) =
      (once.graph? repo).map (·.edges.map Edge.timeless)) ∧
    twice.repositoryCount = once.repositoryCount ∧
    (∀ repo question, twice.ask repo question = once.ask repo question) ∧
    (∀ before now batch rest b, again = before ++ (now, batch) :: rest →
      batch.validate = .ok b →
        let reached := after limits (history ++ ingestions first ++ ingestions before)
        (b.apply now ((reached.graph? b.repoId).getD .empty)).2 =
          { processed := b.edges.length, inserted := 0, updated := b.edges.length }) ∧
    ∀ repo earlier later,
      Ledger.GrowsInto (((after limits earlier).graph? repo).getD .empty).edges
        (((after limits (earlier ++ later)).graph? repo).getD .empty).edges :=
  ⟨map_graph?_replay limits history h, repositoryCount_replay limits history h,
    ask_replay limits history h,
    fun _ _ _ _ _ hagain hvalid => snd_apply_replay limits history h hagain hvalid,
    growsInto_after limits⟩

/-- Two batches that write the same edge differently, replayed by a clock that has been put
back. -/
theorem replay_changes_times_only_rewritten :
    let first : List (Instant × Batch) :=
      [(⟨20, 0⟩, ⟨"repo", "run", [⟨some "a", some "b", some "call", some 2.5⟩]⟩),
        (⟨30, 0⟩, ⟨"repo", "later", [⟨some "a", some "b", some "call", none⟩]⟩)]
    let again : List (Instant × Batch) :=
      [(⟨10, 0⟩, ⟨"repo", "run", [⟨some "a", some "b", some "call", some 2.5⟩]⟩),
        (⟨5, 0⟩, ⟨"repo", "later", [⟨some "a", some "b", some "call", none⟩]⟩)]
    let b : Accepted := ⟨"repo", "run", [⟨"a", "b", "call", 2.5⟩]⟩
    again.map Prod.snd = first.map Prod.snd ∧
      (b.apply ⟨10, 0⟩ (((after {} (ingestions first)).graph? "repo").getD .empty)).2 =
        { processed := 1, inserted := 0, updated := 1 } ∧
      ∀ repo question, (after {} (ingestions first ++ ingestions again)).ask repo question =
        (after {} (ingestions first)).ask repo question := by
  intro first again b
  have h : again.map Prod.snd = first.map Prod.snd := rfl
  have hvalid : Batch.validate ⟨"repo", "run", [⟨some "a", some "b", some "call", some 2.5⟩]⟩ =
      .ok b := rfl
  obtain ⟨-, -, hask, hcounts, -⟩ := replay_changes_times_only {} [] h
  exact ⟨h, hcounts [] _ _ _ b rfl hvalid, hask⟩

end Store

end DepGraph
