import DepGraph.Proofs.Cycles.Order
import DepGraph.Proofs.Graph.Representation
import DepGraph.Proofs.Hotspots
import DepGraph.Proofs.Impact.Distance
import DepGraph.Proofs.Isolation

/-!
# Structural questions

Impacts, cycles and hotspots are *structural*: nothing matters to them but which file depends on
which. Two graphs may have come about in any two ways – with their edges in different orders, in
different batches and any number of times, with other types, weights and runs – and will number
their files differently, go along their edges in different orders and find everything in
different orders. The answers are the same if every file depends on the same files
(`DepGraph.RepoGraph.impact_congr`, `DepGraph.RepoGraph.cycles_congr`,
`DepGraph.RepoGraph.hotspots_congr`).

The argument is the same for all three. What is listed, before it is cut off, is said by the
dependences alone; the list is in a strict order of its members, which is about paths and counts
and not about numbers of files; and there is only one list of given members that is in a given
strict order. Cutting off comes last and so cuts off the same.

For a repository the dependences are those that its contributions report, one by one and
whatever the grouping (`DepGraph.Store.dependsOn_after_iff`). So the same batches in another
order make no difference to the answers (`DepGraph.Store.structure_decides`). The edges
themselves are another matter: they are listed as they came, with what was written last.
-/

namespace DepGraph

namespace RepoGraph

variable {g g' : RepoGraph}

/-! ### Answers from dependences -/

theorem IsDistance.congr (hdepends : g.DependsOn = g'.DependsOn) {a b : String} {distance : Nat}
    (h : g.IsDistance a b distance) : g'.IsDistance a b distance :=
  ⟨h.walk.imp fun _ _ hab => hdepends ▸ hab,
    fun n hwalk => h.le n (hwalk.imp fun _ _ hab => hdepends ▸ hab)⟩

/-- **Impacts are the same if the dependences are.** -/
theorem impact_congr (h : g.Coherent) (h' : g'.Coherent) (hdepends : g.DependsOn = g'.DependsOn)
    (path : String) (maxDepth : Nat) : g.impact path maxDepth = g'.impact path maxDepth := by
  refine eq_of_ascends (h.pairwise_impact path maxDepth) (h'.pairwise_impact path maxDepth) ?_
  rintro ⟨other, distance⟩
  have hdistance : g.IsDistance path other distance ↔ g'.IsDistance path other distance :=
    ⟨fun hd => hd.congr hdepends, fun hd => hd.congr hdepends.symm⟩
  rw [h.mem_impact_iff, h'.mem_impact_iff, hdistance]

/-- **Cycles are the same if the dependences are.** -/
theorem cycles_congr (h : g.Coherent) (h' : g'.Coherent) (hdepends : g.DependsOn = g'.DependsOn)
    (q : CycleQuery) : g.cycles q = g'.cycles q := by
  have hall : (g.ranked.allCycles q.least q.greatest).map (·.map g.ranked.path) =
      (g'.ranked.allCycles q.least q.greatest).map (·.map g'.ranked.path) := by
    refine (h.pairwise_map_allCycles _ _).eq_of_mem_iff (h'.pairwise_map_allCycles _ _) ?_
    intro told
    rw [h.mem_allCycles_iff, h'.mem_allCycles_iff]
    exact ⟨fun ht => ht.imp fun _ _ hab => hdepends ▸ hab,
      fun ht => ht.imp fun _ _ hab => hdepends ▸ hab⟩
  rw [h.cycles_eq_take, h'.cycles_eq_take, hall]

/-- **Hotspots are the same if the dependences are.** -/
theorem hotspots_congr (h : g.Coherent) (h' : g'.Coherent) (hlinked : g.Linked)
    (hlinked' : g'.Linked) (hdepends : g.DependsOn = g'.DependsOn) (top : Nat) :
    g.hotspots top = g'.hotspots top := by
  have hdegrees : g.degrees = g'.degrees := by
    funext path
    rw [degrees, degrees, hdepends]
  have hranking : g.ranking = g'.ranking := by
    refine eq_of_ascends g.pairwise_ranking g'.pairwise_ranking ?_
    intro spot
    rw [h.mem_ranking_iff, h'.mem_ranking_iff, hdegrees]
    -- every file depends on another or is depended on, so that the files are the same, too
    simp only [h.mem_files_iff hlinked, h'.mem_files_iff hlinked', hdepends]
  rw [hotspots_eq_take, hotspots_eq_take, hranking]

/-- **All structural questions have the same answers if the dependences are the same.** -/
theorem about_congr (h : g.Coherent) (h' : g'.Coherent) (hlinked : g.Linked)
    (hlinked' : g'.Linked) (hdepends : g.DependsOn = g'.DependsOn) (limits : QueryLimits)
    {question : Question} (hstructural : question ≠ .edges) :
    question.about limits g = question.about limits g' := by
  cases question with
  | edges => exact absurd rfl hstructural
  | impact path depth => rw [Question.about, Question.about, impactReport, impactReport,
      impact_congr h h' hdepends]
  | cycles => rw [Question.about, Question.about, cycleReport, cycleReport,
      cycles_congr h h' hdepends]
  | hotspots => rw [Question.about, Question.about, hotspotReport, hotspotReport,
      hotspots_congr h h' hlinked hlinked' hdepends]

/-- **A file depends on another if an edge between them was written**, of whatever type. -/
theorem dependsOn_writeAll_iff {writes : List Edge} {a b : String} :
    (empty.writeAll writes).DependsOn a b ↔ ∃ e ∈ writes, e.source = a ∧ e.target = b := by
  -- the edges of the graph have the keys that were written
  have hkeys : ∀ edges : List Edge, (∃ e ∈ edges, e.source = a ∧ e.target = b) ↔
      ∃ key ∈ edges.map Edge.key, key.source = a ∧ key.target = b := fun edges => by
    simp only [List.mem_map, exists_exists_and_eq_and]
    rfl
  rw [DependsOn, hkeys, hkeys, edges_writeAll_empty]
  simp only [Ledger.mem_keys_ofWrites]

end RepoGraph

/-! ### Contributions -/

namespace Store

variable {limits : QueryLimits} {repo : String}

theorem mem_writesTo_iff {history : List (Instant × Operation)} {e : Edge} :
    e ∈ writesTo repo history ↔
      ∃ now op, (now, op) ∈ history ∧ ∃ b, op.contribution? repo = some b ∧ e ∈ b.writes now := by
  rw [writesTo, List.mem_flatMap]
  constructor
  · rintro ⟨⟨now, op⟩, hmem, he⟩
    rcases hb : op.contribution? repo with _ | b
    · rw [hb] at he
      exact absurd he List.not_mem_nil
    · rw [hb] at he
      exact ⟨now, op, hmem, b, hb, he⟩
  · rintro ⟨now, op, hmem, b, hb, he⟩
    refine ⟨(now, op), hmem, ?_⟩
    rw [hb]
    exact he

/-- **The dependences of a repository are those that its contributions report.** -/
theorem dependsOn_after_iff (limits : QueryLimits) {history : List (Instant × Operation)}
    {a b : String} :
    (((after limits history).graph? repo).getD .empty).DependsOn a b ↔
      ∃ batch ∈ contributions repo history, batch.Reports a b := by
  rw [getD_graph?_after, RepoGraph.dependsOn_writeAll_iff]
  constructor
  · rintro ⟨e, he, rfl, rfl⟩
    obtain ⟨now, op, hmem, batch, hbatch, he⟩ := mem_writesTo_iff.mp he
    obtain ⟨written, hwritten, rfl⟩ := List.mem_map.mp he
    exact ⟨batch, List.mem_filterMap.mpr ⟨(now, op), hmem, hbatch⟩, written, hwritten, rfl, rfl⟩
  · rintro ⟨batch, hbatch, written, hwritten, rfl, rfl⟩
    obtain ⟨⟨now, op⟩, hmem, hbatch⟩ := List.mem_filterMap.mp hbatch
    have he := List.mem_map_of_mem (f := fun e : AcceptedEdge =>
      (⟨e.source, e.target, e.type, e.weight, batch.analysisId, now⟩ : Edge)) hwritten
    exact ⟨_, mem_writesTo_iff.mpr ⟨now, op, hmem, batch, hbatch, he⟩, rfl, rfl⟩

/-- Whoever contributes reports some dependence. -/
theorem exists_reports {history : List (Instant × Operation)}
    (h : contributions repo history ≠ []) :
    ∃ a b, ∃ batch ∈ contributions repo history, batch.Reports a b := by
  obtain ⟨batch, hbatch⟩ := List.exists_mem_of_ne_nil _ h
  obtain ⟨now, given, -, hvalid, -, hedges⟩ := mem_contributions_iff.mp hbatch
  obtain ⟨e, he⟩ := List.exists_mem_of_ne_nil batch.edges fun hnil =>
    hedges ((Batch.edges_eq_nil_iff hvalid).mp hnil)
  exact ⟨e.source, e.target, batch, hbatch, e, he, rfl, rfl⟩

/-- **Structural questions about a repository are decided by the dependences that are reported**
to it. -/
theorem ask_after_congr_of_reports {history history' : List (Instant × Operation)}
    (h : ∀ a b, (∃ batch ∈ contributions repo history, batch.Reports a b) ↔
      ∃ batch ∈ contributions repo history', batch.Reports a b)
    {question : Question} (hstructural : question ≠ .edges) :
    (after limits history).ask repo question = (after limits history').ask repo question := by
  have hnone : contributions repo history = [] ↔ contributions repo history' = [] := by
    refine not_iff_not.mp ⟨fun hne hnil => ?_, fun hne hnil => ?_⟩
    · obtain ⟨a, b, hreports⟩ := exists_reports hne
      obtain ⟨batch, hbatch, -⟩ := (h a b).mp hreports
      exact absurd (hnil ▸ hbatch) List.not_mem_nil
    · obtain ⟨a, b, hreports⟩ := exists_reports hne
      obtain ⟨batch, hbatch, -⟩ := (h a b).mpr hreports
      exact absurd (hnil ▸ hbatch) List.not_mem_nil
  have hdepends : (RepoGraph.empty.writeAll (writesTo repo history)).DependsOn =
      (RepoGraph.empty.writeAll (writesTo repo history')).DependsOn := by
    funext a b
    rw [← getD_graph?_after limits, ← getD_graph?_after limits, dependsOn_after_iff,
      dependsOn_after_iff, h a b]
  have habout : question.about limits (RepoGraph.empty.writeAll (writesTo repo history)) =
      question.about limits (RepoGraph.empty.writeAll (writesTo repo history')) :=
    RepoGraph.about_congr (RepoGraph.coherent_writeAll_empty _)
      (RepoGraph.coherent_writeAll_empty _) (RepoGraph.linked_writeAll_empty _)
      (RepoGraph.linked_writeAll_empty _) hdepends limits hstructural
  rw [ask_after, ask_after, habout]
  exact if_congr hnone rfl rfl

/-- **Structural questions see nothing but which file depends on which.** In two graphs with the
same dependences, however they were written, the impacts, cycles and hotspots are the same
lists, whatever they are cut off at. After two histories whose contributions to a repository
report the same dependences, the structural questions about it have the same answers; so they
have if the contributions were made in another order. -/
theorem structure_decides (limits : QueryLimits) (repo : String) :
    (∀ writes writes' : List Edge,
      let g := RepoGraph.empty.writeAll writes
      let g' := RepoGraph.empty.writeAll writes'
      (∀ a b, g.DependsOn a b ↔ g'.DependsOn a b) →
        (∀ path maxDepth, g.impact path maxDepth = g'.impact path maxDepth) ∧
          (∀ q, g.cycles q = g'.cycles q) ∧ ∀ top, g.hotspots top = g'.hotspots top) ∧
    (∀ history history' : List (Instant × Operation),
      (∀ a b, (∃ batch ∈ contributions repo history, batch.Reports a b) ↔
        ∃ batch ∈ contributions repo history', batch.Reports a b) →
      ∀ question, question ≠ .edges →
        (after limits history).ask repo question = (after limits history').ask repo question) ∧
    ∀ history history' : List (Instant × Operation),
      (contributions repo history).Perm (contributions repo history') →
      ∀ question, question ≠ .edges →
        (after limits history).ask repo question = (after limits history').ask repo question := by
  refine ⟨?_, fun _ _ hreports _ => ask_after_congr_of_reports hreports, ?_⟩
  · intro writes writes' g g' hsame
    have h : g.Coherent := RepoGraph.coherent_writeAll_empty writes
    have h' : g'.Coherent := RepoGraph.coherent_writeAll_empty writes'
    have hdepends : g.DependsOn = g'.DependsOn := by
      funext a b
      exact propext (hsame a b)
    exact ⟨RepoGraph.impact_congr h h' hdepends, RepoGraph.cycles_congr h h' hdepends,
      RepoGraph.hotspots_congr h h' (RepoGraph.linked_writeAll_empty writes)
        (RepoGraph.linked_writeAll_empty writes') hdepends⟩
  · intro history history' hperm question
    refine ask_after_congr_of_reports fun a b => ?_
    simp only [hperm.mem_iff]

/-- Two files that depend on each other, written once and then in the other order, with one of
the dependences twice and of another type. -/
theorem structure_decides_rewritten :
    let g := RepoGraph.empty.writeAll
      [⟨"a", "b", "import", 1.0, "run", ⟨0, 0⟩⟩, ⟨"b", "a", "import", 1.0, "run", ⟨0, 0⟩⟩]
    let g' := RepoGraph.empty.writeAll
      [⟨"b", "a", "call", 2.0, "later", ⟨1, 0⟩⟩, ⟨"a", "b", "call", 0.5, "run", ⟨0, 0⟩⟩,
        ⟨"b", "a", "import", 1.0, "run", ⟨0, 0⟩⟩]
    (∀ a b, g.DependsOn a b ↔ g'.DependsOn a b) ∧
      (∀ path maxDepth, g.impact path maxDepth = g'.impact path maxDepth) ∧
        (∀ q, g.cycles q = g'.cycles q) ∧ ∀ top, g.hotspots top = g'.hotspots top := by
  intro g g'
  have hsame : ∀ a b, g.DependsOn a b ↔ g'.DependsOn a b := by
    intro a b
    rw [RepoGraph.dependsOn_writeAll_iff, RepoGraph.dependsOn_writeAll_iff]
    simp only [List.exists_mem_cons_iff, List.not_mem_nil, false_and, exists_false, or_false]
    tauto
  exact ⟨hsame, (structure_decides {} "repo").1 _ _ hsame⟩

end Store

end DepGraph
