import DepGraph.Proofs.Cycles.Enumeration
import DepGraph.Proofs.Hotspots
import DepGraph.Proofs.Impact.Distance
import DepGraph.Proofs.Json.Definite
import DepGraph.Proofs.Structural

/-!
# Only valid edges are stored, and only they are shown

Writing an edge into a graph checks nothing. Everything that is written comes from accepted
batches, though, so all edges of a store are valid
(`DepGraph.Store.valid_of_graph?_after`): their texts say something, and their weights are numbers.
Whatever is written over an edge is valid, too, which is why the weight and the run of the last
write can be taken together with the key of the first.

Answers show paths of edges only, whichever question is asked
(`DepGraph.RepoGraph.Coherent.mem_files_of_mem_paths_about`). The one path in an answer that need not be one
is the path that the question was about.
-/

namespace DepGraph

/-! ### Valid batches and edges -/

/-- **A valid edge**: all of its texts say something, and its weight is a number. -/
structure Edge.Valid (e : Edge) : Prop where
  source : ¬isBlank e.source
  target : ¬isBlank e.target
  type : ¬isBlank e.type
  run : ¬isBlank e.run
  weight : e.weight.isFinite = true

/-- **What an accepted batch writes is valid.** -/
theorem Accepted.valid_of_mem_writes {batch : Batch} {b : Accepted}
    (h : batch.validate = .ok b) {now : Instant} {e : Edge} (he : e ∈ b.writes now) : e.Valid := by
  obtain ⟨-, hrun, edges, hedges, rfl⟩ := Batch.validate_eq_ok_iff.mp h
  obtain ⟨accepted, haccepted, rfl⟩ := List.mem_map.mp he
  have hchecked : batch.edges.map Descriptor.check = edges.map .ok :=
    Descriptor.map_check_of_checkAll hedges
  obtain ⟨d, -, hcheck⟩ := List.mem_map.mp (hchecked ▸ List.mem_map_of_mem haccepted)
  obtain ⟨⟨-, hsource⟩, ⟨-, htarget⟩, ⟨-, htype⟩, -, hweight⟩ := Descriptor.check_eq_ok_iff.mp hcheck
  exact ⟨hsource, htarget, htype, hrun, hweight⟩

/-- **Valid writes leave valid edges**: an edge has the texts of its key from any write of the
key, and the weight and the run from the last one. -/
theorem Ledger.valid_of_mem_ofWrites {writes : List Edge} (h : ∀ w ∈ writes, w.Valid) {e : Edge}
    (he : e ∈ ofWrites writes) : e.Valid := by
  obtain ⟨before, last, after, rfl, hkey, -, hweight, hrun⟩ := (settles_of_mem_ofWrites he).last
  have hlast : last.Valid := h last (by simp)
  obtain ⟨hsource, htarget, htype⟩ := EdgeKey.mk.inj hkey
  refine ⟨?_, ?_, ?_, ?_, ?_⟩
  · exact hsource ▸ hlast.source
  · exact htarget ▸ hlast.target
  · exact htype ▸ hlast.type
  · exact hrun ▸ hlast.run
  · exact hweight ▸ hlast.weight

/-! ### What answers show -/

/-- The paths that an answer shows, but for the one that the question was about. -/
def Report.paths : Report → List String
  | edges listing => listing.edges.flatMap fun e => [e.source, e.target]
  | impact report => report.affectedFiles.map (·.path)
  | cycles report => report.cycles.flatten
  | hotspots report => report.hotspots.map (·.path)

namespace RepoGraph

variable {g : RepoGraph}

/-- The files of a cycle are files of the graph: each of them depends on the next, and the last
one is the first again. -/
theorem TellsCycle.mem_files (h : g.Coherent) {least greatest : Nat} {told : List String}
    (hcycle : g.TellsCycle least greatest told) {path : String} (hpath : path ∈ told) :
    path ∈ g.files.toList := by
  obtain ⟨⟨first, rest, rfl, -⟩, hchain⟩ := hcycle
  have hpaths : ∀ path ∈ rest ++ [first], path ∈ g.files.toList :=
    forall_mem_of_isChain_cons (P := fun path => path ∈ g.files.toList)
      (fun a b hab => (h.mem_files_of_dependsOn hab).2) hchain
  rcases List.mem_cons.mp hpath with rfl | hpath
  · exact hpaths path (by simp)
  · exact hpaths path hpath

/-- An affected file is one that some file depends on. -/
theorem Coherent.mem_files_of_mem_impact (h : g.Coherent) {start : String} {maxDepth : Nat}
    {f : AffectedFile} (hf : f ∈ g.impact start maxDepth) : f.path ∈ g.files.toList := by
  obtain ⟨path, distance⟩ := f
  obtain ⟨hne, -, hwalk, -⟩ := h.mem_impact_iff.mp hf
  cases hwalk with
  | stay => exact absurd rfl hne
  | go _ hstep => exact (h.mem_files_of_dependsOn hstep).2

/-- **Answers show files of the graph only.** -/
theorem Coherent.mem_files_of_mem_paths_about (h : g.Coherent) {question : Question}
    {limits : QueryLimits} {path : String} (hpath : path ∈ (question.about limits g).paths) :
    path ∈ g.files.toList := by
  cases question with
  | edges =>
    obtain ⟨shown, hshown, hpath⟩ := List.mem_flatMap.mp hpath
    obtain ⟨e, he, rfl⟩ := List.mem_map.mp hshown
    have hdepends : g.DependsOn e.source e.target := ⟨e, List.mem_of_mem_take he, rfl, rfl⟩
    rcases List.mem_pair.mp hpath with rfl | rfl
    · exact (h.mem_files_of_dependsOn hdepends).1
    · exact (h.mem_files_of_dependsOn hdepends).2
  | impact start depth =>
    obtain ⟨f, hf, rfl⟩ := List.mem_map.mp hpath
    exact h.mem_files_of_mem_impact hf
  | cycles =>
    obtain ⟨told, htold, hpath⟩ := List.mem_flatten.mp hpath
    exact (h.tellsCycle_of_mem_cycles htold).mem_files h hpath
  | hotspots =>
    obtain ⟨spot, hspot, rfl⟩ := List.mem_map.mp hpath
    obtain ⟨file, hfile, rfl⟩ := h.mem_ranking_iff.mp (List.mem_of_mem_take hspot)
    exact hfile

/-- Answers show weights of edges only. -/
theorem exists_edge_of_mem_weights_about {question : Question} {limits : QueryLimits} {w : Float}
    (hw : w ∈ (question.about limits g).weights) : ∃ e ∈ g.edges, e.weight = w := by
  cases question with
  | edges =>
    obtain ⟨shown, hshown, rfl⟩ := List.mem_map.mp hw
    obtain ⟨e, he, rfl⟩ := List.mem_map.mp hshown
    exact ⟨e, List.mem_of_mem_take he, rfl⟩
  | impact _ _ => cases hw
  | cycles => cases hw
  | hotspots => cases hw

end RepoGraph

/-! ### Stores -/

namespace Store

variable {limits : QueryLimits} {history : List (Instant × Operation)} {repo : String}
  {g : RepoGraph}

/-- The graph of a repository is what was written to it. -/
theorem graph_after (hg : (after limits history).graph? repo = some g) :
    g = RepoGraph.empty.writeAll (writesTo repo history) := by
  rw [← getD_graph?_after limits, hg]
  rfl

/-- **The names of repositories say something.** -/
theorem not_isBlank_of_graph?_after (hg : (after limits history).graph? repo = some g) :
    ¬isBlank repo := by
  have hne : contributions repo history ≠ [] :=
    (isSome_graph?_after limits repo history).mp (Option.isSome_iff_exists.mpr ⟨g, hg⟩)
  obtain ⟨b, hb⟩ := List.exists_mem_of_ne_nil _ hne
  obtain ⟨_, batch, -, hvalid, rfl, -⟩ := mem_contributions_iff.mp hb
  exact (Batch.validate_eq_ok_iff.mp hvalid).1

/-- **The edges of a store are valid.** -/
theorem valid_of_graph?_after (hg : (after limits history).graph? repo = some g) {e : Edge}
    (he : e ∈ g.edges) : e.Valid := by
  rw [graph_after hg, RepoGraph.edges_writeAll_empty] at he
  refine Ledger.valid_of_mem_ofWrites (fun w hw => ?_) he
  obtain ⟨now, op, -, b, hb, hw⟩ := mem_writesTo_iff.mp hw
  obtain ⟨batch, -, hvalid, -⟩ := Operation.contribution?_eq_some_iff.mp hb
  exact Accepted.valid_of_mem_writes hvalid hw

/-- The files of a store have names that say something, as they are at the ends of edges. -/
theorem not_isBlank_of_mem_files_after (hg : (after limits history).graph? repo = some g)
    {path : String} (hpath : path ∈ g.files.toList) : ¬isBlank path := by
  have hgraph := graph_after hg
  have hcoherent : g.Coherent := hgraph ▸ RepoGraph.coherent_writeAll_empty _
  have hlinked : g.Linked := hgraph ▸ RepoGraph.linked_writeAll_empty _
  obtain ⟨e, he, rfl | rfl⟩ := (hcoherent.mem_files_iff_exists_edge hlinked).mp hpath
  · exact (valid_of_graph?_after hg he).source
  · exact (valid_of_graph?_after hg he).target

/-- **Only valid data is stored and shown.** Whatever batches were ingested, accepted or not,

* the repositories of the store have names that say something, and all their edges are valid;
* every path that an answer shows says something, every weight in it is a number, and so no part
  of it is written as `null`. -/
theorem only_valid_data (limits : QueryLimits) (history : List (Instant × Operation)) :
    let s := after limits history
    (∀ repo g, s.graph? repo = some g → ¬isBlank repo ∧ ∀ e ∈ g.edges, e.Valid) ∧
    ∀ repo question,
      (∀ path ∈ (s.ask repo question).paths, ¬isBlank path) ∧
      (∀ w ∈ (s.ask repo question).weights, w.isFinite = true) ∧
      (s.ask repo question).toValue.Definite := by
  intro s
  refine ⟨fun repo g hg => ⟨not_isBlank_of_graph?_after hg, fun e => valid_of_graph?_after hg⟩,
    fun repo question => ?_⟩
  rw [Report.definite_toValue_iff, and_self]
  rcases hg : s.graph? repo with _ | g
  · rw [ask_of_absent hg]
    cases question <;> exact ⟨nofun, nofun⟩
  · have hcoherent : g.Coherent := graph_after hg ▸ RepoGraph.coherent_writeAll_empty _
    rw [ask_of_graph? hg]
    constructor
    · intro path hpath
      exact not_isBlank_of_mem_files_after hg (hcoherent.mem_files_of_mem_paths_about hpath)
    · intro w hw
      obtain ⟨e, he, rfl⟩ := RepoGraph.exists_edge_of_mem_weights_about hw
      exact (valid_of_graph?_after hg he).weight

end Store

end DepGraph
