import DepGraph.Proofs.Cycles.Enumeration
import DepGraph.Proofs.Graph.Growth
import DepGraph.Proofs.Graph.Representation
import DepGraph.Proofs.Hotspots
import DepGraph.Proofs.Impact.Distance

/-!
# Answers grow with the graph

Whatever is written to a graph, what was answered about it before stays true: the list of edges
only gets longer at its end, what a file reached it still reaches and not from further away, a
cycle remains one, and no file comes to depend on fewer files or to have fewer files depend on it.
All but the first follow from the fact that a dependence, once there, is there for ever
(`DepGraph.RepoGraph.DependsOn.writeAll`), although the numbers of the files, their ranks and the
orders in which the searches come across them may all be different in the larger graph.

Where an answer is cut off, a later one can lack what an earlier one had, because something that is
less has come in between. So it is said of the later answer that it has not been cut off
(`DepGraph.RepoGraph.answers_grow`).
-/

namespace DepGraph

namespace RepoGraph

variable {g g' : RepoGraph}

/-- **With more dependences, nothing is further away.** -/
theorem IsDistance.exists_le (hdepends : ∀ a b, g.DependsOn a b → g'.DependsOn a b)
    {a b : String} {distance : Nat} (h : g.IsDistance a b distance) :
    ∃ distance' ≤ distance, g'.IsDistance a b distance' := by
  have hwalk : g'.Walk distance a b := h.walk.imp hdepends
  obtain ⟨distance', hdistance'⟩ := hwalk.exists_isDistance
  exact ⟨distance', hdistance'.le _ hwalk, hdistance'⟩

namespace Coherent

/-- What was in an impact still is, and not further away. -/
theorem exists_mem_impact (h : g.Coherent) (h' : g'.Coherent)
    (hdepends : ∀ a b, g.DependsOn a b → g'.DependsOn a b) {start : String} {maxDepth : Nat}
    {f : AffectedFile} (hf : f ∈ g.impact start maxDepth) :
    ∃ f' ∈ g'.impact start maxDepth, f'.path = f.path ∧ f'.distance ≤ f.distance := by
  obtain ⟨hne, hdepth, hdistance⟩ := h.mem_impact_iff.mp hf
  obtain ⟨distance', hle, hdistance'⟩ := hdistance.exists_le hdepends
  exact ⟨⟨f.path, distance'⟩, h'.mem_impact_iff.mpr ⟨hne, hle.trans hdepth, hdistance'⟩, rfl, hle⟩

/-- There are only so many files that can stand in some relation to a file. -/
theorem finite_of_imp_mem_files {P : String → Prop} (hP : ∀ path, P path → path ∈ g.files.toList) :
    {path | P path}.Finite :=
  (List.finite_toSet g.files.toList).subset hP

/-- **With more dependences, no degree is less.** -/
theorem degrees_le (h' : g'.Coherent) (hdepends : ∀ a b, g.DependsOn a b → g'.DependsOn a b)
    (path : String) :
    (g.degrees path).outDegree ≤ (g'.degrees path).outDegree ∧
      (g.degrees path).inDegree ≤ (g'.degrees path).inDegree :=
  ⟨Set.ncard_le_ncard (fun other => hdepends path other)
      (finite_of_imp_mem_files fun _ hab => (h'.mem_files_of_dependsOn hab).2),
    Set.ncard_le_ncard (fun other => hdepends other path)
      (finite_of_imp_mem_files fun _ hab => (h'.mem_files_of_dependsOn hab).1)⟩

end Coherent

/-- **Answers grow with the graph.** Of a graph and what further writes make of it,

* the edges that were listed are still listed, in their places;
* what was in the impact of a file, to whatever depth, still is, and is not further away;
* a cycle that was reported, whatever the cap was, still is if the cap is not reached;
* a file that was ranked still is, if all files may be ranked, and none of its degrees is less. -/
theorem answers_grow (writes more : List Edge) :
    let g := empty.writeAll writes
    let g' := g.writeAll more
    g.edges.map Edge.key <+: g'.edges.map Edge.key ∧
    (∀ start maxDepth, ∀ f ∈ g.impact start maxDepth,
      ∃ f' ∈ g'.impact start maxDepth, f'.path = f.path ∧ f'.distance ≤ f.distance) ∧
    (∀ least greatest limit limit', (g'.cycles ⟨least, greatest, limit'⟩).length < limit' →
      ∀ told ∈ g.cycles ⟨least, greatest, limit⟩, told ∈ g'.cycles ⟨least, greatest, limit'⟩) ∧
    ∀ top top', g'.nodeCount ≤ top' → ∀ spot ∈ g.hotspots top,
      ∃ spot' ∈ g'.hotspots top', spot'.path = spot.path ∧
        spot.outDegree ≤ spot'.outDegree ∧ spot.inDegree ≤ spot'.inDegree := by
  intro g g'
  have h : g.Coherent := coherent_writeAll_empty writes
  have h' : g'.Coherent := h.writeAll more
  have hdepends : ∀ a b, g.DependsOn a b → g'.DependsOn a b := fun _ _ hab => hab.writeAll h more
  refine ⟨(h.growsInto_writeAll more).keys_isPrefix,
    fun start maxDepth f hf => h.exists_mem_impact h' hdepends hf, ?_, ?_⟩
  · intro least greatest limit limit' hlt told htold
    exact h'.mem_cycles_of_lt_limit hlt ((h.tellsCycle_of_mem_cycles htold).imp hdepends)
  · intro top top' htop spot hspot
    obtain ⟨path, hpath, rfl⟩ := h.mem_ranking_iff.mp (List.mem_of_mem_take hspot)
    have hpath' : path ∈ g'.files.toList := mem_files_writeAll.mpr (Or.inl hpath)
    rw [hotspots_eq_ranking htop]
    exact ⟨g'.degrees path, h'.mem_ranking_iff.mpr ⟨path, hpath', rfl⟩, rfl,
      h'.degrees_le hdepends path⟩

end RepoGraph

end DepGraph
