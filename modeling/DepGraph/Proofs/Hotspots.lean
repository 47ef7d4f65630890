import DepGraph.Graph.Hotspots
import DepGraph.Proofs.Graph.Dependence
import DepGraph.Proofs.Ranking
import Mathlib.Data.Set.Card

/-!
# The ranking of hotspots

The degrees of a file are counted along its edges, with parallel edges sorted out. What they
come to is said here without edges: how many files the file depends on, and how many files
depend on it (`DepGraph.RepoGraph.degrees`, `DepGraph.RepoGraph.Coherent.hotspot_eq`).

The ranking before it is cut off (`DepGraph.RepoGraph.ranking`) consists of the files of the
graph, each once and with its degrees (`DepGraph.RepoGraph.Coherent.mem_ranking_iff`), and is
ranked by the sum of the two, the greatest first
(`DepGraph.RepoGraph.pairwise_ranking`).
-/

namespace DepGraph

namespace RepoGraph

open OrderDual (toDual)

/-- **A file with its degrees**: how many files it depends on, and how many depend on it. -/
noncomputable def degrees (g : RepoGraph) (path : String) : Hotspot :=
  ⟨path, {other | g.DependsOn path other}.ncard, {other | g.DependsOn other path}.ncard,
    {other | g.DependsOn path other}.ncard + {other | g.DependsOn other path}.ncard⟩

/-- All files of the graph with their degrees, the most entangled first. -/
def ranking (g : RepoGraph) : List Hotspot :=
  ((List.range g.nodeCount).map g.hotspot).mergeSort Hotspot.before

theorem hotspots_eq_take (g : RepoGraph) (top : Nat) : g.hotspots top = g.ranking.take top := rfl

theorem length_ranking (g : RepoGraph) : g.ranking.length = g.nodeCount := by
  rw [ranking, List.length_mergeSort, List.length_map, List.length_range]

/-- A ranking that may hold all files is not cut off. -/
theorem hotspots_eq_ranking {g : RepoGraph} {top : Nat} (h : g.nodeCount ≤ top) :
    g.hotspots top = g.ranking := by
  rw [hotspots_eq_take, List.take_of_length_le (by rwa [length_ranking])]

/-- **Numbers of files are counted by their paths**: if a list holds the numbers of the files
with some property, there are as many without repetitions as there are such paths. -/
theorem length_distinct {g : RepoGraph} {numbers : List Nat} {P : String → Prop}
    (hnumbers : ∀ file, file ∈ numbers ↔ file < g.nodeCount ∧ P (g.path file))
    (hfiles : ∀ path, P path → path ∈ g.files.toList) :
    (distinct numbers).length = {path | P path}.ncard := by
  have hmem : ∀ file, file ∈ (distinct numbers).toFinset ↔ file ∈ numbers := fun file => by
    rw [List.mem_toFinset, mem_distinct]
  have hset : {path | P path} = g.path '' ((distinct numbers).toFinset : Set Nat) := by
    ext path
    constructor
    · intro hpath
      obtain ⟨file, hfile⟩ := Roster.mem_toList_iff.mp (hfiles path hpath)
      obtain rfl := path_of_number? hfile
      have hfile := (hnumbers file).mpr ⟨Roster.lt_size_of_number? hfile, hpath⟩
      exact ⟨file, (hmem file).mpr hfile, rfl⟩
    · rintro ⟨file, hfile, rfl⟩
      exact ((hnumbers file).mp ((hmem file).mp hfile)).2
  have hinj : Set.InjOn g.path ((distinct numbers).toFinset : Set Nat) := by
    intro a ha b hb hab
    have ha := (hnumbers a).mp ((hmem a).mp ha)
    have hb := (hnumbers b).mp ((hmem b).mp hb)
    exact path_inj ha.1 hb.1 hab
  have hnodup : (distinct numbers).Nodup := (pairwise_distinct numbers).imp Nat.ne_of_lt
  rw [hset, hinj.ncard_image, Set.ncard_coe_finset, List.toFinset_card_of_nodup hnodup]

namespace Coherent

variable {g : RepoGraph}

/-- **The degrees of a file count files**, and not edges. -/
theorem hotspot_eq (h : g.Coherent) {file : Nat} (hfile : file < g.nodeCount) :
    g.hotspot file = g.degrees (g.path file) := by
  have hout : (distinct (g.targets file)).length =
      {other | g.DependsOn (g.path file) other}.ncard :=
    length_distinct (fun _ => h.mem_targets_iff hfile) fun _ hdepends =>
      (h.mem_files_of_dependsOn hdepends).2
  have hinto : (distinct (g.sources file)).length =
      {other | g.DependsOn other (g.path file)}.ncard :=
    length_distinct (fun _ => h.mem_sources_iff hfile) fun _ hdepends =>
      (h.mem_files_of_dependsOn hdepends).1
  rw [hotspot, degrees, hout, hinto]

/-- **The ranking consists of the files of the graph**, with their degrees. -/
theorem mem_ranking_iff (h : g.Coherent) {spot : Hotspot} :
    spot ∈ g.ranking ↔ ∃ path ∈ g.files.toList, spot = g.degrees path := by
  rw [ranking, List.mem_mergeSort, List.mem_map]
  constructor
  · rintro ⟨file, hfile, rfl⟩
    have hlt : file < g.nodeCount := List.mem_range.mp hfile
    exact ⟨g.path file, Roster.mem_toList_iff.mpr ⟨file, number?_path hlt⟩, h.hotspot_eq hlt⟩
  · rintro ⟨path, hpath, rfl⟩
    obtain ⟨file, hfile⟩ := Roster.mem_toList_iff.mp hpath
    have hlt : file < g.nodeCount := Roster.lt_size_of_number? hfile
    obtain rfl := path_of_number? hfile
    exact ⟨file, List.mem_range.mpr hlt, h.hotspot_eq hlt⟩

end Coherent

/-- **The ranking is ranked by the sum of the degrees**, the greatest first, and no file is in
it twice. -/
theorem pairwise_ranking (g : RepoGraph) :
    g.ranking.Pairwise (Ascends (fun spot => toDual spot.totalDegree) Hotspot.path) := by
  refine pairwise_ascends_mergeSort (fun a b => ?_) ?_
  · simp only [Hotspot.before, Bool.or_eq_true, Bool.and_eq_true, decide_eq_true_eq, beq_iff_eq,
      OrderDual.toDual_lt_toDual, OrderDual.toDual_inj]
  · rw [List.map_map]
    refine List.nodup_range.map_on fun a ha b hb hab => ?_
    exact path_inj (List.mem_range.mp ha) (List.mem_range.mp hb) hab

end RepoGraph

end DepGraph
