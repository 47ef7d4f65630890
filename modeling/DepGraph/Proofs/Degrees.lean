import DepGraph.Proofs.Graph.Neighbours
import DepGraph.Proofs.Graph.Representation
import DepGraph.Proofs.Impact.Distance
import Mathlib.Algebra.BigOperators.Group.List.Lemmas

/-!
# What the ranking of hotspots ranks

A ranking of the files of a graph has every file once, with the number of files that it depends on
and the number of files that depend on it, and it is in the order of the sum of the two
(`DepGraph.RepoGraph.IsRanking`). There is only one, and what is reported as the hotspots of the
graph is the beginning of it (`DepGraph.RepoGraph.hotspots_exact`).

If all of it is reported, the degrees balance: each pair of files of which one depends on the other
is counted once on either side. They agree with the impacts, too: what a file has at distance one are
the files that it depends on, without itself (`DepGraph.RepoGraph.degrees_balance`).
-/

namespace DepGraph

/-- Files with a greater total come first, and files with the same total in the order of their
paths. -/
def Hotspot.Precedes (a b : Hotspot) : Prop :=
  b.totalDegree < a.totalDegree ∨ a.totalDegree = b.totalDegree ∧ a.path < b.path

namespace RepoGraph

open OrderDual (toDual)
open Finset

variable {g : RepoGraph}

/-! ### Rankings -/

/-- **A ranking of the files of a graph** by how many others they are entangled with. -/
structure IsRanking (g : RepoGraph) (ranking : List Hotspot) : Prop where
  /-- Every file is ranked, and only once. -/
  files : (ranking.map Hotspot.path).Perm g.files.toList
  /-- One degree is the number of files that the file depends on. -/
  outDegree : ∀ spot ∈ ranking, spot.outDegree = #(g.dependencies spot.path)
  /-- The other is the number of files that depend on it. -/
  inDegree : ∀ spot ∈ ranking, spot.inDegree = #(g.dependents spot.path)
  /-- The total is their sum. -/
  totalDegree : ∀ spot ∈ ranking, spot.totalDegree = spot.outDegree + spot.inDegree
  /-- Each file precedes all that come after it. -/
  precedes : ranking.Pairwise Hotspot.Precedes

/-- A file with its degrees, as a ranking has it. -/
theorem IsRanking.mem_iff {ranking : List Hotspot} (h : g.IsRanking ranking) {spot : Hotspot} :
    spot ∈ ranking ↔ ∃ path ∈ g.files.toList, spot = g.degrees path := by
  have hdegrees : ∀ spot ∈ ranking, spot = g.degrees spot.path := fun spot hspot => by
    have hout := (h.outDegree spot hspot).trans (g.outDegree_degrees _).symm
    have hin := (h.inDegree spot hspot).trans (g.inDegree_degrees _).symm
    have htotal := h.totalDegree spot hspot
    rw [hout, hin] at htotal
    rcases spot with ⟨path, outDegree, inDegree, totalDegree⟩
    exact congr (congr (congrArg (Hotspot.mk path) hout) hin) htotal
  constructor
  · exact fun hspot => ⟨spot.path, h.files.mem_iff.mp (List.mem_map_of_mem hspot), hdegrees _ hspot⟩
  · rintro ⟨path, hpath, rfl⟩
    obtain ⟨spot, hspot, rfl⟩ := List.mem_map.mp (h.files.mem_iff.mpr hpath)
    rwa [← hdegrees spot hspot]

/-- There is only one ranking of the files of a graph. -/
theorem IsRanking.unique {ranking ranking' : List Hotspot} (h : g.IsRanking ranking)
    (h' : g.IsRanking ranking') : ranking = ranking' := by
  have hascends : ranking.Pairwise (Ascends (fun spot => toDual spot.totalDegree) Hotspot.path) :=
    h.precedes
  exact eq_of_ascends hascends h'.precedes fun _ => h.mem_iff.trans h'.mem_iff.symm

/-- The paths of all files by their numbers are the list of files. -/
theorem map_path_range (g : RepoGraph) : (List.range g.nodeCount).map g.path = g.files.toList := by
  refine List.ext_getElem (by rw [List.length_map, List.length_range]; rfl) fun i _ hi => ?_
  rw [List.getElem_map, List.getElem_range, path, Roster.get?_eq_getElem?,
    List.getElem?_eq_getElem hi]
  rfl

/-- **The files of a graph are ranked** before the ranking is cut off. -/
theorem Coherent.isRanking_ranking (h : g.Coherent) : g.IsRanking g.ranking where
  files := by
    rw [← g.map_path_range, ranking]
    refine ((List.mergeSort_perm _ _).map Hotspot.path).trans ?_
    rw [List.map_map]
    rfl
  outDegree := fun spot hspot => by
    obtain ⟨path, -, rfl⟩ := h.mem_ranking_iff.mp hspot
    exact g.outDegree_degrees path
  inDegree := fun spot hspot => by
    obtain ⟨path, -, rfl⟩ := h.mem_ranking_iff.mp hspot
    exact g.inDegree_degrees path
  totalDegree := fun spot hspot => by
    obtain ⟨path, -, rfl⟩ := h.mem_ranking_iff.mp hspot
    rfl
  precedes := g.pairwise_ranking

/-- **Hotspots are exact.** There is one ranking of the files of a graph. As many of it are reported
as may be, from the beginning, and each of them precedes every file that is left out. -/
theorem hotspots_exact (writes : List Edge) :
    let g := empty.writeAll writes
    ∃ ranking, g.IsRanking ranking ∧ (∀ other, g.IsRanking other → other = ranking) ∧
      ∀ top, g.hotspots top = ranking.take (min top g.nodeCount) ∧
        (g.hotspots top).length = min top g.nodeCount ∧
        ∀ kept ∈ g.hotspots top, ∀ omitted ∈ ranking, omitted ∉ g.hotspots top →
          kept.Precedes omitted := by
  intro g
  have h : g.Coherent := coherent_writeAll_empty writes
  have hranking := h.isRanking_ranking
  refine ⟨g.ranking, hranking, fun other hother => hother.unique hranking, fun top => ⟨?_, ?_, ?_⟩⟩
  · rw [hotspots_eq_take, List.take_eq_take_min, g.length_ranking]
  · rw [hotspots_eq_take, List.length_take, g.length_ranking]
  · intro kept hkept omitted homitted hout
    rw [hotspots_eq_take] at hkept hout
    have hsplit := hranking.precedes
    rw [← List.take_append_drop top g.ranking] at hsplit homitted
    exact (List.pairwise_append.mp hsplit).2.2 kept hkept omitted
      ((List.mem_append.mp homitted).resolve_left hout)

/-! ### Balance -/

/-- Summing up along a ranking is summing up over the files. -/
theorem IsRanking.sum_map {ranking : List Hotspot} (h : g.IsRanking ranking)
    {degree : Hotspot → Nat} (count : String → Nat)
    (hdegree : ∀ spot ∈ ranking, degree spot = count spot.path) :
    (ranking.map degree).sum = ∑ path ∈ g.files.toList.toFinset, count path := by
  have hmap : ranking.map degree = (ranking.map Hotspot.path).map count := by
    rw [List.map_map]
    exact List.map_congr_left hdegree
  have hnodup : (ranking.map Hotspot.path).Nodup := h.files.nodup_iff.mpr g.files.nodup_toList
  rw [hmap, ← List.sum_toFinset count hnodup, List.toFinset_eq_of_perm _ _ h.files]

/-- **The impact at depth one** are the files that a file depends on, without the file itself. -/
theorem Coherent.length_impact_one (h : g.Coherent) (path : String) :
    (g.impact path 1).length = #((g.dependencies path).erase path) := by
  have hset : ((g.impact path 1).map AffectedFile.path).toFinset =
      (g.dependencies path).erase path := by
    ext other
    rw [List.mem_toFinset, List.mem_map, mem_erase, mem_dependencies, ← IsDistance.one_iff]
    constructor
    · rintro ⟨⟨_, distance⟩, hmem, rfl⟩
      obtain ⟨hne, hdepth, hdistance⟩ := h.mem_impact_iff.mp hmem
      obtain rfl : distance = 1 := Nat.le_antisymm hdepth (hdistance.pos hne)
      exact hdistance
    · intro hdistance
      have hne := (IsDistance.one_iff.mp hdistance).1
      exact ⟨⟨other, 1⟩, h.mem_impact_iff.mpr ⟨hne.symm, Nat.le_refl 1, hdistance⟩, rfl⟩
  rw [← hset, List.toFinset_card_of_nodup (h.nodup_paths_impact path 1), List.length_map]

/-- **Degrees balance.** If all files are ranked, their numbers of dependencies add up to the number
of pairs of files of which one depends on the other, and so do their numbers of dependents. No file
is without both. The impact of a file at depth one has as many files as the file depends on, but for
the file itself. -/
theorem degrees_balance (writes : List Edge) (top : Nat)
    (htop : (empty.writeAll writes).nodeCount ≤ top) :
    let g := empty.writeAll writes
    ((g.hotspots top).map Hotspot.path).Perm g.files.toList ∧
    ((g.hotspots top).map Hotspot.outDegree).sum = #g.dependences ∧
    ((g.hotspots top).map Hotspot.inDegree).sum = #g.dependences ∧
    ∀ spot ∈ g.hotspots top, 1 ≤ spot.totalDegree ∧
      (g.impact spot.path 1).length + (if g.DependsOn spot.path spot.path then 1 else 0) =
        spot.outDegree := by
  intro g
  have h : g.Coherent := coherent_writeAll_empty writes
  have hranking := h.isRanking_ranking
  rw [hotspots_eq_ranking htop]
  refine ⟨hranking.files, ?_, ?_, fun spot hspot => ⟨?_, ?_⟩⟩
  · rw [hranking.sum_map (fun path => #(g.dependencies path)) hranking.outDegree,
      h.sum_card_dependencies]
  · rw [hranking.sum_map (fun path => #(g.dependents path)) hranking.inDegree,
      h.sum_card_dependents]
  · have hfile : spot.path ∈ g.files.toList :=
      hranking.files.mem_iff.mp (List.mem_map_of_mem hspot)
    have hout := hranking.outDegree spot hspot
    have hin := hranking.inDegree spot hspot
    rw [hranking.totalDegree spot hspot, hout, hin]
    obtain ⟨other, hdepends | hdepends⟩ :=
      (h.mem_files_iff (linked_writeAll_empty writes)).mp hfile
    · have := card_pos.mpr ⟨other, mem_dependencies.mpr hdepends⟩
      omega
    · have := card_pos.mpr ⟨other, mem_dependents.mpr hdepends⟩
      omega
  · rw [h.length_impact_one, hranking.outDegree spot hspot]
    split
    case isTrue hself => exact card_erase_add_one (mem_dependencies.mpr hself)
    case isFalse hself => rw [erase_eq_of_notMem fun hmem => hself (mem_dependencies.mp hmem),
        Nat.add_zero]

/-- A file that depends on itself and, in two ways, on another, on which a third file depends. -/
theorem degrees_balance_entangled :
    let g := empty.writeAll
      [⟨"a", "a", "import", 1.0, "run", ⟨0, 0⟩⟩, ⟨"a", "b", "import", 1.0, "run", ⟨0, 0⟩⟩,
        ⟨"a", "b", "call", 0.5, "run", ⟨0, 0⟩⟩, ⟨"c", "b", "import", 1.0, "run", ⟨0, 0⟩⟩]
    g.nodeCount ≤ 20 ∧ #g.dependences = 3 ∧
    ((g.hotspots 20).map Hotspot.path).Perm g.files.toList ∧
    ((g.hotspots 20).map Hotspot.outDegree).sum = #g.dependences ∧
    ((g.hotspots 20).map Hotspot.inDegree).sum = #g.dependences ∧
    ∀ spot ∈ g.hotspots 20, 1 ≤ spot.totalDegree ∧
      (g.impact spot.path 1).length + (if g.DependsOn spot.path spot.path then 1 else 0) =
        spot.outDegree := by
  intro g
  have hsub : g.files.toList ⊆ ["a", "b", "c"] := fun path hpath => by
    rcases mem_files_writeAll.mp hpath with hpath | ⟨e, he, hend⟩
    · exact absurd hpath List.not_mem_nil
    · simp only [List.mem_cons, List.not_mem_nil, or_false] at he
      rcases he with rfl | rfl | rfl | rfl <;> rcases hend with rfl | rfl <;> simp
  have hcount : g.nodeCount ≤ 20 :=
    ((g.files.nodup_toList.subperm hsub).length_le).trans (by decide)
  have hpairs : g.dependences =
      ((g.edges.map Edge.key).map fun key => (key.source, key.target)).toFinset := by
    rw [List.map_map]
    rfl
  refine ⟨hcount, ?_, degrees_balance _ 20 hcount⟩
  rw [hpairs, edges_writeAll_empty, Ledger.keys_ofWrites]
  decide

end RepoGraph

end DepGraph
