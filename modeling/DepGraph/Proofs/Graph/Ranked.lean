import DepGraph.Graph.Cycles
import DepGraph.Proofs.Graph.Dependence
import Mathlib.Data.String.Basic

/-!
# The ranked form of a graph

In the ranked form of a graph a file is known by the *rank* of its path, its place among all
paths in ascending order. Comparing ranks is comparing paths
(`DepGraph.RepoGraph.path_ranked_lt_iff`), every file of the graph has a rank
(`DepGraph.RepoGraph.exists_rank`), and the successors of a file are the ranks of the files
that it depends on, each once and in ascending order
(`DepGraph.RepoGraph.Coherent.mem_next_ranked`, `DepGraph.RepoGraph.Coherent.orderly_ranked`).

What a search needs to know of a ranked graph, whether or not it comes from a graph, is
`DepGraph.Ranked.Orderly`.

Paths are compared code point by code point, as strings are. In UTF-8 this is the order of
their bytes.
-/

namespace DepGraph

/-- **An orderly ranked graph**: successors are files, and each file has them once and in
ascending order. -/
structure Ranked.Orderly (r : Ranked) : Prop where
  /-- Successors are files. -/
  lt_size : ∀ file, ∀ next ∈ r.next file, next < r.files.size
  /-- Successors ascend. -/
  ascending : ∀ file, (r.next file).Pairwise (· < ·)

namespace RepoGraph

/-- The paths of all files in ascending order. -/
def sortedPaths (g : RepoGraph) : List String :=
  g.files.toList.mergeSort fun a b => decide (a ≤ b)

/-- The successors of a file that is known by its path, by their ranks. -/
def rankedSuccessors (g : RepoGraph) (path : String) : List Nat :=
  match g.files.number? path with
  | some file =>
    distinct ((g.targets file).filterMap fun target => g.ranked.files.number? (g.path target))
  | none => []

theorem mem_sortedPaths {g : RepoGraph} {path : String} :
    path ∈ g.sortedPaths ↔ path ∈ g.files.toList :=
  (List.mergeSort_perm _ _).mem_iff

/-- Paths ascend strictly, since no file is there twice. -/
theorem pairwise_sortedPaths (g : RepoGraph) : g.sortedPaths.Pairwise (· < ·) := by
  have hsorted : g.sortedPaths.Pairwise fun a b => decide (a ≤ b) = true :=
    List.pairwise_mergeSort (fun a b c hab hbc => by simp at *; exact String.le_trans hab hbc)
      (fun a b => by simpa using String.le_total a b) g.files.toList
  have hnodup : g.sortedPaths.Nodup :=
    (List.mergeSort_perm _ _).nodup_iff.mpr g.files.nodup_toList
  refine (hsorted.and hnodup).imp fun {a b} hab => ?_
  exact lt_of_le_of_ne (by simpa using hab.1) hab.2

theorem toList_ranked_files (g : RepoGraph) : g.ranked.files.toList = g.sortedPaths :=
  Roster.toList_ofList_of_nodup (g.pairwise_sortedPaths.imp ne_of_lt)

/-! ### Paths and their ranks -/

/-- Every rank is that of a path. -/
theorem number?_path_ranked {g : RepoGraph} {file : Nat} (h : file < g.ranked.files.size) :
    g.ranked.files.number? (g.ranked.path file) = some file :=
  Roster.number?_getD_get? h ""

theorem path_ranked_of_number? {g : RepoGraph} {path : String} {file : Nat}
    (h : g.ranked.files.number? path = some file) : g.ranked.path file = path :=
  Roster.getD_get?_of_number? h ""

/-- The path of a rank stands at that place among the sorted paths. -/
theorem getElem?_sortedPaths {g : RepoGraph} {file : Nat} (h : file < g.ranked.files.size) :
    g.sortedPaths[file]? = some (g.ranked.path file) := by
  rw [← toList_ranked_files]
  exact Roster.number?_eq_some_iff_getElem?.mp (number?_path_ranked h)

theorem path_ranked_mem {g : RepoGraph} {file : Nat} (h : file < g.ranked.files.size) :
    g.ranked.path file ∈ g.files.toList :=
  mem_sortedPaths.mp (List.mem_of_getElem? (getElem?_sortedPaths h))

/-- **Every file has a rank.** -/
theorem exists_rank {g : RepoGraph} {path : String} (h : path ∈ g.files.toList) :
    ∃ file < g.ranked.files.size, g.ranked.path file = path := by
  rw [← mem_sortedPaths, ← toList_ranked_files, Roster.mem_toList_iff] at h
  obtain ⟨file, hfile⟩ := h
  exact ⟨file, Roster.lt_size_of_number? hfile, path_ranked_of_number? hfile⟩

theorem path_ranked_lt {g : RepoGraph} {a b : Nat} (hb : b < g.ranked.files.size) (hab : a < b) :
    g.ranked.path a < g.ranked.path b := by
  have ha := getElem?_sortedPaths (Nat.lt_trans hab hb)
  obtain ⟨hlta, hpatha⟩ := List.getElem?_eq_some_iff.mp ha
  obtain ⟨hltb, hpathb⟩ := List.getElem?_eq_some_iff.mp (getElem?_sortedPaths hb)
  rw [← hpatha, ← hpathb]
  exact List.pairwise_iff_getElem.mp g.pairwise_sortedPaths a b hlta hltb hab

/-- **Comparing ranks is comparing paths.** -/
theorem path_ranked_lt_iff {g : RepoGraph} {a b : Nat} (ha : a < g.ranked.files.size)
    (hb : b < g.ranked.files.size) : g.ranked.path a < g.ranked.path b ↔ a < b := by
  refine ⟨fun h => ?_, path_ranked_lt hb⟩
  rcases Nat.lt_trichotomy a b with hab | rfl | hba
  · exact hab
  · exact absurd h (lt_irrefl _)
  · exact absurd h (lt_asymm (path_ranked_lt ha hba))

theorem path_ranked_inj {g : RepoGraph} {a b : Nat} (ha : a < g.ranked.files.size)
    (hb : b < g.ranked.files.size) (h : g.ranked.path a = g.ranked.path b) : a = b :=
  Option.some.inj ((number?_path_ranked ha).symm.trans (h ▸ number?_path_ranked hb))

/-! ### Successors -/

theorem next_ranked (g : RepoGraph) (file : Nat) :
    g.ranked.next file = ((g.sortedPaths.map g.rankedSuccessors)[file]?).getD [] := by
  rw [Ranked.next, Array.getD_eq_getD_getElem?]
  exact congrArg (Option.getD · []) List.getElem?_toArray

theorem lt_size_of_mem_next_ranked {g : RepoGraph} {file next : Nat}
    (h : next ∈ g.ranked.next file) : file < g.ranked.files.size := by
  rw [next_ranked, ← toList_ranked_files] at h
  by_contra hge
  have hlength : g.ranked.files.toList.length ≤ file := Nat.le_of_not_lt hge
  rw [List.getElem?_eq_none (by rwa [List.length_map])] at h
  exact List.not_mem_nil h

theorem next_ranked_eq {g : RepoGraph} {file : Nat} (h : file < g.ranked.files.size) :
    g.ranked.next file = g.rankedSuccessors (g.ranked.path file) := by
  rw [next_ranked, List.getElem?_map, getElem?_sortedPaths h]
  rfl

namespace Coherent

variable {g : RepoGraph}

/-- The ranked successors of a file are the ranks of the files that it depends on. -/
theorem mem_rankedSuccessors (h : g.Coherent) {path : String} (hpath : path ∈ g.files.toList)
    {next : Nat} :
    next ∈ g.rankedSuccessors path ↔
      next < g.ranked.files.size ∧ g.DependsOn path (g.ranked.path next) := by
  obtain ⟨file, hfile⟩ := Roster.mem_toList_iff.mp hpath
  have hlt : file < g.nodeCount := Roster.lt_size_of_number? hfile
  obtain rfl := path_of_number? hfile
  rw [rankedSuccessors, hfile]
  simp only [mem_distinct, List.mem_filterMap, h.mem_targets_iff hlt]
  constructor
  · rintro ⟨target, ⟨-, hdepends⟩, hnext⟩
    rw [path_ranked_of_number? hnext]
    exact ⟨Roster.lt_size_of_number? hnext, hdepends⟩
  · rintro ⟨hnext, hdepends⟩
    obtain ⟨target, htarget⟩ := Roster.mem_toList_iff.mp (h.mem_files_of_dependsOn hdepends).2
    refine ⟨target, ⟨Roster.lt_size_of_number? htarget, ?_⟩, ?_⟩
    · rwa [path_of_number? htarget]
    · rw [path_of_number? htarget]
      exact number?_path_ranked hnext

/-- **The successors of a file** are the files that it depends on. -/
theorem mem_next_ranked (h : g.Coherent) {file next : Nat} :
    next ∈ g.ranked.next file ↔ file < g.ranked.files.size ∧ next < g.ranked.files.size ∧
      g.DependsOn (g.ranked.path file) (g.ranked.path next) := by
  constructor
  · intro hnext
    have hfile := lt_size_of_mem_next_ranked hnext
    rw [next_ranked_eq hfile] at hnext
    exact ⟨hfile, (h.mem_rankedSuccessors (path_ranked_mem hfile)).mp hnext⟩
  · rintro ⟨hfile, hnext⟩
    rw [next_ranked_eq hfile]
    exact (h.mem_rankedSuccessors (path_ranked_mem hfile)).mpr hnext

/-- **The ranked form of a graph is orderly.** -/
theorem orderly_ranked (h : g.Coherent) : g.ranked.Orderly where
  lt_size _ _ hnext := (h.mem_next_ranked.mp hnext).2.1
  ascending file := by
    rcases Nat.lt_or_ge file g.ranked.files.size with hfile | hfile
    · rw [next_ranked_eq hfile, rankedSuccessors]
      split
      · exact pairwise_distinct _
      · exact List.Pairwise.nil
    · have hnil : g.ranked.next file = [] := List.eq_nil_iff_forall_not_mem.mpr fun next hnext =>
        absurd (lt_size_of_mem_next_ranked hnext) (Nat.not_lt.mpr hfile)
      rw [hnil]
      exact List.Pairwise.nil

end Coherent

end RepoGraph

end DepGraph
