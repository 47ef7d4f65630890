import DepGraph.Proofs.Graph.Coherent

/-!
# Which file depends on which

Most questions about a graph look through its edges at the bare relation between files:
one file depends on another if some edge, of whatever type, leads from the one to the other
(`DepGraph.RepoGraph.DependsOn`). This file ties the numbers that the queries walk along to
that relation.

The neighbours of a file are collected once for every edge, so they come with repetitions.
`DepGraph.RepoGraph.distinct` sorts them and keeps one of each
(`DepGraph.RepoGraph.mem_distinct`, `DepGraph.RepoGraph.pairwise_distinct`).
-/

namespace DepGraph

namespace RepoGraph

/-! ### Sorting and keeping one of each -/

theorem eraseReps_loop (a : Nat) (l acc : List Nat) :
    List.eraseRepsBy.loop (· == ·) a l acc = acc.reverse ++ (a :: l).eraseReps := by
  induction l generalizing a acc with
  | nil => simp [List.eraseReps, List.eraseRepsBy, List.eraseRepsBy.loop]
  | cons b l ih =>
    rw [List.eraseReps, List.eraseRepsBy, List.eraseRepsBy.loop, List.eraseRepsBy.loop]
    split
    · rw [ih, ih]
      rfl
    · rw [ih, ih]
      simp

theorem eraseReps_cons_cons (a b : Nat) (l : List Nat) :
    (a :: b :: l).eraseReps =
      if a = b then (b :: l).eraseReps else a :: (b :: l).eraseReps := by
  rw [List.eraseReps, List.eraseRepsBy, List.eraseRepsBy.loop]
  split
  case h_1 h =>
    rw [eraseReps_loop, if_pos (by simpa using h), show a = b by simpa using h]
    rfl
  case h_2 h =>
    rw [eraseReps_loop, if_neg (by simpa using h)]
    rfl

/-- Erasing repetitions loses nothing. -/
theorem mem_eraseReps {n : Nat} {l : List Nat} : n ∈ l.eraseReps ↔ n ∈ l := by
  induction l with
  | nil => rfl
  | cons a l ih =>
    cases l with
    | nil => rfl
    | cons b l =>
      rw [eraseReps_cons_cons]
      split
      case isTrue h =>
        subst h
        rw [ih]
        simp
      case isFalse => rw [List.mem_cons, List.mem_cons, ih]

/-- In an ascending list equal numbers stand together, so that none is left twice. -/
theorem pairwise_eraseReps {l : List Nat} (h : l.Pairwise (· ≤ ·)) :
    l.eraseReps.Pairwise (· < ·) := by
  induction l with
  | nil => exact List.Pairwise.nil
  | cons a l ih =>
    cases l with
    | nil => exact List.pairwise_singleton _ _
    | cons b l =>
      have hrest := List.pairwise_cons.mp h
      rw [eraseReps_cons_cons]
      split
      case isTrue => exact ih hrest.2
      case isFalse hne =>
        refine List.pairwise_cons.mpr ⟨fun n hn => ?_, ih hrest.2⟩
        have hab : a ≤ b := hrest.1 b (List.mem_cons_self ..)
        have hbn : b ≤ n := by
          rcases List.mem_cons.mp (mem_eraseReps.mp hn) with rfl | hn
          · exact Nat.le_refl _
          · exact (List.pairwise_cons.mp hrest.2).1 n hn
        omega

/-- **Sorting and keeping one of each** loses nothing … -/
theorem mem_distinct {n : Nat} {numbers : List Nat} : n ∈ distinct numbers ↔ n ∈ numbers := by
  rw [distinct, mem_eraseReps]
  exact (List.mergeSort_perm _ _).mem_iff

/-- … and leaves the numbers in strictly ascending order. -/
theorem pairwise_distinct (numbers : List Nat) : (distinct numbers).Pairwise (· < ·) := by
  have hsorted : (numbers.mergeSort fun a b => decide (a ≤ b)).Pairwise
      fun a b => decide (a ≤ b) = true :=
    List.pairwise_mergeSort (fun a b c => by simpa using Nat.le_trans)
      (fun a b => by simpa using Nat.le_total a b) numbers
  exact pairwise_eraseReps (hsorted.imp fun hab => by simpa using hab)

/-! ### Dependence -/

/-- **One file depends on another** if some edge leads from the one to the other. -/
def DependsOn (g : RepoGraph) (a b : String) : Prop :=
  ∃ e ∈ g.edges, e.source = a ∧ e.target = b

namespace Coherent

variable {g : RepoGraph}

theorem dependsOn_iff (h : g.Coherent) {a b : String} :
    g.DependsOn a b ↔
      ∃ link ∈ g.links.toList, g.path link.source = a ∧ g.path link.target = b := by
  constructor
  · rintro ⟨_, he, rfl, rfl⟩
    obtain ⟨link, hlink, detail, rfl⟩ := exists_assemble_of_mem_edges he
    exact ⟨link, hlink, rfl, rfl⟩
  · rintro ⟨link, hlink, rfl, rfl⟩
    have hkey : g.keyOf link ∈ g.edges.map Edge.key :=
      h.keys_edges.symm ▸ List.mem_map_of_mem hlink
    obtain ⟨e, he, hkey⟩ := List.mem_map.mp hkey
    exact ⟨e, he, congrArg EdgeKey.source hkey, congrArg EdgeKey.target hkey⟩

/-- Files that depend on another or are depended on are files of the graph. -/
theorem mem_files_of_dependsOn (h : g.Coherent) {a b : String} (hab : g.DependsOn a b) :
    a ∈ g.files.toList ∧ b ∈ g.files.toList := by
  obtain ⟨link, hlink, rfl, rfl⟩ := h.dependsOn_iff.mp hab
  exact ⟨Roster.mem_toList_iff.mpr ⟨_, number?_path (h.source_lt link hlink)⟩,
    Roster.mem_toList_iff.mpr ⟨_, number?_path (h.target_lt link hlink)⟩⟩

end Coherent

/-! ### Walking along the lists of a file -/

/-- **What is found along the numbers of a file** is found in the order of all numbers, too: with
what has another file at the end left out, and backwards. -/
theorem filterMap_numbersAt {α : Type} {links : List Link} {theEnd : Link → Nat} {file : Nat}
    {look : Nat → Option α} {p : α → Bool}
    (hlook : ∀ number link, links[number]? = some link →
      ∃ a, look number = some a ∧ (p a = true ↔ theEnd link = file)) :
    (numbersAt links theEnd file).filterMap look =
      (((List.range links.length).filterMap look).filter p).reverse := by
  have hrange : List.range links.length = links.zipIdx.map Prod.snd := by
    rw [List.zipIdx_map_snd, List.range_eq_range']
  rw [numbersAt, List.filterMap_reverse, List.filterMap_map, hrange, List.filterMap_map,
    List.filter_filterMap, List.filterMap_filter]
  refine congrArg List.reverse (List.filterMap_congr ?_)
  rintro ⟨link, number⟩ hentry
  obtain ⟨a, ha, hp⟩ := hlook number link (List.mk_mem_zipIdx_iff_getElem?.mp hentry)
  dsimp only [Function.comp_apply]
  rw [ha]
  by_cases hfile : theEnd link = file
  · rw [if_pos (decide_eq_true hfile), Option.filter_some, if_pos (hp.mpr hfile)]
  · rw [if_neg (by simpa using hfile), Option.filter_some, if_neg fun hpa => hfile (hp.mp hpa)]

/-- The links with the numbers of a file are those that have it at the given end, newest
first. -/
theorem filterMap_getElem?_numbersAt (links : List Link) (theEnd : Link → Nat) (file : Nat) :
    (numbersAt links theEnd file).filterMap (fun number => links[number]?) =
      (links.filter fun link => theEnd link = file).reverse := by
  rw [filterMap_numbersAt fun _ link hlink => ⟨link, hlink, decide_eq_true_iff⟩,
    filterMap_getElem?_range links (Nat.le_refl _)]

/-- **Walking along the list of a file** to the other ends of its edges. -/
theorem Threads.neighbours {lists : Array (List Nat)} {links : Roster Link} {theEnd : Link → Nat}
    {files : Nat} (h : Threads lists links.toList theEnd files) {file : Nat} (hfile : file < files)
    (other : Link → Nat) :
    (lists[file]?.getD []).filterMap (fun number => (links.get? number).map other) =
      ((links.toList.filter fun link => theEnd link = file).map other).reverse := by
  rw [h, if_pos hfile, Option.getD_some, ← List.map_reverse, ← filterMap_getElem?_numbersAt,
    List.map_filterMap]
  simp only [Roster.get?_eq_getElem?]

/-- The other ends of the edges that a list goes along. -/
theorem Threads.mem_neighbours_iff {lists : Array (List Nat)} {links : Roster Link}
    {theEnd : Link → Nat} {files : Nat} (h : Threads lists links.toList theEnd files) {file : Nat}
    (hfile : file < files) {other : Link → Nat} {n : Nat} :
    n ∈ (lists[file]?.getD []).filterMap (fun number => (links.get? number).map other) ↔
      ∃ link ∈ links.toList, theEnd link = file ∧ other link = n := by
  rw [h.neighbours hfile other, List.mem_reverse, List.mem_map]
  simp only [List.mem_filter, decide_eq_true_eq, and_assoc]

namespace Coherent

variable {g : RepoGraph} {file : Nat}

/-- **The targets of a file** are the files that it depends on. -/
theorem mem_targets_iff (h : g.Coherent) (hfile : file < g.nodeCount) {target : Nat} :
    target ∈ g.targets file ↔
      target < g.nodeCount ∧ g.DependsOn (g.path file) (g.path target) := by
  have hlist : target ∈ g.targets file ↔
      ∃ link ∈ g.links.toList, link.source = file ∧ link.target = target :=
    h.outgoing.mem_neighbours_iff hfile
  rw [hlist, h.dependsOn_iff]
  constructor
  · rintro ⟨link, hlink, rfl, rfl⟩
    exact ⟨h.target_lt link hlink, link, hlink, rfl, rfl⟩
  · rintro ⟨htarget, link, hlink, hsource, hpath⟩
    exact ⟨link, hlink, path_inj (h.source_lt link hlink) hfile hsource,
      path_inj (h.target_lt link hlink) htarget hpath⟩

/-- **The sources of a file** are the files that depend on it. -/
theorem mem_sources_iff (h : g.Coherent) (hfile : file < g.nodeCount) {source : Nat} :
    source ∈ g.sources file ↔
      source < g.nodeCount ∧ g.DependsOn (g.path source) (g.path file) := by
  have hlist : source ∈ g.sources file ↔
      ∃ link ∈ g.links.toList, link.target = file ∧ link.source = source :=
    h.incoming.mem_neighbours_iff hfile
  rw [hlist, h.dependsOn_iff]
  constructor
  · rintro ⟨link, hlink, rfl, rfl⟩
    exact ⟨h.source_lt link hlink, link, hlink, rfl, rfl⟩
  · rintro ⟨hsource, link, hlink, hpath, htarget⟩
    exact ⟨link, hlink, path_inj (h.target_lt link hlink) hfile htarget,
      path_inj (h.source_lt link hlink) hsource hpath⟩

end Coherent

end RepoGraph

end DepGraph
