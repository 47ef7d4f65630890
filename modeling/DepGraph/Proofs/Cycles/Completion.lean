import DepGraph.Proofs.Cycles.Onward
import Mathlib.Data.List.Chain

/-!
# What completes a path

`DepGraph.Ranked.onward` lists the cycles that complete a path. Here they are told apart from
all other lists: a cycle that completes a path consists of the path, of further files that
are new and greater than the start, and of the return to the start
(`DepGraph.Ranked.mem_onward_iff`). The induction is on the number of edges that are left.
The first of the further files is the successor that the search goes on to, and the rest
completes the longer path, so all four prunings of the search are read off this one
equivalence.

For a graph that says that its cycles – before they are capped – are the lists that tell a
cycle from its least file (`DepGraph.RepoGraph.TellsCycle`,
`DepGraph.RepoGraph.Coherent.mem_allCycles_iff`).
-/

namespace DepGraph

namespace Ranked

/-- One file has another among its successors. -/
def Follows (r : Ranked) (a b : Nat) : Prop := b ∈ r.next a

/-- **What completes a path** that goes on from `current`: further files, new to the path and
greater than the start, along which one comes back to the start. -/
structure Completes (r : Ranked) (start current : Nat) (path rest : List Nat) : Prop where
  /-- Each file is a successor of the one before. -/
  follows : (current :: (rest ++ [start])).IsChain r.Follows
  /-- No file is entered twice. -/
  nodup : rest.Nodup
  /-- No file on the path is entered, nor one that is less than the start. -/
  fresh : ∀ file ∈ rest, start < file ∧ file ∉ path

theorem completes_nil {r : Ranked} {start current : Nat} {path : List Nat} :
    r.Completes start current path [] ↔ start ∈ r.next current := by
  refine ⟨fun h => ?_, fun h => ⟨?_, List.nodup_nil, by simp⟩⟩
  · simpa [Follows] using h.follows
  · simpa [Follows] using h

/-- The first of the further files comes onto the path, and the others complete it. -/
theorem completes_cons {r : Ranked} {start current next : Nat} {path rest : List Nat} :
    r.Completes start current path (next :: rest) ↔
      (next ∈ r.next current ∧ start < next ∧ next ∉ path) ∧
        r.Completes start next (next :: path) rest := by
  constructor
  · rintro ⟨hfollows, hnodup, hfresh⟩
    obtain ⟨hnext, hchain⟩ := List.isChain_cons_cons.mp hfollows
    obtain ⟨hnew, hnodup⟩ := List.nodup_cons.mp hnodup
    obtain ⟨hgt, hpath⟩ := hfresh next (List.mem_cons_self ..)
    refine ⟨⟨hnext, hgt, hpath⟩, hchain, hnodup, fun file hfile => ?_⟩
    obtain ⟨hgt, hpath⟩ := hfresh file (List.mem_cons_of_mem _ hfile)
    refine ⟨hgt, fun hmem => ?_⟩
    rcases List.mem_cons.mp hmem with rfl | hmem
    · exact hnew hfile
    · exact hpath hmem
  · rintro ⟨⟨hnext, hgt, hpath⟩, hchain, hnodup, hfresh⟩
    refine ⟨List.isChain_cons_cons.mpr ⟨hnext, hchain⟩,
      List.nodup_cons.mpr ⟨fun hmem => ?_, hnodup⟩, fun file hfile => ?_⟩
    · exact (hfresh next hmem).2 (List.mem_cons_self ..)
    · rcases List.mem_cons.mp hfile with rfl | hfile
      · exact ⟨hgt, hpath⟩
      · obtain ⟨hgt, hnew⟩ := hfresh file hfile
        exact ⟨hgt, fun hmem => hnew (List.mem_cons_of_mem _ hmem)⟩

/-- **What is found on the way onward** is the path with whatever completes it, as long as
the number of edges permits. -/
theorem mem_onward_iff {r : Ranked} {least start left current : Nat} {path cycle : List Nat} :
    cycle ∈ r.onward least start left current path ↔
      ∃ rest, cycle = path.reverse ++ rest ++ [start] ∧ r.Completes start current path rest ∧
        rest.length < left ∧ least ≤ path.length + rest.length := by
  induction left generalizing current path with
  | zero => simp [onward]
  | succ left ih =>
    rw [onward_succ, List.mem_flatMap]
    constructor
    · -- what is found by way of a successor completes the path, with the successor first
      rintro ⟨next, hnext, hcycle⟩
      rw [onwardVia] at hcycle
      split at hcycle
      case isTrue hstart =>
        subst hstart
        split at hcycle
        case isTrue hleast =>
          refine ⟨[], ?_, completes_nil.mpr hnext, Nat.succ_pos _, hleast⟩
          simpa using hcycle
        case isFalse => exact absurd hcycle List.not_mem_nil
      case isFalse hstart =>
        split at hcycle
        case isTrue => exact absurd hcycle List.not_mem_nil
        case isFalse hopen =>
          push Not at hopen
          obtain ⟨rest, rfl, hrest, hlength, hleast⟩ := ih.mp hcycle
          have hgt : start < next := by omega
          refine ⟨next :: rest, by simp, completes_cons.mpr ⟨⟨hnext, hgt, hopen.2.2⟩, hrest⟩,
            Nat.succ_lt_succ hlength, ?_⟩
          simp only [List.length_cons] at hleast ⊢
          omega
    · -- what completes the path is found by way of its first file
      rintro ⟨rest, rfl, hrest, hlength, hleast⟩
      cases rest with
      | nil =>
        refine ⟨start, completes_nil.mp hrest, ?_⟩
        rw [onwardVia, if_pos rfl, if_pos (by simpa using hleast)]
        simp
      | cons next rest =>
        obtain ⟨⟨hnext, hgt, hnew⟩, hrest⟩ := completes_cons.mp hrest
        simp only [List.length_cons] at hlength hleast
        refine ⟨next, hnext, ?_⟩
        rw [onwardVia, if_neg (by omega), if_neg (by
          push Not
          exact ⟨by omega, by omega, hnew⟩)]
        refine ih.mpr ⟨rest, by simp, hrest, by omega, ?_⟩
        rw [List.length_cons]
        omega

/-- A cycle of the whole search is told from its least file. -/
theorem mem_allCycles_iff {r : Ranked} {least greatest : Nat} {cycle : List Nat} :
    cycle ∈ r.allCycles least greatest ↔
      ∃ start < r.files.size, ∃ rest, cycle = start :: rest ++ [start] ∧
        r.Completes start start [start] rest ∧ rest.length < greatest ∧
        least ≤ rest.length + 1 := by
  simp only [allCycles, List.mem_flatMap, List.mem_range, mem_onward_iff, List.length_singleton,
    Nat.add_comm 1]
  rfl

end Ranked

/-- Along a chain every member but the first has one before it. -/
theorem forall_mem_of_isChain_cons {α : Type} {R : α → α → Prop} {P : α → Prop}
    (hP : ∀ a b, R a b → P b) {a : α} {l : List α} (h : (a :: l).IsChain R) : ∀ b ∈ l, P b := by
  induction l generalizing a with
  | nil => simp
  | cons b l ih =>
    obtain ⟨hab, hchain⟩ := List.isChain_cons_cons.mp h
    intro c hc
    rcases List.mem_cons.mp hc with rfl | hc
    · exact hP a c hab
    · exact ih hchain c hc

/-- A cycle leads through files only. -/
theorem Ranked.Orderly.lt_size_of_mem_allCycles {r : Ranked} (hr : r.Orderly)
    {least greatest : Nat} {cycle : List Nat} (h : cycle ∈ r.allCycles least greatest) :
    ∀ file ∈ cycle, file < r.files.size := by
  obtain ⟨start, hstart, rest, rfl, hrest, -⟩ := mem_allCycles_iff.mp h
  exact List.forall_mem_cons.mpr ⟨hstart,
    forall_mem_of_isChain_cons (fun a b hab => hr.lt_size a b hab) hrest.follows⟩

/-! ### Cycles told by paths -/

namespace RepoGraph

/-- **A list tells a cycle from its least file**: distinct files, the least of them first,
each depending on the next, and the first one repeated at the end. The number of edges, which
is that of the files, lies in a range. -/
structure TellsCycle (g : RepoGraph) (least greatest : Nat) (told : List String) : Prop where
  /-- The first file is told again at the end, and it is the least of all. -/
  shape : ∃ first rest, told = first :: rest ++ [first] ∧ (first :: rest).Nodup ∧
    (∀ path ∈ rest, first < path) ∧ least ≤ (first :: rest).length ∧
    (first :: rest).length ≤ greatest
  /-- Each file depends on the next. -/
  chain : told.IsChain g.DependsOn

/-- A cycle is one of every other graph that has the same dependences, or more. -/
theorem TellsCycle.imp {g g' : RepoGraph} (hdepends : ∀ a b, g.DependsOn a b → g'.DependsOn a b)
    {least greatest : Nat} {told : List String} (h : g.TellsCycle least greatest told) :
    g'.TellsCycle least greatest told :=
  ⟨h.shape, h.chain.imp hdepends⟩

/-- Files of a graph have ranks. -/
theorem exists_ranks {g : RepoGraph} {paths : List String}
    (h : ∀ path ∈ paths, path ∈ g.files.toList) :
    ∃ files : List Nat, (∀ file ∈ files, file < g.ranked.files.size) ∧
      files.map g.ranked.path = paths := by
  induction paths with
  | nil => exact ⟨[], by simp, rfl⟩
  | cons path paths ih =>
    obtain ⟨file, hfile, rfl⟩ := exists_rank (h path (List.mem_cons_self ..))
    obtain ⟨files, hfiles, rfl⟩ := ih fun other hother => h other (List.mem_cons_of_mem _ hother)
    exact ⟨file :: files, List.forall_mem_cons.mpr ⟨hfile, hfiles⟩, rfl⟩

namespace Coherent

variable {g : RepoGraph}

/-- Following successors is following dependences. -/
theorem isChain_map_path_iff (h : g.Coherent) {files : List Nat}
    (hfiles : ∀ file ∈ files, file < g.ranked.files.size) :
    (files.map g.ranked.path).IsChain g.DependsOn ↔ files.IsChain g.ranked.Follows := by
  rw [List.isChain_map]
  refine List.IsChain.iff_of_mem_imp fun a b ha hb => ?_
  rw [Ranked.Follows, h.mem_next_ranked]
  exact ⟨fun hab => ⟨hfiles a ha, hfiles b hb, hab⟩, fun hab => hab.2.2⟩

/-- **The cycles of the search are the lists that tell a cycle from its least file.** -/
theorem mem_allCycles_iff (h : g.Coherent) {least greatest : Nat} {told : List String} :
    told ∈ (g.ranked.allCycles least greatest).map (·.map g.ranked.path) ↔
      g.TellsCycle least greatest told := by
  rw [List.mem_map]
  constructor
  · rintro ⟨cycle, hcycle, rfl⟩
    have hfiles := h.orderly_ranked.lt_size_of_mem_allCycles hcycle
    obtain ⟨start, hstart, rest, rfl, ⟨hfollows, hnodup, hfresh⟩, hgreatest, hleast⟩ :=
      Ranked.mem_allCycles_iff.mp hcycle
    have hrest : ∀ file ∈ rest, file < g.ranked.files.size := fun file hfile =>
      hfiles file (List.mem_cons_of_mem _ (List.mem_append_left _ hfile))
    refine ⟨⟨g.ranked.path start, rest.map g.ranked.path, by simp, ?_, ?_, ?_, ?_⟩,
      (h.isChain_map_path_iff hfiles).mpr hfollows⟩
    · have hdistinct : (start :: rest).Nodup :=
        List.nodup_cons.mpr ⟨fun hmem => Nat.lt_irrefl _ (hfresh start hmem).1, hnodup⟩
      have hlt : ∀ file ∈ start :: rest, file < g.ranked.files.size :=
        List.forall_mem_cons.mpr ⟨hstart, hrest⟩
      exact hdistinct.map_on fun a ha b hb hab => path_ranked_inj (hlt a ha) (hlt b hb) hab
    · intro path hpath
      obtain ⟨file, hfile, rfl⟩ := List.mem_map.mp hpath
      exact path_ranked_lt (hrest file hfile) (hfresh file hfile).1
    · rwa [List.length_cons, List.length_map]
    · rwa [List.length_cons, List.length_map]
  · rintro ⟨⟨first, rest, rfl, hnodup, hfirst, hleast, hgreatest⟩, hchain⟩
    -- every path of the list has a rank, as something depends on it
    have hpaths : ∀ path ∈ rest ++ [first], path ∈ g.files.toList :=
      forall_mem_of_isChain_cons (P := fun path => path ∈ g.files.toList)
        (fun a b hab => (h.mem_files_of_dependsOn hab).2) hchain
    obtain ⟨start, hstart, rfl⟩ := exists_rank (hpaths first (by simp))
    obtain ⟨rest, hrest, rfl⟩ := exists_ranks fun path hpath =>
      hpaths path (List.mem_append_left _ hpath)
    refine ⟨start :: rest ++ [start], ?_, by simp⟩
    have hfiles : ∀ file ∈ start :: rest ++ [start], file < g.ranked.files.size := by
      refine List.forall_mem_cons.mpr ⟨hstart, fun file hfile => ?_⟩
      rcases List.mem_append.mp hfile with hfile | hfile
      · exact hrest file hfile
      · exact List.mem_singleton.mp hfile ▸ hstart
    refine Ranked.mem_allCycles_iff.mpr ⟨start, hstart, rest, rfl, ⟨?_, ?_, ?_⟩, ?_, ?_⟩
    · refine (h.isChain_map_path_iff hfiles).mp ?_
      simpa using hchain
    · exact (List.nodup_cons.mp hnodup).2.of_map
    · intro file hfile
      have hgt : start < file := (path_ranked_lt_iff hstart (hrest file hfile)).mp
        (hfirst _ (List.mem_map_of_mem hfile))
      exact ⟨hgt, fun hmem => (Nat.ne_of_gt hgt) (List.mem_singleton.mp hmem)⟩
    · rwa [List.length_cons, List.length_map] at hgreatest
    · rwa [List.length_cons, List.length_map] at hleast

end Coherent

end RepoGraph

end DepGraph
