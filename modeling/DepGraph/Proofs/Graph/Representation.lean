import DepGraph.Proofs.Graph.Dependence
import Mathlib.Data.Finset.Card
import Mathlib.Data.Finset.Dedup

/-!
# How a graph represents what was written

Two hash maps stand beside the files and the edges of a graph, one from paths to files and one
from keys to edges. They say nothing that could not be read off the graph, so everything hangs
on their keeping up with it: a path that were missing from the first would be given a second
file, a key that were missing from the second a second edge.

A write goes through states in which they do not keep up. It enters the two files of its edge
before it looks the key up, and until the edge is written the files may be at the end of none.
That the graphs between two writes have no such files is said apart from the coherence that
all of these states share (`DepGraph.RepoGraph.Linked`), and it is restored by every write,
whichever of the two files are new, whether or not they are the same, and whether or not the
key is known (`DepGraph.RepoGraph.linked_upsert`).

What is true of every graph that came about by writing is put together in
`DepGraph.RepoGraph.Represents`.
-/

namespace DepGraph

namespace RepoGraph

/-! ### What a write does to the files and the links -/

section Upsert

variable {g : RepoGraph}

theorem files_writeLink (g : RepoGraph) (link : Link) (detail : EdgeDetail) :
    (g.writeLink link detail).1.files = g.files := by
  rw [writeLink]
  split <;> rfl

theorem links_writeLink (g : RepoGraph) (link : Link) (detail : EdgeDetail) :
    (g.writeLink link detail).1.links = (g.links.enter link).1 := by
  rw [writeLink]
  split
  case h_1 h => rw [Roster.enter_of_number? h]
  case h_2 => rfl

theorem files_upsert (g : RepoGraph) (e : Edge) : (g.upsert e).1.files = (g.withFiles e).files :=
  files_writeLink ..

theorem links_upsert (g : RepoGraph) (e : Edge) :
    (g.upsert e).1.links = (g.links.enter (g.linkOf e)).1 := by
  rw [upsert_eq, links_writeLink, withFiles, links_enterFile, links_enterFile]

/-- **A write brings the two files of its edge along**, and no others. -/
theorem mem_files_upsert {e : Edge} {path : String} :
    path ∈ (g.upsert e).1.files.toList ↔
      path ∈ g.files.toList ∨ path = e.source ∨ path = e.target := by
  rw [files_upsert, withFiles, files_enterFile, Roster.mem_toList_enter, files_enterFile,
    Roster.mem_toList_enter, or_assoc]

/-- **The files of a graph are the ends of what was written.** -/
theorem mem_files_writeAll {writes : List Edge} {path : String} :
    path ∈ (g.writeAll writes).files.toList ↔
      path ∈ g.files.toList ∨ ∃ e ∈ writes, path = e.source ∨ path = e.target := by
  induction writes generalizing g with
  | nil => simp [writeAll]
  | cons e writes ih =>
    rw [writeAll, List.foldl_cons]
    refine (ih (g := (g.upsert e).1)).trans ?_
    rw [mem_files_upsert, List.exists_mem_cons_iff, or_assoc]

end Upsert

/-- The files of a graph are the ones that it knows. -/
theorem hasFile_iff_mem_files (g : RepoGraph) {path : String} :
    g.hasFile path ↔ path ∈ g.files.toList := by
  rw [Roster.mem_toList_iff, hasFile, Roster.contains, Option.isSome_iff_exists]

/-! ### No file without an edge -/

/-- **Every file is at an end of some edge.** -/
def Linked (g : RepoGraph) : Prop :=
  ∀ file < g.nodeCount, ∃ link ∈ g.links.toList, link.source = file ∨ link.target = file

theorem linked_empty : empty.Linked := fun _ h => absurd h (Nat.not_lt_zero _)

/-- The only file that can be new when a path is entered is the file of this path. -/
theorem lt_nodeCount_enterFile {g : RepoGraph} {path : String} {file : Nat}
    (h : file < (g.enterFile path).1.nodeCount) :
    file < g.nodeCount ∨ file = (g.enterFile path).2 := by
  have hfile := number?_path h
  have hmem : (g.enterFile path).1.path file ∈ (g.enterFile path).1.files.toList :=
    Roster.mem_toList_iff.mpr ⟨file, hfile⟩
  rw [files_enterFile, Roster.mem_toList_enter] at hmem
  rcases hmem with hold | hnew
  · obtain ⟨i, hi⟩ := Roster.mem_toList_iff.mp hold
    have hsame := number?_enterFile_of_number? path hi
    obtain rfl : file = i := Option.some.inj (hfile.symm.trans hsame)
    exact Or.inl (Roster.lt_size_of_number? hi)
  · rw [hnew] at hfile
    exact Or.inr (Option.some.inj (hfile.symm.trans (number?_enterFile path)))

/-- **A write leaves no file without an edge**: the files that it brings along are at the ends
of the edge that it writes. -/
theorem linked_upsert {g : RepoGraph} (h : g.Linked) (e : Edge) : (g.upsert e).1.Linked := by
  have hlinks : ∀ link, link ∈ (g.upsert e).1.links.toList ↔
      link ∈ g.links.toList ∨ link = g.linkOf e := fun link => by
    rw [links_upsert, Roster.mem_toList_enter]
  have hwritten : g.linkOf e ∈ (g.upsert e).1.links.toList := (hlinks _).mpr (Or.inr rfl)
  intro file hfile
  rw [nodeCount, files_upsert] at hfile
  rcases lt_nodeCount_enterFile hfile with hfile | rfl
  · rcases lt_nodeCount_enterFile hfile with hfile | rfl
    · obtain ⟨link, hlink, hend⟩ := h file hfile
      exact ⟨link, (hlinks link).mpr (Or.inl hlink), hend⟩
    · exact ⟨g.linkOf e, hwritten, Or.inl rfl⟩
  · exact ⟨g.linkOf e, hwritten, Or.inr rfl⟩

theorem Linked.writeAll {g : RepoGraph} (h : g.Linked) (writes : List Edge) :
    (g.writeAll writes).Linked := by
  induction writes generalizing g with
  | nil => exact h
  | cons e writes ih => exact ih (linked_upsert h e)

theorem linked_writeAll_empty (writes : List Edge) : (empty.writeAll writes).Linked :=
  linked_empty.writeAll writes

namespace Coherent

variable {g : RepoGraph}

/-- **The files of a graph are the files that depend on others or are depended on.** -/
theorem mem_files_iff (h : g.Coherent) (hlinked : g.Linked) {path : String} :
    path ∈ g.files.toList ↔ ∃ other, g.DependsOn path other ∨ g.DependsOn other path := by
  constructor
  · intro hpath
    obtain ⟨file, hfile⟩ := Roster.mem_toList_iff.mp hpath
    obtain ⟨link, hlink, hend⟩ := hlinked file (Roster.lt_size_of_number? hfile)
    obtain rfl := path_of_number? hfile
    rcases hend with rfl | rfl
    · exact ⟨g.path link.target, Or.inl (h.dependsOn_iff.mpr ⟨link, hlink, rfl, rfl⟩)⟩
    · exact ⟨g.path link.source, Or.inr (h.dependsOn_iff.mpr ⟨link, hlink, rfl, rfl⟩)⟩
  · rintro ⟨other, hdepends | hdepends⟩
    · exact (h.mem_files_of_dependsOn hdepends).1
    · exact (h.mem_files_of_dependsOn hdepends).2

/-- The files of a graph are the ends of its edges. -/
theorem mem_files_iff_exists_edge (h : g.Coherent) (hlinked : g.Linked) {path : String} :
    path ∈ g.files.toList ↔ ∃ e ∈ g.edges, path = e.source ∨ path = e.target := by
  rw [h.mem_files_iff hlinked]
  constructor
  · rintro ⟨other, ⟨e, he, hsource, -⟩ | ⟨e, he, -, htarget⟩⟩
    · exact ⟨e, he, Or.inl hsource.symm⟩
    · exact ⟨e, he, Or.inr htarget.symm⟩
  · rintro ⟨e, he, rfl | rfl⟩
    · exact ⟨e.target, Or.inl ⟨e, he, rfl, rfl⟩⟩
    · exact ⟨e.source, Or.inr ⟨e, he, rfl, rfl⟩⟩

/-- The edge with the number of a link has the ends and the type of the link. -/
theorem exists_edge?_of_number? (h : g.Coherent) {link : Link} {number : Nat}
    (hnumber : g.links.number? link = some number) :
    ∃ e, g.edge? number = some e ∧ g.files.number? e.source = some link.source ∧
      g.files.number? e.target = some link.target ∧ e.type = link.type := by
  have hlink : link ∈ g.links.toList := Roster.mem_toList_iff.mpr ⟨number, hnumber⟩
  obtain ⟨detail, hedge⟩ :=
    h.exists_edge?_eq_assemble (Roster.number?_eq_some_iff_getElem?.mp hnumber)
  exact ⟨_, hedge, number?_path (h.source_lt link hlink), number?_path (h.target_lt link hlink),
    rfl⟩

/-- **The links of a graph stand for the keys that were written.** -/
theorem mem_links_iff (h : g.Coherent) {writes : List Edge}
    (hkeys : g.edges.map Edge.key = (writes.map Edge.key).eraseDups) {link : Link} :
    link ∈ g.links.toList ↔ ∃ e ∈ writes, g.files.number? e.source = some link.source ∧
      g.files.number? e.target = some link.target ∧ e.type = link.type := by
  have hmem : ∀ key, key ∈ g.links.toList.map g.keyOf ↔ key ∈ writes.map Edge.key := fun key => by
    rw [← h.keys_edges, hkeys, List.mem_eraseDups]
  constructor
  · intro hlink
    obtain ⟨e, he, hkey⟩ := List.mem_map.mp ((hmem _).mp (List.mem_map_of_mem hlink))
    obtain ⟨hsource, htarget, htype⟩ := EdgeKey.mk.inj hkey
    refine ⟨e, he, ?_, ?_, htype⟩
    · rw [hsource]
      exact number?_path (h.source_lt link hlink)
    · rw [htarget]
      exact number?_path (h.target_lt link hlink)
  · rintro ⟨e, he, hsource, htarget, htype⟩
    obtain ⟨other, hother, hkey⟩ := List.mem_map.mp ((hmem _).mpr (List.mem_map_of_mem he))
    -- two links of the graph that stand for the same key are the same
    have hsame : g.keyOf other = g.keyOf link := by
      rw [hkey, keyOf, path_of_number? hsource, path_of_number? htarget, ← htype]
      rfl
    rw [← keyOf_inj (h.source_lt other hother) (h.target_lt other hother)
      (Roster.lt_size_of_number? hsource) (Roster.lt_size_of_number? htarget) hsame]
    exact hother

end Coherent

/-! ### What is true of every graph -/

/-- **A graph that represents what was written.** Paths that were written and files correspond
one to one, and so do keys that were written – made of the numbers of two files and a type –
and edges; the counts and the test for a file say what the list of all edges says. -/
structure Represents (g : RepoGraph) (writes : List Edge) : Prop where
  /-- The arrays beside the files and the edges fit them. -/
  coherent : g.Coherent
  /-- The paths that were written correspond to the files one to one. -/
  files_bijOn : Set.BijOn g.files.number?
    {path | ∃ e ∈ writes, path = e.source ∨ path = e.target} {n | ∃ file < g.nodeCount, n = some file}
  /-- No other path is known. -/
  files_none : ∀ path, (∀ e ∈ writes, path ≠ e.source ∧ path ≠ e.target) →
    g.files.number? path = none
  /-- Each file carries the path that it was found by. -/
  files_carry : ∀ path file, g.files.number? path = some file → g.files.get? file = some path
  /-- The keys that were written correspond to the edges one to one. -/
  links_bijOn : Set.BijOn g.links.number?
    {link | ∃ e ∈ writes, g.files.number? e.source = some link.source ∧
      g.files.number? e.target = some link.target ∧ e.type = link.type}
    {n | ∃ number < g.edgeCount, n = some number}
  /-- No other key is known. -/
  links_none : ∀ link, (∀ e ∈ writes, g.files.number? e.source = some link.source →
    g.files.number? e.target = some link.target → e.type ≠ link.type) → g.links.number? link = none
  /-- Each edge has the ends and the type of the key that it was found by. -/
  links_carry : ∀ link number, g.links.number? link = some number →
    g.links.get? number = some link ∧
      ∃ e, g.edge? number = some e ∧ g.files.number? e.source = some link.source ∧
        g.files.number? e.target = some link.target ∧ e.type = link.type
  /-- Every file is at an end of some edge. -/
  linked : g.Linked
  /-- There are as many files as distinct paths at the ends of all edges. -/
  nodeCount_eq : g.nodeCount = (g.edges.flatMap fun e => [e.source, e.target]).toFinset.card
  /-- There are as many edges as distinct keys of all edges. -/
  edgeCount_eq : g.edgeCount = (g.edges.map Edge.key).toFinset.card
  /-- The files are the paths at the ends of all edges. -/
  hasFile_iff : ∀ path, g.hasFile path ↔ ∃ e ∈ g.edges, path = e.source ∨ path = e.target

/-- **Every graph represents what was written to it.** -/
theorem represents_writeAll (writes : List Edge) :
    (empty.writeAll writes).Represents writes := by
  have h := coherent_writeAll_empty writes
  have hlinked := linked_writeAll_empty writes
  have hkeys : (empty.writeAll writes).edges.map Edge.key = (writes.map Edge.key).eraseDups := by
    rw [edges_writeAll_empty]
    exact Ledger.keys_ofWrites writes
  generalize hg : empty.writeAll writes = g at h hlinked hkeys ⊢
  have hfiles : ∀ path, path ∈ g.files.toList ↔
      ∃ e ∈ writes, path = e.source ∨ path = e.target := fun path => by
    rw [← hg, mem_files_writeAll]
    exact or_iff_right List.not_mem_nil
  have hlinks : ∀ link, link ∈ g.links.toList ↔ _ := fun link => h.mem_links_iff hkeys
  exact {
    coherent := h
    files_bijOn := by
      have hbij := g.files.bijOn_number?
      simp only [hfiles] at hbij
      exact hbij
    files_none := fun path hpath => by
      rw [Roster.number?_eq_none_iff, hfiles]
      rintro ⟨e, he, hend⟩
      exact hend.elim (hpath e he).1 (hpath e he).2
    files_carry := fun path file hfile => Roster.number?_eq_some_iff.mp hfile
    links_bijOn := by
      have hbij := g.links.bijOn_number?
      simp only [hlinks] at hbij
      exact hbij
    links_none := fun link hlink => by
      rw [Roster.number?_eq_none_iff, hlinks]
      rintro ⟨e, he, hsource, htarget, htype⟩
      exact hlink e he hsource htarget htype
    links_carry := fun link number hnumber =>
      ⟨Roster.number?_eq_some_iff.mp hnumber, h.exists_edge?_of_number? hnumber⟩
    linked := hlinked
    nodeCount_eq := by
      have hset : g.files.toList.toFinset =
          (g.edges.flatMap fun e => [e.source, e.target]).toFinset := by
        ext path
        rw [List.mem_toFinset, List.mem_toFinset, h.mem_files_iff_exists_edge hlinked]
        simp
      rw [← hset, List.toFinset_card_of_nodup g.files.nodup_toList]
      rfl
    edgeCount_eq := by
      rw [List.toFinset_card_of_nodup h.nodup_keys, List.length_map, h.length_edges]
    hasFile_iff := fun path => by
      rw [← h.mem_files_iff_exists_edge hlinked, hasFile_iff_mem_files] }

end RepoGraph

end DepGraph
