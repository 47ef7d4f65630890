import DepGraph.Proofs.Ledger
import DepGraph.Proofs.Roster

/-!
# Coherent graphs

A dependency graph says everything several times over: the edges stand on a roster and have
their details in an array beside it, the files stand on another roster and have two lists of
edge numbers each. `DepGraph.RepoGraph.Coherent` says that all of this fits together, and
`DepGraph.RepoGraph.coherent_upsert` that a write keeps it so.

On a coherent graph a write is what it is on a ledger: the list of edges after the write is
`DepGraph.Ledger.put` of the list before (`DepGraph.RepoGraph.Coherent.edges_upsert`), and what
the write answers is `DepGraph.Ledger.outcome`
(`DepGraph.RepoGraph.Coherent.outcome_upsert`). The reason is that on the files of the graph a
path and its number determine each other, so that a key made of numbers is found exactly if the
key made of paths is (`DepGraph.RepoGraph.Coherent.number?_link`).
-/

namespace DepGraph

namespace RepoGraph

/-! ### The lists of a file -/

/-- The numbers of the links that have a file at a given end, newest first. -/
def numbersAt (links : List Link) (theEnd : Link → Nat) (file : Nat) : List Nat :=
  ((links.zipIdx.filter fun entry => theEnd entry.1 = file).map Prod.snd).reverse

theorem numbersAt_concat (links : List Link) (link : Link) (theEnd : Link → Nat) (file : Nat) :
    numbersAt (links ++ [link]) theEnd file =
      if theEnd link = file then links.length :: numbersAt links theEnd file
      else numbersAt links theEnd file := by
  rw [numbersAt, List.zipIdx_append, List.filter_append, List.map_append, List.reverse_append]
  by_cases h : theEnd link = file
  · simp [h, numbersAt]
  · simp [h, numbersAt]

/-- A file that is at no end has no numbers. -/
theorem numbersAt_eq_nil {links : List Link} {theEnd : Link → Nat} {file : Nat}
    (h : ∀ link ∈ links, theEnd link ≠ file) : numbersAt links theEnd file = [] := by
  rw [numbersAt, List.reverse_eq_nil_iff, List.map_eq_nil_iff, List.filter_eq_nil_iff]
  rintro ⟨link, number⟩ hmem
  have hlink : link ∈ links := (List.mk_mem_zipIdx_iff_getElem?.mp hmem) |> List.mem_of_getElem?
  simpa using h link hlink

/-- **Lists thread links** if each of the files has the numbers of the links that have it at
the given end, and there are no other lists. -/
def Threads (lists : Array (List Nat)) (links : List Link) (theEnd : Link → Nat)
    (files : Nat) : Prop :=
  ∀ file, lists[file]? = if file < files then some (numbersAt links theEnd file) else none

namespace Threads

variable {lists : Array (List Nat)} {links : List Link} {theEnd : Link → Nat} {files : Nat}

theorem empty (theEnd : Link → Nat) : Threads #[] [] theEnd 0 := fun file => by simp

/-- A new file begins with an empty list. -/
theorem push (h : Threads lists links theEnd files) (hlt : ∀ link ∈ links, theEnd link < files) :
    Threads (lists.push []) links theEnd (files + 1) := by
  -- there are as many lists as files: the last file has one, and the next number has none
  have hsize : lists.size = files := by
    have hin := h (files - 1)
    have hout := h files
    rw [if_neg (Nat.lt_irrefl files), Array.getElem?_eq_none_iff] at hout
    rcases Nat.eq_zero_or_pos files with hzero | hpos
    · omega
    · rw [if_pos (by omega)] at hin
      have := (Array.getElem?_eq_some_iff.mp hin).1
      omega
  intro file
  rw [Array.getElem?_push, hsize]
  rcases Nat.lt_trichotomy file files with hfile | rfl | hfile
  · rw [if_neg (by omega), h, if_pos hfile, if_pos (by omega)]
  · rw [if_pos rfl, if_pos (by omega), numbersAt_eq_nil fun link hlink => by
      have := hlt link hlink
      omega]
  · rw [if_neg (by omega), h, if_neg (by omega), if_neg (by omega)]

/-- A new link comes first in the list of the file at its end. -/
theorem modify (h : Threads lists links theEnd files) (link : Link) :
    Threads (lists.modify (theEnd link) (links.length :: ·)) (links ++ [link]) theEnd files := by
  intro file
  rw [Array.getElem?_modify, h, numbersAt_concat]
  split <;> split <;> rfl

end Threads

/-! ### Coherence -/

/-- **A coherent graph**: every edge has its details and files that exist, and the two lists
of a file hold the numbers of the edges that leave it and of those that arrive at it. -/
structure Coherent (g : RepoGraph) : Prop where
  /-- There are as many details as edges. -/
  size_details : g.details.size = g.links.size
  /-- Edges begin at files of the graph. -/
  source_lt : ∀ link ∈ g.links.toList, link.source < g.nodeCount
  /-- Edges end at files of the graph. -/
  target_lt : ∀ link ∈ g.links.toList, link.target < g.nodeCount
  /-- The lists of outgoing edges are those of the sources. -/
  outgoing : Threads g.outgoing g.links.toList Link.source g.nodeCount
  /-- The lists of incoming edges are those of the targets. -/
  incoming : Threads g.incoming g.links.toList Link.target g.nodeCount

theorem coherent_empty : empty.Coherent where
  size_details := rfl
  source_lt _ h := absurd h List.not_mem_nil
  target_lt _ h := absurd h List.not_mem_nil
  outgoing := Threads.empty _
  incoming := Threads.empty _

/-! ### Edges and their keys -/

/-- An edge put together from the two places where it is kept. -/
def assemble (g : RepoGraph) (link : Link) (detail : EdgeDetail) : Edge :=
  ⟨g.path link.source, g.path link.target, link.type, detail.weight, detail.run,
    detail.updatedAt⟩

/-- The key that a link stands for. -/
def keyOf (g : RepoGraph) (link : Link) : EdgeKey :=
  ⟨g.path link.source, g.path link.target, link.type⟩

/-- The edge with a number, put together from the two places where it is kept. -/
theorem edge?_eq (g : RepoGraph) (number : Nat) :
    g.edge? number = (List.zipWith g.assemble g.links.toList g.details.toList)[number]? := by
  rw [List.getElem?_zipWith, edge?, Roster.get?_eq_getElem?, ← Array.getElem?_toList]
  rcases g.links.toList[number]? with _ | link
  · rfl
  rcases g.details.toList[number]? with _ | detail <;> rfl

/-- Looking up every place of a list gives the list. -/
theorem filterMap_getElem?_range {α : Type} (l : List α) {n : Nat} (h : l.length ≤ n) :
    (List.range n).filterMap (fun i => l[i]?) = l := by
  induction l generalizing n with
  | nil => simp
  | cons a l ih =>
    obtain ⟨n, rfl⟩ : ∃ m, n = m + 1 := ⟨n - 1, by simp at h; omega⟩
    have hhead : (a :: l)[0]? = some a := rfl
    rw [List.range_succ_eq_map, List.filterMap_cons, hhead, List.filterMap_map]
    exact congrArg (a :: ·) (ih (Nat.le_of_succ_le_succ h))

/-- **The edges of a graph**, read off its links and its details at once. -/
theorem edges_eq_zipWith (g : RepoGraph) :
    g.edges = List.zipWith g.assemble g.links.toList g.details.toList := by
  have hlength :
      (List.zipWith g.assemble g.links.toList g.details.toList).length ≤ g.edgeCount := by
    rw [List.length_zipWith]
    exact Nat.min_le_left _ _
  rw [edges, ← filterMap_getElem?_range _ hlength]
  exact List.filterMap_congr fun number _ => g.edge?_eq number

/-- Every edge is put together from some link and some details. -/
theorem exists_assemble_of_mem_edges {g : RepoGraph} {e : Edge} (he : e ∈ g.edges) :
    ∃ link ∈ g.links.toList, ∃ detail, g.assemble link detail = e := by
  rw [edges_eq_zipWith] at he
  obtain ⟨number, hnumber⟩ := List.mem_iff_getElem?.mp he
  obtain ⟨link, detail, hlink, -, rfl⟩ := List.getElem?_zipWith_eq_some.mp hnumber
  exact ⟨link, List.mem_of_getElem? hlink, detail, rfl⟩

namespace Coherent

variable {g : RepoGraph}

theorem length_edges (h : g.Coherent) : g.edges.length = g.edgeCount := by
  have hlength : g.details.toList.length = g.links.toList.length := h.size_details
  rw [edges_eq_zipWith, List.length_zipWith, hlength]
  exact Nat.min_self _

/-- Where there is a link there is an edge, put together from the link and some details. -/
theorem exists_edge?_eq_assemble (h : g.Coherent) {number : Nat} {link : Link}
    (hlink : g.links.toList[number]? = some link) :
    ∃ detail, g.edge? number = some (g.assemble link detail) := by
  have hlt : number < g.details.toList.length := by
    rw [Array.length_toList, h.size_details]
    exact (List.getElem?_eq_some_iff.mp hlink).1
  refine ⟨g.details.toList[number], ?_⟩
  rw [edge?_eq, List.getElem?_zipWith_eq_some]
  exact ⟨link, _, hlink, List.getElem?_eq_getElem hlt, rfl⟩

/-- **The keys of the edges** are those that the links stand for. -/
theorem keys_edges (h : g.Coherent) : g.edges.map Edge.key = g.links.toList.map g.keyOf := by
  have hlength : g.details.toList.length = g.links.toList.length := h.size_details
  rw [edges_eq_zipWith, List.map_zipWith]
  refine List.ext_getElem? fun i => ?_
  rw [List.getElem?_zipWith, List.getElem?_map]
  rcases hlink : g.links.toList[i]? with _ | link
  · rfl
  · have hi : i < g.details.toList.length := hlength ▸ (List.getElem?_eq_some_iff.mp hlink).1
    rw [List.getElem?_eq_getElem hi]
    rfl

end Coherent

/-! ### Paths and their numbers -/

theorem path_of_number? {g : RepoGraph} {path : String} {file : Nat}
    (h : g.files.number? path = some file) : g.path file = path :=
  Roster.getD_get?_of_number? h ""

/-- Every file is found by its path. -/
theorem number?_path {g : RepoGraph} {file : Nat} (h : file < g.nodeCount) :
    g.files.number? (g.path file) = some file :=
  Roster.number?_getD_get? h ""

theorem path_inj {g : RepoGraph} {a b : Nat} (ha : a < g.nodeCount) (hb : b < g.nodeCount)
    (h : g.path a = g.path b) : a = b :=
  Option.some.inj ((number?_path ha).symm.trans (h ▸ number?_path hb))

/-- Links of the files of a graph stand for different keys. -/
theorem keyOf_inj {g : RepoGraph} {a b : Link} (has : a.source < g.nodeCount)
    (hat : a.target < g.nodeCount) (hbs : b.source < g.nodeCount) (hbt : b.target < g.nodeCount)
    (h : g.keyOf a = g.keyOf b) : a = b := by
  obtain ⟨source, target, type⟩ := a
  obtain ⟨source', target', type'⟩ := b
  simp only [keyOf, EdgeKey.mk.injEq] at h
  obtain ⟨hsource, htarget, rfl⟩ := h
  obtain rfl := path_inj has hbs hsource
  obtain rfl := path_inj hat hbt htarget
  rfl

namespace Coherent

variable {g : RepoGraph}

/-- No two edges of a graph have the same key. -/
theorem nodup_keys (h : g.Coherent) : (g.edges.map Edge.key).Nodup := by
  rw [h.keys_edges]
  refine g.links.nodup_toList.map_on fun a ha b hb hab => ?_
  exact keyOf_inj (h.source_lt a ha) (h.target_lt a ha) (h.source_lt b hb) (h.target_lt b hb) hab

/-- **A link is found exactly if the key that it stands for is**, and at the same place. -/
theorem number?_link (h : g.Coherent) {link : Link} (hsource : link.source < g.nodeCount)
    (htarget : link.target < g.nodeCount) :
    g.links.number? link = Ledger.place? g.edges (g.keyOf link) := by
  refine Option.ext fun i => ?_
  rw [Roster.number?_eq_some_iff_getElem?, Ledger.place?_eq_some_iff h.nodup_keys, h.keys_edges,
    List.getElem?_map, Option.map_eq_some_iff]
  constructor
  · exact fun hlink => ⟨link, hlink, rfl⟩
  · rintro ⟨other, hother, hkey⟩
    have hmem : other ∈ g.links.toList := List.mem_of_getElem? hother
    rw [← keyOf_inj (h.source_lt other hmem) (h.target_lt other hmem) hsource htarget hkey]
    exact hother

end Coherent

/-! ### Entering a file -/

section EnterFile

variable {g : RepoGraph} (path : String)

theorem files_enterFile : (g.enterFile path).1.files = (g.files.enter path).1 := by
  rw [enterFile]
  split
  case h_1 h => rw [Roster.enter_of_number? h]
  case h_2 => rfl

theorem snd_enterFile : (g.enterFile path).2 = (g.files.enter path).2 := by
  rw [enterFile]
  split
  case h_1 h => rw [Roster.enter_of_number? h]
  case h_2 h => exact (Roster.toList_enter_of_fresh h).2.symm

theorem links_enterFile : (g.enterFile path).1.links = g.links := by
  rw [enterFile]
  split <;> rfl

theorem details_enterFile : (g.enterFile path).1.details = g.details := by
  rw [enterFile]
  split <;> rfl

theorem number?_enterFile :
    (g.enterFile path).1.files.number? path = some (g.enterFile path).2 := by
  rw [files_enterFile, snd_enterFile]
  exact g.files.number?_enter path

theorem number?_enterFile_of_number? {other : String} {file : Nat}
    (h : g.files.number? other = some file) :
    (g.enterFile path).1.files.number? other = some file := by
  rw [files_enterFile]
  exact Roster.number?_enter_of_number? path h

/-- The files of a graph keep their paths. -/
theorem path_enterFile {file : Nat} (h : file < g.nodeCount) :
    (g.enterFile path).1.path file = g.path file :=
  path_of_number? (number?_enterFile_of_number? path (number?_path h))

/-- **Entering a file keeps a graph coherent.** -/
theorem Coherent.enterFile (h : g.Coherent) : (g.enterFile path).1.Coherent := by
  rw [RepoGraph.enterFile]
  split
  case h_1 => exact h
  case h_2 hfresh =>
    have hcount : (g.files.enter path).1.size = g.nodeCount + 1 := by
      rw [← Roster.length_toList, (Roster.toList_enter_of_fresh hfresh).1, List.length_append]
      rfl
    exact {
      size_details := h.size_details
      source_lt := fun link hlink => by
        have := h.source_lt link hlink
        rw [nodeCount, hcount]
        omega
      target_lt := fun link hlink => by
        have := h.target_lt link hlink
        rw [nodeCount, hcount]
        omega
      outgoing := by
        rw [nodeCount, hcount]
        exact h.outgoing.push h.source_lt
      incoming := by
        rw [nodeCount, hcount]
        exact h.incoming.push h.target_lt }

/-- Entering a file leaves the edges alone. -/
theorem Coherent.edges_enterFile (h : g.Coherent) : (g.enterFile path).1.edges = g.edges := by
  rw [edges_eq_zipWith, edges_eq_zipWith, links_enterFile, details_enterFile]
  refine List.ext_getElem? fun i => ?_
  rw [List.getElem?_zipWith, List.getElem?_zipWith]
  rcases hlink : g.links.toList[i]? with _ | link
  · rfl
  · have hmem : link ∈ g.links.toList := List.mem_of_getElem? hlink
    have hsource := path_enterFile path (h.source_lt link hmem)
    have htarget := path_enterFile path (h.target_lt link hmem)
    rcases g.details.toList[i]? with _ | detail
    · rfl
    · simp only [assemble, hsource, htarget]

end EnterFile

/-! ### Writing a link -/

section WriteLink

variable {g : RepoGraph} {link : Link} (detail : EdgeDetail)

/-- Overwriting the details of an edge rewrites the edge. -/
theorem assemble_overwrite (g : RepoGraph) (link : Link) (old new : EdgeDetail) :
    g.assemble link (overwrite old new) = (g.assemble link old).rewrittenBy (g.assemble link new) :=
  rfl

/-- Overwriting the details with a number rewrites the edge with this number. -/
theorem zipWith_assemble_modify {number : Nat} (h : g.links.number? link = some number) :
    List.zipWith g.assemble g.links.toList (g.details.modify number (overwrite · detail)).toList =
      g.edges.modify number fun old => old.rewrittenBy (g.assemble link detail) := by
  rw [edges_eq_zipWith, Array.toList_modify]
  refine List.ext_getElem? fun i => ?_
  simp only [List.getElem?_zipWith, List.getElem?_modify]
  rcases eq_or_ne number i with rfl | hi
  · rw [Roster.number?_eq_some_iff_getElem?.mp h]
    rcases g.details.toList[number]? with _ | old
    · rfl
    · simp [assemble_overwrite]
  · rcases g.links.toList[i]? with _ | other
    · simp
    · rcases g.details.toList[i]? with _ | old <;> simp [hi]

/-- **Writing a link is writing into the ledger.** -/
theorem Coherent.writeLink_eq (h : g.Coherent) (hsource : link.source < g.nodeCount)
    (htarget : link.target < g.nodeCount) :
    (g.writeLink link detail).1.edges = Ledger.put g.edges (g.assemble link detail) ∧
      (g.writeLink link detail).2 = Ledger.outcome g.edges (g.assemble link detail) := by
  have hplace : g.links.number? link = Ledger.place? g.edges (g.assemble link detail).key :=
    h.number?_link hsource htarget
  rw [writeLink, Ledger.put, Ledger.outcome, ← hplace]
  rcases hnumber : g.links.number? link with _ | number
  -- a new link and its details come last, and so does the edge that they make
  · have hlength : g.links.toList.length = g.details.toList.length := h.size_details.symm
    refine ⟨?_, congrArg Outcome.inserted h.length_edges.symm⟩
    simp only [edges_eq_zipWith, (Roster.toList_enter_of_fresh hnumber).1, Array.toList_push]
    exact List.zipWith_append hlength
  · refine ⟨?_, rfl⟩
    rw [edges_eq_zipWith]
    exact zipWith_assemble_modify detail hnumber

/-- **Writing a link keeps a graph coherent.** -/
theorem Coherent.writeLink (h : g.Coherent) (hsource : link.source < g.nodeCount)
    (htarget : link.target < g.nodeCount) : (g.writeLink link detail).1.Coherent := by
  rw [RepoGraph.writeLink]
  rcases hnumber : g.links.number? link with _ | number
  · have hlinks : (g.links.enter link).1.toList = g.links.toList ++ [link] :=
      (Roster.toList_enter_of_fresh hnumber).1
    have hends : ∀ other ∈ (g.links.enter link).1.toList, other ∈ g.links.toList ∨ other = link :=
      fun other hother => Roster.mem_toList_enter.mp hother
    exact {
      size_details := by
        simp only [Array.size_push, h.size_details, ← Roster.length_toList, hlinks,
          List.length_append, List.length_singleton]
      source_lt := fun other hother => (hends other hother).elim (h.source_lt other) (· ▸ hsource)
      target_lt := fun other hother => (hends other hother).elim (h.target_lt other) (· ▸ htarget)
      outgoing := by
        rw [hlinks]
        exact h.outgoing.modify link
      incoming := by
        rw [hlinks]
        exact h.incoming.modify link }
  · exact {
      size_details := (Array.size_modify ..).trans h.size_details
      source_lt := h.source_lt
      target_lt := h.target_lt
      outgoing := h.outgoing
      incoming := h.incoming }

end WriteLink

/-! ### Writing an edge -/

section Upsert

variable {g : RepoGraph} (e : Edge)

/-- The graph in which both files of an edge have their places. -/
def withFiles (g : RepoGraph) (e : Edge) : RepoGraph :=
  ((g.enterFile e.source).1.enterFile e.target).1

/-- The link of an edge, once its files have their places. -/
def linkOf (g : RepoGraph) (e : Edge) : Link :=
  ⟨(g.enterFile e.source).2, ((g.enterFile e.source).1.enterFile e.target).2, e.type⟩

theorem upsert_eq (g : RepoGraph) (e : Edge) :
    g.upsert e = (g.withFiles e).writeLink (g.linkOf e) e.detail :=
  rfl

theorem number?_source_withFiles :
    (g.withFiles e).files.number? e.source = some (g.linkOf e).source :=
  number?_enterFile_of_number? e.target (number?_enterFile e.source)

theorem number?_target_withFiles :
    (g.withFiles e).files.number? e.target = some (g.linkOf e).target :=
  number?_enterFile e.target

/-- The edge is what its link and its details make. -/
theorem assemble_withFiles : (g.withFiles e).assemble (g.linkOf e) e.detail = e := by
  simp only [assemble, path_of_number? (number?_source_withFiles e),
    path_of_number? (number?_target_withFiles e)]
  rfl

theorem Coherent.withFiles (h : g.Coherent) : (g.withFiles e).Coherent :=
  (h.enterFile e.source).enterFile e.target

theorem Coherent.edges_withFiles (h : g.Coherent) : (g.withFiles e).edges = g.edges :=
  ((h.enterFile e.source).edges_enterFile e.target).trans (h.edges_enterFile e.source)

/-- **A write keeps a graph coherent.** -/
theorem coherent_upsert (h : g.Coherent) : (g.upsert e).1.Coherent := by
  rw [upsert_eq]
  exact (h.withFiles e).writeLink e.detail
    (Roster.lt_size_of_number? (number?_source_withFiles e))
    (Roster.lt_size_of_number? (number?_target_withFiles e))

theorem Coherent.upsert_eq_put (h : g.Coherent) :
    (g.upsert e).1.edges = Ledger.put g.edges e ∧ (g.upsert e).2 = Ledger.outcome g.edges e := by
  have hwrite := (h.withFiles e).writeLink_eq e.detail
    (Roster.lt_size_of_number? (number?_source_withFiles e))
    (Roster.lt_size_of_number? (number?_target_withFiles e))
  rw [upsert_eq]
  rwa [assemble_withFiles, h.edges_withFiles] at hwrite

/-- **A write puts the edge into the ledger of the graph.** -/
theorem Coherent.edges_upsert (h : g.Coherent) : (g.upsert e).1.edges = Ledger.put g.edges e :=
  (h.upsert_eq_put e).1

/-- What a write answers is what it does to the ledger of the graph. -/
theorem Coherent.outcome_upsert (h : g.Coherent) : (g.upsert e).2 = Ledger.outcome g.edges e :=
  (h.upsert_eq_put e).2

end Upsert

/-! ### A sequence of writes -/

theorem writeAll_append (g : RepoGraph) (writes more : List Edge) :
    g.writeAll (writes ++ more) = (g.writeAll writes).writeAll more :=
  List.foldl_append

/-- **A sequence of writes keeps a graph coherent.** -/
theorem Coherent.writeAll {g : RepoGraph} (h : g.Coherent) (writes : List Edge) :
    (g.writeAll writes).Coherent := by
  induction writes generalizing g with
  | nil => exact h
  | cons e writes ih => exact ih (coherent_upsert e h)

/-- A sequence of writes puts its edges into the ledger one after another. -/
theorem Coherent.edges_writeAll {g : RepoGraph} (h : g.Coherent) (writes : List Edge) :
    (g.writeAll writes).edges = writes.foldl Ledger.put g.edges := by
  induction writes generalizing g with
  | nil => rfl
  | cons e writes ih =>
    rw [RepoGraph.writeAll, List.foldl_cons, List.foldl_cons, ← h.edges_upsert e]
    exact ih (coherent_upsert e h)

theorem coherent_writeAll_empty (writes : List Edge) : (empty.writeAll writes).Coherent :=
  coherent_empty.writeAll writes

theorem edges_writeAll_empty (writes : List Edge) :
    (empty.writeAll writes).edges = Ledger.ofWrites writes :=
  coherent_empty.edges_writeAll writes

end RepoGraph

end DepGraph
