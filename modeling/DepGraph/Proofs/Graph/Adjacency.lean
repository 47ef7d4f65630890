import DepGraph.Proofs.Graph.Dependence

/-!
# The lists of a file and the list of all edges

A graph shows its edges in three ways: all of them in the order of their first writes, those that
leave a file, and those that arrive at it. The last two are kept on lists of their own, onto which
an edge is put at the front when it is first written. So they are the list of all edges once more,
with everything left out that has another file at the end in question, and backwards
(`DepGraph.RepoGraph.Coherent.outEdges_eq`, `DepGraph.RepoGraph.Coherent.inEdges_eq`).

That settles where an edge is to be found: once among the edges that leave its source, once among
those that arrive at its target, and nowhere else. When its key is written again the edge is
rewritten in all three views (`DepGraph.Edge.revisedBy`), and it moves in none of them
(`DepGraph.RepoGraph.views_agree`).
-/

namespace DepGraph

/-! ### Rewriting an edge where it stands -/

/-- What another write makes of an edge: the edge is rewritten if it is the one with the key that is
written, and left alone otherwise. -/
def Edge.revisedBy (x e : Edge) : Edge := if x.key = e.key then x.rewrittenBy e else x

@[simp] theorem Edge.key_revisedBy (x e : Edge) : (x.revisedBy e).key = x.key := by
  rw [revisedBy]
  split
  case isTrue h => exact h.symm
  case isFalse => rfl

/-- **A write of a known key revises every edge where it stands.** -/
theorem Ledger.put_of_mem {edges : List Edge} (hnodup : (edges.map Edge.key).Nodup) {e : Edge}
    (h : e.key ∈ edges.map Edge.key) : put edges e = edges.map (·.revisedBy e) := by
  obtain ⟨i, hplace⟩ := Option.ne_none_iff_exists'.mp (mt place?_eq_none_iff.mp (not_not.mpr h))
  rw [put_of_place? hplace]
  refine List.ext_getElem? fun j => ?_
  rw [List.getElem?_modify, List.getElem?_map]
  rcases hx : edges[j]? with _ | x
  · rfl
  · -- the key stands at the place that was found, and at no other
    have hkey : x.key = e.key ↔ i = j := by
      rw [← Option.some_inj (a := i), ← hplace, place?_eq_some_iff hnodup, List.getElem?_map, hx]
      exact Option.some_inj.symm
    simp only [Option.map_some, Edge.revisedBy, hkey]
    split <;> rfl

namespace RepoGraph

/-! ### Reading along a list -/

namespace Coherent

variable {g : RepoGraph}

/-- **The edges along the list of a file** are the edges that have the file at the given end, newest
first. -/
theorem edgesOf_eq (h : g.Coherent) {lists : Array (List Nat)} {theEnd : Link → Nat}
    (hthreads : Threads lists g.links.toList theEnd g.nodeCount)
    (hlt : ∀ link ∈ g.links.toList, theEnd link < g.nodeCount) {endOf : Edge → String}
    (hend : ∀ link detail, endOf (g.assemble link detail) = g.path (theEnd link)) (path : String) :
    g.edgesOf lists path = (g.edges.filter fun e => endOf e = path).reverse := by
  rcases hfile : g.files.number? path with _ | file
  · -- the ends of edges are files, and an unknown path is none of them
    have hnone : g.edges.filter (fun e => endOf e = path) = [] := by
      rw [List.filter_eq_nil_iff]
      intro e he hpath
      obtain ⟨link, hlink, detail, rfl⟩ := exists_assemble_of_mem_edges he
      rw [hend, decide_eq_true_eq] at hpath
      have hknown := number?_path (hlt link hlink)
      rw [hpath, hfile] at hknown
      cases hknown
    rw [edgesOf, hfile, hnone]
    rfl
  · have hknown : file < g.nodeCount := Roster.lt_size_of_number? hfile
    rw [edgesOf, hfile]
    dsimp only
    rw [hthreads, if_pos hknown, Option.getD_some, edges, edgeCount, ← Roster.length_toList]
    refine filterMap_numbersAt fun number link hlink => ?_
    obtain ⟨detail, hedge⟩ := h.exists_edge?_eq_assemble hlink
    refine ⟨_, hedge, ?_⟩
    rw [hend, decide_eq_true_eq, ← path_of_number? hfile]
    exact ⟨path_inj (hlt link (List.mem_of_getElem? hlink)) hknown, congrArg g.path⟩

/-- **The edges that leave a file**, newest first. -/
theorem outEdges_eq (h : g.Coherent) (path : String) :
    g.outEdges path = (g.edges.filter fun e => e.source = path).reverse :=
  h.edgesOf_eq h.outgoing h.source_lt (fun _ _ => rfl) path

/-- **The edges that arrive at a file**, newest first. -/
theorem inEdges_eq (h : g.Coherent) (path : String) :
    g.inEdges path = (g.edges.filter fun e => e.target = path).reverse :=
  h.edgesOf_eq h.incoming h.target_lt (fun _ _ => rfl) path

/-- An edge is found once where its end is the right one, and not at all elsewhere. -/
theorem count_key_filter (h : g.Coherent) {e : Edge} (he : e ∈ g.edges) (endOf : EdgeKey → String)
    (path : String) :
    (((g.edges.filter fun e => endOf e.key = path).reverse).map Edge.key).count e.key =
      if path = endOf e.key then 1 else 0 := by
  have hkeys : (g.edges.filter fun e => endOf e.key = path).map Edge.key =
      (g.edges.map Edge.key).filter fun key => endOf key = path := by
    rw [List.filter_map]
    rfl
  rw [List.map_reverse, List.count_reverse, hkeys, (h.nodup_keys.filter _).count]
  have hmem : e.key ∈ g.edges.map Edge.key := List.mem_map_of_mem he
  simp only [List.mem_filter, hmem, true_and, decide_eq_true_eq]
  exact if_congr eq_comm rfl rfl

end Coherent

/-- Revising edges does not change which of them have a file at an end. -/
theorem filter_map_revisedBy (edges : List Edge) (e : Edge) (endOf : EdgeKey → String)
    (path : String) :
    (edges.map (·.revisedBy e)).filter (fun x => endOf x.key = path) =
      (edges.filter fun x => endOf x.key = path).map (·.revisedBy e) := by
  rw [List.filter_map]
  simp only [Function.comp_def, Edge.key_revisedBy]

/-- **The three views of a graph agree.** The edges that leave a file and those that arrive at it are
the edges with the file for their source and for their target, each list backwards and with all that
the edges say. So every edge is found once among those that leave its source, once among those that
arrive at its target – one that leads from a file to itself in both lists of this file – and with no
other file. A write of a known key revises the edge in all three views and moves it in none. -/
theorem views_agree (writes : List Edge) :
    let g := empty.writeAll writes
    (∀ path, g.outEdges path = (g.edges.filter fun e => e.source = path).reverse ∧
      g.inEdges path = (g.edges.filter fun e => e.target = path).reverse) ∧
    (∀ e ∈ g.edges, ∀ path,
      ((g.outEdges path).map Edge.key).count e.key = (if path = e.source then 1 else 0) ∧
        ((g.inEdges path).map Edge.key).count e.key = if path = e.target then 1 else 0) ∧
    ∀ e : Edge, e.key ∈ g.edges.map Edge.key →
      (g.upsert e).1.edges = g.edges.map (·.revisedBy e) ∧
        ∀ path, (g.upsert e).1.outEdges path = (g.outEdges path).map (·.revisedBy e) ∧
          (g.upsert e).1.inEdges path = (g.inEdges path).map (·.revisedBy e) := by
  intro g
  have h : g.Coherent := coherent_writeAll_empty writes
  refine ⟨fun path => ⟨h.outEdges_eq path, h.inEdges_eq path⟩, fun e he path => ?_, fun e he => ?_⟩
  · rw [h.outEdges_eq, h.inEdges_eq]
    exact ⟨h.count_key_filter he EdgeKey.source path, h.count_key_filter he EdgeKey.target path⟩
  · have h' := coherent_upsert e h
    have hedges : (g.upsert e).1.edges = g.edges.map (·.revisedBy e) := by
      rw [h.edges_upsert, Ledger.put_of_mem h.nodup_keys he]
    refine ⟨hedges, fun path => ?_⟩
    rw [h'.outEdges_eq, h'.inEdges_eq, h.outEdges_eq, h.inEdges_eq, hedges, List.map_reverse,
      List.map_reverse]
    exact ⟨congrArg List.reverse (filter_map_revisedBy g.edges e EdgeKey.source path),
      congrArg List.reverse (filter_map_revisedBy g.edges e EdgeKey.target path)⟩

end RepoGraph

end DepGraph
