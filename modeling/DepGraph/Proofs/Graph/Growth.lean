import DepGraph.Proofs.Graph.Dependence
import Mathlib.Data.List.Infix

/-!
# Graphs only grow

Nothing is ever taken out of a graph. An edge that was written once goes on standing where it
stands, under its key, and its time does not go back; what else it says may change
(`DepGraph.Ledger.GrowsInto`). One write keeps to this (`DepGraph.Ledger.growsInto_put`), and so
does any number of them (`DepGraph.RepoGraph.Coherent.growsInto_writeAll`). Hence a file that
depends on another does so for ever (`DepGraph.RepoGraph.DependsOn.writeAll`).
-/

namespace DepGraph

namespace Ledger

/-- **One ledger grows into another** if every edge of the first is still at its place in the
second: the edge there has the same key and a time that is not earlier. -/
def GrowsInto (edges edges' : List Edge) : Prop :=
  ∀ (i : Nat) (e : Edge), edges[i]? = some e →
    ∃ e', edges'[i]? = some e' ∧ e'.key = e.key ∧ e.updatedAt ≤ e'.updatedAt

namespace GrowsInto

variable {edges edges' edges'' : List Edge}

protected theorem refl (edges : List Edge) : GrowsInto edges edges :=
  fun _ e he => ⟨e, he, rfl, e.updatedAt.le_refl⟩

protected theorem trans (h : GrowsInto edges edges') (h' : GrowsInto edges' edges'') :
    GrowsInto edges edges'' := by
  intro i e he
  obtain ⟨e', he', hkey, htime⟩ := h i e he
  obtain ⟨e'', he'', hkey', htime'⟩ := h' i e' he'
  exact ⟨e'', he'', hkey'.trans hkey, Instant.le_trans htime htime'⟩

/-- The keys stay where they are, and new ones come after them. -/
theorem keys_isPrefix (h : GrowsInto edges edges') :
    edges.map Edge.key <+: edges'.map Edge.key := by
  rw [List.prefix_iff_getElem?]
  intro i hi
  rw [List.length_map] at hi
  obtain ⟨e', he', hkey, -⟩ := h i edges[i] (List.getElem?_eq_getElem hi)
  rw [List.getElem?_map, he', List.getElem_map, ← hkey]
  rfl

/-- An edge of the first ledger has a successor in the second. -/
theorem exists_mem (h : GrowsInto edges edges') {e : Edge} (he : e ∈ edges) :
    ∃ e' ∈ edges', e'.key = e.key := by
  obtain ⟨i, hi⟩ := List.mem_iff_getElem?.mp he
  obtain ⟨e', he', hkey, -⟩ := h i e hi
  exact ⟨e', List.mem_of_getElem? he', hkey⟩

end GrowsInto

/-- **A write lets a ledger grow**: it appends an edge, or it rewrites the edge of its key where
that stands. -/
theorem growsInto_put (edges : List Edge) (e : Edge) : GrowsInto edges (put edges e) := by
  intro i old hold
  rcases hplace : place? edges e.key with _ | j
  · have hlt : i < edges.length := (List.getElem?_eq_some_iff.mp hold).1
    rw [put_of_notMem (place?_eq_none_iff.mp hplace), List.getElem?_append_left hlt]
    exact ⟨old, hold, rfl, old.updatedAt.le_refl⟩
  · rw [put_of_place? hplace, List.getElem?_modify, hold]
    rcases eq_or_ne j i with rfl | hji
    · obtain ⟨old', hold', hkey⟩ := exists_of_place? hplace
      obtain rfl : old = old' := Option.some.inj (hold.symm.trans hold')
      exact ⟨old.rewrittenBy e, by simp, hkey.symm, Instant.le_later_left ..⟩
    · exact ⟨old, by simp [hji], rfl, old.updatedAt.le_refl⟩

theorem growsInto_foldl_put (edges writes : List Edge) :
    GrowsInto edges (writes.foldl put edges) := by
  induction writes generalizing edges with
  | nil => exact .refl edges
  | cons e writes ih => exact (growsInto_put edges e).trans (ih (put edges e))

end Ledger

namespace RepoGraph

variable {g : RepoGraph}

/-- **Whatever is written, a graph only grows.** -/
theorem Coherent.growsInto_writeAll (h : g.Coherent) (writes : List Edge) :
    Ledger.GrowsInto g.edges (g.writeAll writes).edges := by
  rw [h.edges_writeAll]
  exact Ledger.growsInto_foldl_put g.edges writes

/-- **A file that depends on another does so for ever.** -/
theorem DependsOn.writeAll (h : g.Coherent) {a b : String} (hdepends : g.DependsOn a b)
    (writes : List Edge) : (g.writeAll writes).DependsOn a b := by
  obtain ⟨e, he, rfl, rfl⟩ := hdepends
  obtain ⟨e', he', hkey⟩ := (h.growsInto_writeAll writes).exists_mem he
  exact ⟨e', he', congrArg EdgeKey.source hkey, congrArg EdgeKey.target hkey⟩

end RepoGraph

end DepGraph
