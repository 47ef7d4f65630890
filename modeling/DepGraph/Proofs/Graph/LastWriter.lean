import DepGraph.Proofs.Graph.Coherent

/-!
# The last writer wins

A dependency graph that began empty and was only ever written to is, to everyone who reads
its edges, an insertion-ordered map from keys to details in which the last writer wins. It
holds one edge for each key that was written, in the order of the first writes; each edge
has the weight and the run of the last write of its key and the greatest time of all of
them. A single write either appends an edge and says at which place, or rewrites one edge
where it stands and says where that is; every other edge stays as and where it is.

Nothing is assumed about what is written: paths may be any strings, weights any doubles, and
times may come in any order. Weights that are NaN count as one and the same, since Lean's `Float`
has a single NaN; as a weight is only ever copied, nothing looks at what else the bits of a NaN
may say.
-/

namespace DepGraph

namespace RepoGraph

/-- What a write does to a graph that holds what a sequence of writes left. -/
theorem upsert_writeAll_of_notMem {writes : List Edge} {e : Edge}
    (h : e.key ∉ writes.map Edge.key) :
    ((empty.writeAll writes).upsert e).2 = .inserted (empty.writeAll writes).edgeCount ∧
      ((empty.writeAll writes).upsert e).1.edges = (empty.writeAll writes).edges ++ [e] := by
  have hcoherent := coherent_writeAll_empty writes
  have hfresh : e.key ∉ (empty.writeAll writes).edges.map Edge.key := by
    rw [edges_writeAll_empty]
    exact fun hmem => h (Ledger.mem_keys_ofWrites.mp hmem)
  rw [hcoherent.outcome_upsert, hcoherent.edges_upsert, Ledger.outcome,
    Ledger.place?_eq_none_iff.mpr hfresh, hcoherent.length_edges]
  exact ⟨rfl, Ledger.put_of_notMem hfresh⟩

theorem upsert_writeAll_of_mem {writes : List Edge} {e : Edge} (h : e.key ∈ writes.map Edge.key) :
    ∃ i old, (empty.writeAll writes).edges[i]? = some old ∧ old.key = e.key ∧
      ((empty.writeAll writes).upsert e).2 = .updated i ∧
      ((empty.writeAll writes).upsert e).1.edges =
        (empty.writeAll writes).edges.set i (old.rewrittenBy e) := by
  have hcoherent := coherent_writeAll_empty writes
  have hknown : e.key ∈ (empty.writeAll writes).edges.map Edge.key := by
    rw [edges_writeAll_empty]
    exact Ledger.mem_keys_ofWrites.mpr h
  rcases hplace : Ledger.place? (empty.writeAll writes).edges e.key with _ | i
  · exact absurd hknown (Ledger.place?_eq_none_iff.mp hplace)
  · obtain ⟨old, hold, hkey⟩ := Ledger.exists_of_place? hplace
    refine ⟨i, old, hold, hkey, ?_, ?_⟩
    · rw [hcoherent.outcome_upsert, Ledger.outcome, hplace]
    · rw [hcoherent.edges_upsert, Ledger.put_of_place? hplace, List.modify_eq_set_getElem?, hold]
      rfl

/-- **A graph is an insertion-ordered map in which the last writer wins**: what a sequence of
writes leaves, and what one more write does. -/
theorem lastWriterWins_writeAll (writes : List Edge) :
    let g := empty.writeAll writes
    (g.edges.map Edge.key = (writes.map Edge.key).eraseDups ∧ (g.edges.map Edge.key).Nodup ∧
      ∀ e ∈ g.edges, e.Settles writes) ∧
    g.edgeCount = g.edges.length ∧
    ∀ e : Edge,
      (e.key ∉ writes.map Edge.key →
        (g.upsert e).2 = .inserted g.edgeCount ∧ (g.upsert e).1.edges = g.edges ++ [e]) ∧
      (e.key ∈ writes.map Edge.key →
        ∃ i old, g.edges[i]? = some old ∧ old.key = e.key ∧ (g.upsert e).2 = .updated i ∧
          (g.upsert e).1.edges = g.edges.set i (old.rewrittenBy e)) := by
  intro g
  have hcoherent : g.Coherent := coherent_writeAll_empty writes
  have hedges : g.edges = Ledger.ofWrites writes := edges_writeAll_empty writes
  refine ⟨⟨?_, hcoherent.nodup_keys, fun e he => ?_⟩, hcoherent.length_edges.symm,
    fun e => ⟨upsert_writeAll_of_notMem, upsert_writeAll_of_mem⟩⟩
  · rw [hedges]
    exact Ledger.keys_ofWrites writes
  · exact Ledger.settles_of_mem_ofWrites (hedges ▸ he)

end RepoGraph

end DepGraph
