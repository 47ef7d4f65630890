import DepGraph.Proofs.Batch
import DepGraph.Proofs.Graph.Coherent
import DepGraph.Proofs.Graph.Representation
import Mathlib.Data.Set.Card

/-!
# What the counts of a batch count

While a batch is written, its edges are counted: all of them, those that were new and those that
were there already. A write is new exactly if it makes the graph one edge longer
(`DepGraph.Ledger.length_put`), so the new ones are as many as the edges that the graph has gained,
and the others are the rest (`DepGraph.Accepted.snd_apply`). A batch of which all keys are known
gains nothing (`DepGraph.Accepted.snd_apply_of_known`).

What the graph has gained can be told without following the writes. Its keys are those that it had
and those of the batch, and none is there twice; the same goes for its files. So the gain is as many
as there are keys, or paths, in the batch that were not in the graph before, however often they are
repeated in the batch (`DepGraph.Accepted.apply_counts`).
-/

namespace DepGraph

/-- A list without repetitions grows by as many members as are new to it. -/
theorem length_eq_add_ncard {α : Type} {before after : List α} {P : α → Prop}
    (hbefore : before.Nodup) (hafter : after.Nodup)
    (hmem : ∀ a, a ∈ after ↔ a ∈ before ∨ P a) :
    after.length = before.length + {a | P a ∧ a ∉ before}.ncard := by
  classical
  have hsub : before.toFinset ⊆ after.toFinset := fun a ha =>
    List.mem_toFinset.mpr ((hmem a).mpr (.inl (List.mem_toFinset.mp ha)))
  have hset : {a | P a ∧ a ∉ before} = ↑(after.toFinset \ before.toFinset) := by
    ext a
    rw [Finset.mem_coe, Finset.mem_sdiff, List.mem_toFinset, List.mem_toFinset, hmem,
      Set.mem_ofPred_eq, or_and_right, and_not_self_iff, false_or]
  rw [hset, Set.ncard_coe_finset, ← List.toFinset_card_of_nodup hbefore,
    ← List.toFinset_card_of_nodup hafter, Nat.add_comm, Finset.card_sdiff_add_card_eq_card hsub]

namespace Ledger

/-- A write brings the key of its edge along, and no other. -/
theorem mem_keys_put {edges : List Edge} {e : Edge} {key : EdgeKey} :
    key ∈ (put edges e).map Edge.key ↔ key ∈ edges.map Edge.key ∨ e.key = key := by
  by_cases hmem : e.key ∈ edges.map Edge.key
  · rw [keys_put_of_mem hmem]
    refine ⟨.inl, ?_⟩
    rintro (h | rfl)
    · exact h
    · exact hmem
  · rw [keys_put_of_notMem hmem, List.mem_append, List.mem_singleton, eq_comm (a := key)]

/-- **The keys of a ledger** are those that it had and those that were written. -/
theorem mem_keys_foldl_put {edges writes : List Edge} {key : EdgeKey} :
    key ∈ (writes.foldl put edges).map Edge.key ↔
      key ∈ edges.map Edge.key ∨ ∃ e ∈ writes, e.key = key := by
  induction writes generalizing edges with
  | nil => simp
  | cons e writes ih =>
    rw [List.foldl_cons, ih, mem_keys_put, List.exists_mem_cons_iff, or_assoc]

/-- A ledger gets longer by the edges that are new to it. -/
theorem length_put (edges : List Edge) (e : Edge) :
    (put edges e).length = edges.length + if (outcome edges e).isInsert then 1 else 0 := by
  rw [put, outcome]
  rcases place? edges e.key with _ | i
  · exact List.length_append
  · exact List.length_modify ..

end Ledger

namespace RepoGraph

variable {g : RepoGraph}

/-- **One write is counted** once, and as new exactly if the graph gains an edge. -/
theorem Coherent.count_upsert (h : g.Coherent) (stats : ApplyStats) (e : Edge) :
    let counted := stats.count (g.upsert e).2
    counted.processed = stats.processed + 1 ∧
      counted.inserted + g.edgeCount = stats.inserted + (g.upsert e).1.edgeCount ∧
      counted.inserted + counted.updated = stats.inserted + stats.updated + 1 := by
  have hlength := Ledger.length_put g.edges e
  rw [← h.edges_upsert, ← h.outcome_upsert, h.length_edges, (coherent_upsert e h).length_edges]
    at hlength
  cases houtcome : (g.upsert e).2 with
  | inserted number =>
    rw [houtcome, Outcome.isInsert, if_pos rfl] at hlength
    dsimp only [ApplyStats.count]
    omega
  | updated number =>
    rw [houtcome, Outcome.isInsert, if_neg (by decide)] at hlength
    dsimp only [ApplyStats.count]
    omega

/-- **Any number of writes is counted** so. -/
theorem Coherent.snd_foldl_countedWrite (h : g.Coherent) (stats : ApplyStats)
    (edges : List Edge) :
    let last := edges.foldl countedWrite (g, stats)
    last.2.processed = stats.processed + edges.length ∧
      last.2.inserted + g.edgeCount = stats.inserted + last.1.edgeCount ∧
      last.2.inserted + last.2.updated = stats.inserted + stats.updated + edges.length := by
  induction edges generalizing g stats with
  | nil => exact ⟨rfl, rfl, rfl⟩
  | cons e edges ih =>
    have hstep := h.count_upsert stats e
    have hrest := ih (coherent_upsert e h) (stats.count (g.upsert e).2)
    have hfirst : (e :: edges).foldl countedWrite (g, stats) =
        edges.foldl countedWrite ((g.upsert e).1, stats.count (g.upsert e).2) := rfl
    rw [hfirst, List.length_cons]
    dsimp only at hstep hrest ⊢
    omega

end RepoGraph

namespace Accepted

variable {g : RepoGraph}

/-- **The counts of a batch**: all of its edges are processed, as many of them are new as edges
have been gained, and the others are updates. -/
theorem snd_apply (b : Accepted) (now : Instant) (h : g.Coherent) :
    (b.apply now g).2.processed = b.edges.length ∧
      (b.apply now g).2.inserted + g.edgeCount = (b.apply now g).1.edgeCount ∧
      (b.apply now g).2.inserted + (b.apply now g).2.updated = b.edges.length := by
  have hcounts := h.snd_foldl_countedWrite {} (b.writes now)
  have hlength : (b.writes now).length = b.edges.length := List.length_map _
  rw [hlength] at hcounts
  simpa only [Nat.zero_add, apply] using hcounts

/-! ### What is new in a batch -/

/-- The keys in a batch that are not in a graph. -/
def newKeys (b : Accepted) (g : RepoGraph) : Set EdgeKey :=
  {key | (∃ e ∈ b.edges, e.key = key) ∧ key ∉ g.edges.map Edge.key}

/-- The paths in a batch that are no files of a graph. -/
def newPaths (b : Accepted) (g : RepoGraph) : Set String :=
  {path | (∃ e ∈ b.edges, path = e.source ∨ path = e.target) ∧ ¬g.hasFile path}

/-- Of what a batch writes the same can be said as of its edges, but for the run and the time. -/
theorem exists_mem_writes_iff {b : Accepted} {now : Instant} {P : Edge → Prop} :
    (∃ e ∈ b.writes now, P e) ↔
      ∃ e ∈ b.edges, P ⟨e.source, e.target, e.type, e.weight, b.analysisId, now⟩ := by
  rw [writes]
  simp only [List.mem_map, exists_exists_and_eq_and]

variable (b : Accepted) (now : Instant)

/-- **The edges that a graph gains** by a batch. -/
theorem edgeCount_apply (h : g.Coherent) :
    (b.apply now g).1.edgeCount = g.edgeCount + (b.newKeys g).ncard := by
  have h' : (g.writeAll (b.writes now)).Coherent := h.writeAll _
  have hkeys : ∀ key, key ∈ (g.writeAll (b.writes now)).edges.map Edge.key ↔
      key ∈ g.edges.map Edge.key ∨ ∃ e ∈ b.edges, e.key = key := by
    intro key
    rw [h.edges_writeAll, Ledger.mem_keys_foldl_put, exists_mem_writes_iff]
    rfl
  have hlength := length_eq_add_ncard h.nodup_keys h'.nodup_keys hkeys
  rwa [List.length_map, List.length_map, h.length_edges, h'.length_edges, ← fst_apply] at hlength

/-- **A batch of which all keys are known** consists of updates. -/
theorem snd_apply_of_known {b : Accepted} {now : Instant} (h : g.Coherent)
    (hknown : ∀ e ∈ b.writes now, e.key ∈ g.edges.map Edge.key) :
    (b.apply now g).2 = ⟨b.edges.length, 0, b.edges.length⟩ := by
  obtain ⟨hprocessed, hinserted, hall⟩ := b.snd_apply now h
  have hnew : b.newKeys g = ∅ := by
    rw [Set.eq_empty_iff_forall_notMem]
    rintro key ⟨hkey, hfresh⟩
    obtain ⟨e, he, rfl⟩ : ∃ e ∈ b.writes now, e.key = key := exists_mem_writes_iff.mpr hkey
    exact hfresh (hknown e he)
  have hedges := b.edgeCount_apply now h
  rw [hnew, Set.ncard_empty] at hedges
  rcases hstats : (b.apply now g).2 with ⟨processed, inserted, updated⟩
  rw [hstats] at hprocessed hinserted hall
  dsimp only at hprocessed hinserted hall
  rw [ApplyStats.mk.injEq]
  omega

/-- **The files that a graph gains** by a batch. -/
theorem nodeCount_apply :
    (b.apply now g).1.nodeCount = g.nodeCount + (b.newPaths g).ncard := by
  have hfiles : ∀ path, path ∈ (g.writeAll (b.writes now)).files.toList ↔
      path ∈ g.files.toList ∨ ∃ e ∈ b.edges, path = e.source ∨ path = e.target := by
    intro path
    rw [RepoGraph.mem_files_writeAll, exists_mem_writes_iff]
  have hset : b.newPaths g = {path | (∃ e ∈ b.edges, path = e.source ∨ path = e.target) ∧
      path ∉ g.files.toList} := by
    ext path
    rw [newPaths, Set.mem_ofPred_eq, Set.mem_ofPred_eq, g.hasFile_iff_mem_files]
  rw [hset, fst_apply]
  exact length_eq_add_ncard g.files.nodup_toList (Roster.nodup_toList _) hfiles

/-- **The counts of a batch are exact.** -/
theorem apply_counts (writes : List Edge) :
    let before := RepoGraph.empty.writeAll writes
    let after := (b.apply now before).1
    let stats := (b.apply now before).2
    stats.processed = b.edges.length ∧
      stats.inserted = (b.newKeys before).ncard ∧
      after.edgeCount = before.edgeCount + stats.inserted ∧
      stats.inserted + stats.updated = stats.processed ∧
      after.nodeCount = before.nodeCount + (b.newPaths before).ncard := by
  intro before after stats
  have hbefore : before.Coherent := RepoGraph.coherent_writeAll_empty writes
  obtain ⟨hprocessed, hinserted, hall⟩ := b.snd_apply now hbefore
  have hedges : after.edgeCount = before.edgeCount + (b.newKeys before).ncard :=
    b.edgeCount_apply now hbefore
  have hgain : stats.inserted = (b.newKeys before).ncard := by
    have hsum : stats.inserted + before.edgeCount = after.edgeCount := hinserted
    omega
  exact ⟨hprocessed, hgain, hgain ▸ hedges, hall.trans hprocessed.symm, b.nodeCount_apply now⟩

end Accepted

end DepGraph
