import DepGraph.Proofs.Cycles.Completion

/-!
# The order of the cycles

The search meets the cycles in the lexicographic order of their paths. All cycles that it
finds by way of one successor begin alike up to and including that successor, and the
successors ascend, so that whatever is found by way of an earlier one is less – no matter
whether it closes the cycle there or goes on (`DepGraph.Ranked.Orderly.pairwise_onward`).
Ranks ascend as paths do, which carries the order over to the lists of paths
(`DepGraph.RepoGraph.Coherent.pairwise_cycles`).

The cap then cuts the *greatest* cycles off, and what it leaves does not depend on how much a
greater cap would have left in addition (`DepGraph.RepoGraph.cycles_take_ascending`). A report with
fewer cycles than the cap has all of them (`DepGraph.RepoGraph.cycles_exact`).
-/

namespace DepGraph

/-! ### The order of ranks -/

/-- Two lists that begin alike compare as their first difference does. -/
theorem append_cons_lt_append_cons (common : List Nat) {a b : Nat} (hab : a < b)
    (l l' : List Nat) : common ++ a :: l < common ++ b :: l' :=
  List.append_left_lt (List.cons_lt_cons_iff.mpr (Or.inl hab))

namespace Ranked

/-- Cycles that are found by way of a successor go on to it from the path. -/
theorem exists_of_mem_onwardVia {r : Ranked} {least start left next : Nat}
    {path cycle : List Nat} (h : cycle ∈ r.onwardVia least start left path next) :
    ∃ tail, cycle = path.reverse ++ next :: tail := by
  rw [onwardVia] at h
  split at h
  case isTrue hstart =>
    subst hstart
    split at h
    · exact ⟨[], List.mem_singleton.mp h⟩
    · exact absurd h List.not_mem_nil
  case isFalse =>
    split at h
    · exact absurd h List.not_mem_nil
    · obtain ⟨rest, rfl, -⟩ := mem_onward_iff.mp h
      exact ⟨rest ++ [start], by simp⟩

namespace Orderly

variable {r : Ranked}

/-- **The cycles that complete a path ascend.** -/
theorem pairwise_onward (hr : r.Orderly) (least start left current : Nat) (path : List Nat) :
    (r.onward least start left current path).Pairwise (· < ·) := by
  induction left generalizing current path with
  | zero => exact List.Pairwise.nil
  | succ left ih =>
    rw [onward_succ, List.pairwise_flatMap]
    refine ⟨fun next _ => ?_, (hr.ascending current).imp fun {a b} hab x hx y hy => ?_⟩
    · rw [onwardVia]
      split
      · split
        · exact List.pairwise_singleton _ _
        · exact List.Pairwise.nil
      · split
        · exact List.Pairwise.nil
        · exact ih next (next :: path)
    · -- by way of different successors: these are the first difference
      obtain ⟨tail, rfl⟩ := exists_of_mem_onwardVia hx
      obtain ⟨tail', rfl⟩ := exists_of_mem_onwardVia hy
      exact append_cons_lt_append_cons path.reverse hab tail tail'

/-- **All cycles ascend**, those of a lesser start coming first. -/
theorem pairwise_allCycles (hr : r.Orderly) (least greatest : Nat) :
    (r.allCycles least greatest).Pairwise (· < ·) := by
  rw [allCycles, List.pairwise_flatMap]
  refine ⟨fun start _ => hr.pairwise_onward .., List.pairwise_lt_range.imp ?_⟩
  intro a b hab x hx y hy
  obtain ⟨rest, rfl, -⟩ := mem_onward_iff.mp hx
  obtain ⟨rest', rfl, -⟩ := mem_onward_iff.mp hy
  exact append_cons_lt_append_cons [] hab (rest ++ [a]) (rest' ++ [b])

end Orderly

end Ranked

/-! ### The order of paths -/

/-- A function that keeps the order on what occurs in two lists keeps the order of the
lists. -/
theorem map_lt_map_of_mem {f : Nat → String} {l l' : List Nat}
    (hf : ∀ b ∈ l', ∀ a, a < b → f a < f b) (h : l < l') : l.map f < l'.map f := by
  induction h with
  | nil => exact List.nil_lt_cons _ _
  | @rel a l b l' hab =>
    exact List.cons_lt_cons_iff.mpr (Or.inl (hf b (List.mem_cons_self ..) a hab))
  | cons _ ih =>
    refine List.cons_lt_cons_iff.mpr (Or.inr ⟨rfl, ih fun b hb => hf b ?_⟩)
    exact List.mem_cons_of_mem _ hb

namespace RepoGraph

namespace Coherent

variable {g : RepoGraph}

theorem pairwise_map_allCycles (h : g.Coherent) (least greatest : Nat) :
    ((g.ranked.allCycles least greatest).map (·.map g.ranked.path)).Pairwise (· < ·) := by
  rw [List.pairwise_map]
  refine (h.orderly_ranked.pairwise_allCycles least greatest).imp_of_mem ?_
  intro cycle cycle' _ hcycle' hlt
  refine map_lt_map_of_mem (fun b hb a hab => ?_) hlt
  exact path_ranked_lt (h.orderly_ranked.lt_size_of_mem_allCycles hcycle' b hb) hab

/-- **The reported cycles ascend.** -/
theorem pairwise_cycles (h : g.Coherent) (q : CycleQuery) : (g.cycles q).Pairwise (· < ·) := by
  rw [h.cycles_eq_take]
  exact (h.pairwise_map_allCycles q.least q.greatest).sublist (List.take_sublist _ _)

/-- Every cycle that the cap cuts off is greater than all that are reported. -/
theorem lt_of_notMem_cycles (h : g.Coherent) {q : CycleQuery} {told reported : List String}
    (htold : g.TellsCycle q.least q.greatest told) (hcut : told ∉ g.cycles q)
    (hreported : reported ∈ g.cycles q) : reported < told := by
  have hascending := h.pairwise_map_allCycles q.least q.greatest
  have hmem := h.mem_allCycles_iff.mpr htold
  rw [h.cycles_eq_take] at hcut hreported
  rw [← List.take_append_drop q.limit (List.map _ _)] at hascending hmem
  have hdropped := (List.mem_append.mp hmem).resolve_left hcut
  exact (List.pairwise_append.mp hascending).2.2 reported hreported told hdropped

end Coherent

/-- **The cap only truncates.** A lesser cap leaves the first of the cycles that a greater one
leaves; the cycles ascend in the lexicographic order of their paths; and every cycle that the
lesser cap cuts off comes after all that it leaves. A cap cuts nothing off if fewer cycles are
reported than it allows (`DepGraph.RepoGraph.Coherent.mem_cycles_of_lt_limit`). -/
theorem cycles_take_ascending (writes : List Edge) (least greatest limit limit' : Nat)
    (hlimit : limit ≤ limit') :
    let g := empty.writeAll writes
    g.cycles ⟨least, greatest, limit⟩ = (g.cycles ⟨least, greatest, limit'⟩).take limit ∧
      (g.cycles ⟨least, greatest, limit'⟩).Pairwise (· < ·) ∧
      ∀ told, g.TellsCycle least greatest told → told ∉ g.cycles ⟨least, greatest, limit⟩ →
        ∀ reported ∈ g.cycles ⟨least, greatest, limit⟩, reported < told := by
  intro g
  have h : g.Coherent := coherent_writeAll_empty writes
  refine ⟨?_, h.pairwise_cycles _, fun told htold hcut reported hreported =>
    h.lt_of_notMem_cycles htold hcut hreported⟩
  rw [h.cycles_eq_take, h.cycles_eq_take, List.take_take, Nat.min_eq_left hlimit]

/-- Two cycles through one file, and a cap that leaves only the shorter one. -/
theorem cycles_take_ascending_of_overlapping :
    let g := empty.writeAll
      [⟨"a", "b", "import", 1.0, "run", ⟨0, 0⟩⟩, ⟨"b", "a", "import", 1.0, "run", ⟨0, 0⟩⟩,
        ⟨"b", "c", "import", 1.0, "run", ⟨0, 0⟩⟩, ⟨"c", "a", "import", 1.0, "run", ⟨0, 0⟩⟩]
    1 ≤ 2 ∧ g.cycles ⟨2, 6, 1⟩ = (g.cycles ⟨2, 6, 2⟩).take 1 ∧
      (g.cycles ⟨2, 6, 2⟩).Pairwise (· < ·) ∧
      ∀ told, g.TellsCycle 2 6 told → told ∉ g.cycles ⟨2, 6, 1⟩ →
        ∀ reported ∈ g.cycles ⟨2, 6, 1⟩, reported < told :=
  ⟨by decide, cycles_take_ascending _ 2 6 1 2 (by decide)⟩

end RepoGraph

end DepGraph
