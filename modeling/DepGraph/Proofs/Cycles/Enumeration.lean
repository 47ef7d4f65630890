import DepGraph.Proofs.Cycles.Order
import Mathlib.Data.Finset.Max
import Mathlib.Data.List.Cycle

/-!
# Every cycle is reported once

A cycle is the same from whichever of its files it is told; what the library calls a `Cycle`
is a list up to rotation. The reports tell each cycle of an admissible length from its least
file, exactly once and whatever parallel edges there are – unless the search has stopped
because it has found as many as are wanted (`DepGraph.RepoGraph.cycles_exact`).

That what is reported is a cycle, and that every list that tells one is reported, is in
`DepGraph.Proofs.Cycles.Completion`; that nothing is reported twice is read off the order of
the reports. What is left is that every cycle has one telling from its least file
(`DepGraph.RepoGraph.IsCycle.exists_tells`) and no second one
(`DepGraph.RepoGraph.TellsCycle.eq_of_tells`).
-/

namespace DepGraph

namespace RepoGraph

/-- **A cycle of a graph**, with a number of edges in a range: at least one file, none of
them twice, each depending on the next. -/
structure IsCycle (g : RepoGraph) (least greatest : Nat) (c : Cycle String) : Prop where
  /-- There is a file on it. -/
  nonempty : c ≠ Cycle.nil
  /-- No file is met twice. -/
  nodup : c.Nodup
  /-- Each file depends on the next, all the way round. -/
  chain : c.Chain g.DependsOn
  /-- It has enough edges. -/
  least_le : least ≤ c.length
  /-- It does not have too many. -/
  le_greatest : c.length ≤ greatest

/-- A list tells a cycle if it goes once round and ends where it began. -/
def Tells (told : List String) (c : Cycle String) : Prop :=
  ∃ first rest, told = first :: rest ++ [first] ∧ ((first :: rest : List String) : Cycle String) = c

/-- Two rotations of one list that begin with the same file are the same. -/
theorem eq_of_isRotated_cons {α : Type} {a : α} {l l' : List α} (h : (a :: l) ~r (a :: l'))
    (hnodup : (a :: l).Nodup) : l = l' := by
  obtain ⟨n, hn⟩ := h
  rw [← List.rotate_mod] at hn
  have hlt : n % (a :: l).length < (a :: l).length := Nat.mod_lt _ (Nat.succ_pos _)
  have hhead : (a :: l)[0]? = (a :: l)[n % (a :: l).length]? := by
    rw [← List.head?_rotate hlt, hn]
    rfl
  have hzero : 0 = n % (a :: l).length := (List.getElem?_inj (Nat.succ_pos _) hnodup).mp hhead
  rw [← hzero, List.rotate_zero] at hn
  exact (List.cons.inj hn).2

/-- **Every cycle is told from its least file** by some list. -/
theorem IsCycle.exists_tells {g : RepoGraph} {least greatest : Nat} {c : Cycle String}
    (h : g.IsCycle least greatest c) :
    ∃ told, Tells told c ∧ g.TellsCycle least greatest told := by
  obtain ⟨l, rfl⟩ : ∃ l : List String, (l : Cycle String) = c := Quotient.exists_rep c
  have hne : l ≠ [] := fun hnil => h.nonempty (hnil ▸ rfl)
  obtain ⟨first, hfirst, hmin⟩ :=
    l.toFinset.exists_min_image id ((List.toFinset_nonempty_iff l).mpr hne)
  -- the cycle is turned so that its least file comes first
  obtain ⟨before, after, rfl⟩ := List.append_of_mem (List.mem_toFinset.mp hfirst)
  have hrotated : (first :: after) ++ before ~r before ++ first :: after := List.isRotated_append
  have hcycle : ((first :: (after ++ before) : List String) : Cycle String) =
      (before ++ first :: after : List String) := Cycle.coe_eq_coe.mpr hrotated
  rw [← hcycle] at h
  have hnodup : (first :: (after ++ before)).Nodup := h.nodup
  refine ⟨first :: (after ++ before) ++ [first], ⟨first, after ++ before, rfl, hcycle⟩,
    ⟨first, after ++ before, rfl, hnodup, fun path hpath => ?_, h.least_le, h.le_greatest⟩,
    h.chain⟩
  have hmem : path ∈ before ++ first :: after :=
    hrotated.mem_iff.mp (List.mem_cons_of_mem _ hpath)
  refine lt_of_le_of_ne (hmin path (List.mem_toFinset.mpr hmem)) ?_
  rintro rfl
  exact (List.nodup_cons.mp hnodup).1 hpath

/-- What a list that tells a cycle from its least file says about its files. -/
theorem TellsCycle.least_first {g : RepoGraph} {least greatest : Nat} {first : String}
    {rest : List String} (h : g.TellsCycle least greatest (first :: rest ++ [first])) :
    (first :: rest).Nodup ∧ ∀ path ∈ first :: rest, first ≤ path := by
  obtain ⟨first', rest', heq, hnodup, hlt, -⟩ := h.shape
  obtain ⟨rfl, hrest⟩ := List.cons.inj heq
  obtain rfl : rest = rest' := List.append_cancel_right hrest
  exact ⟨hnodup, List.forall_mem_cons.mpr ⟨le_refl _, fun path hpath => (hlt path hpath).le⟩⟩

/-- **A cycle is told from its least file by one list only.** -/
theorem TellsCycle.eq_of_tells {g : RepoGraph} {least greatest : Nat} {c : Cycle String}
    {told told' : List String} (h : g.TellsCycle least greatest told)
    (h' : g.TellsCycle least greatest told') (hc : Tells told c) (hc' : Tells told' c) :
    told = told' := by
  obtain ⟨first, rest, rfl, hcycle⟩ := hc
  obtain ⟨first', rest', rfl, hcycle'⟩ := hc'
  have hrotated : (first :: rest) ~r (first' :: rest') :=
    Cycle.coe_eq_coe.mp (hcycle.trans hcycle'.symm)
  -- both lists begin with the least file of the same cycle
  have hle := h.least_first.2 first' (hrotated.mem_iff.mpr (List.mem_cons_self ..))
  have hle' := h'.least_first.2 first (hrotated.mem_iff.mp (List.mem_cons_self ..))
  obtain rfl := le_antisymm hle hle'
  rw [eq_of_isRotated_cons hrotated h.least_first.1]

namespace Coherent

variable {g : RepoGraph} {q : CycleQuery}

/-- What is reported tells a cycle from its least file. -/
theorem tellsCycle_of_mem_cycles (h : g.Coherent) {told : List String}
    (hmem : told ∈ g.cycles q) : g.TellsCycle q.least q.greatest told := by
  rw [h.cycles_eq_take] at hmem
  exact h.mem_allCycles_iff.mp (List.mem_of_mem_take hmem)

theorem nodup_cycles (h : g.Coherent) : (g.cycles q).Nodup :=
  (h.pairwise_cycles q).imp ne_of_lt

theorem length_cycles_le (h : g.Coherent) : (g.cycles q).length ≤ q.limit := by
  rw [h.cycles_eq_take]
  exact List.length_take_le _ _

/-- **Whatever tells a cycle from its least file is reported**, if the cap is not reached. -/
theorem mem_cycles_of_lt_limit (h : g.Coherent) (hlt : (g.cycles q).length < q.limit)
    {told : List String} (htold : g.TellsCycle q.least q.greatest told) : told ∈ g.cycles q := by
  have hmem := h.mem_allCycles_iff.mpr htold
  rw [h.cycles_eq_take, List.length_take] at hlt
  rwa [h.cycles_eq_take, List.take_of_length_le (by omega)]

end Coherent

/-- A list that tells a cycle from its least file tells one of the graph. -/
theorem TellsCycle.exists_isCycle {g : RepoGraph} {least greatest : Nat} {told : List String}
    (h : g.TellsCycle least greatest told) : ∃ c, g.IsCycle least greatest c := by
  obtain ⟨⟨first, rest, rfl, hnodup, -, hleast, hgreatest⟩, hchain⟩ := h
  exact ⟨(first :: rest : List String), by simp, hnodup, hchain, hleast, hgreatest⟩

/-- **Some cycle is reported if there is any**, and if any are wanted. -/
theorem Coherent.cycles_ne_nil_iff {g : RepoGraph} (h : g.Coherent) {q : CycleQuery}
    (hlimit : 0 < q.limit) : g.cycles q ≠ [] ↔ ∃ c, g.IsCycle q.least q.greatest c := by
  constructor
  · intro hne
    obtain ⟨told, htold⟩ := List.exists_mem_of_ne_nil _ hne
    exact (h.tellsCycle_of_mem_cycles htold).exists_isCycle
  · rintro ⟨c, hc⟩ hnil
    obtain ⟨told, -, htold⟩ := hc.exists_tells
    have hlt : (g.cycles q).length < q.limit := by
      rw [hnil]
      exact hlimit
    exact List.not_mem_nil (hnil ▸ h.mem_cycles_of_lt_limit hlt htold)

/-- **Every cycle is reported once.** What is reported are lists that tell a cycle from its
least file, no list twice and no cycle by two lists, and not more than are wanted. If fewer
are reported than are wanted then every such list is reported, and hence every cycle. -/
theorem cycles_exact (writes : List Edge) (q : CycleQuery) :
    let g := empty.writeAll writes
    (∀ told ∈ g.cycles q, g.TellsCycle q.least q.greatest told) ∧
      (g.cycles q).Nodup ∧
      (∀ c, ∀ told ∈ g.cycles q, ∀ told' ∈ g.cycles q, Tells told c → Tells told' c →
        told = told') ∧
      (g.cycles q).length ≤ q.limit ∧
      ((g.cycles q).length < q.limit →
        (∀ told, g.TellsCycle q.least q.greatest told → told ∈ g.cycles q) ∧
        ∀ c, g.IsCycle q.least q.greatest c → ∃! told, told ∈ g.cycles q ∧ Tells told c) := by
  intro g
  have h : g.Coherent := coherent_writeAll_empty writes
  refine ⟨fun told => h.tellsCycle_of_mem_cycles, h.nodup_cycles,
    fun c told htold told' htold' hc hc' => ?_, h.length_cycles_le, fun hlt =>
    ⟨fun told => h.mem_cycles_of_lt_limit hlt, fun c hcycle => ?_⟩⟩
  · exact (h.tellsCycle_of_mem_cycles htold).eq_of_tells (h.tellsCycle_of_mem_cycles htold') hc hc'
  · obtain ⟨told, hc, htold⟩ := hcycle.exists_tells
    refine ⟨told, ⟨h.mem_cycles_of_lt_limit hlt htold, hc⟩, ?_⟩
    rintro told' ⟨htold', hc'⟩
    exact (h.tellsCycle_of_mem_cycles htold').eq_of_tells htold hc' hc

end RepoGraph

end DepGraph
