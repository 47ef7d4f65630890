import DepGraph.Proofs.Cycles.Enumeration
import DepGraph.Proofs.Impact.Distance

/-!
# Files on one cycle impact each other

Two searches that know nothing of each other have to agree. The files of a reported cycle are
all in the impact of each other, and not further away than it is along the cycle
(`DepGraph.RepoGraph.Coherent.exists_mem_impact_of_mem_cycles`). Conversely, two files that
are in the impact of each other have a cycle through each of them that is not longer than the
two distances together (`DepGraph.RepoGraph.Walk.exists_isCycle`); if it is short enough to be
reported and the cap is not reached, then it is reported, from its least file on
(`DepGraph.RepoGraph.cycles_agree_with_impact`).
-/

namespace DepGraph

namespace RepoGraph

variable {g : RepoGraph}

/-! ### From cycles to impacts -/

/-- **Along a cycle there is a walk from each file to each other one**: either straight on, or
through the file at which the cycle is closed. -/
theorem walk_around {first : String} {rest : List String}
    (h : (first :: rest ++ [first]).IsChain g.DependsOn) {i j : Nat}
    (hi : i < (first :: rest).length) (hj : j < (first :: rest).length) :
    g.Walk ((j + (first :: rest).length - i) % (first :: rest).length)
      (first :: rest)[i] (first :: rest)[j] := by
  have hlength : (first :: rest ++ [first]).length = (first :: rest).length + 1 :=
    List.length_append
  have hget : ∀ k (hk : k < (first :: rest).length),
      (first :: rest ++ [first])[k] = (first :: rest)[k] := fun k hk =>
    List.getElem_append_left hk
  rcases Nat.lt_or_ge j i with hji | hij
  · -- the walk leads through the file at which the cycle is closed
    have hon := Walk.of_isChain h i ((first :: rest).length - i) (by omega)
    rw [hget i hi, List.getElem_concat_length (by omega)] at hon
    have hback := Walk.of_isChain h 0 j (by omega)
    simp only [Nat.zero_add, hget j hj] at hback
    have hturn : (j + (first :: rest).length - i) % (first :: rest).length =
        (first :: rest).length - i + j := by
      rw [Nat.mod_eq_of_lt (by omega)]
      omega
    rw [hturn]
    exact hon.trans hback
  · have hon := Walk.of_isChain h i (j - i) (by omega)
    simp only [Nat.add_sub_cancel' hij, hget i hi, hget j hj] at hon
    have hturn : (j + (first :: rest).length - i) % (first :: rest).length = j - i := by
      rw [Nat.sub_add_comm hij, Nat.add_mod_right, Nat.mod_eq_of_lt (by omega)]
    rw [hturn]
    exact hon

/-- **The files of a reported cycle impact each other**, and are not further away from each
other than along the cycle. -/
theorem Coherent.exists_mem_impact_of_mem_cycles (h : g.Coherent) {q : CycleQuery}
    {told : List String} (htold : told ∈ g.cycles q) {i j : Nat} (hi : i < told.dropLast.length)
    (hj : j < told.dropLast.length) (hij : i ≠ j) :
    ∃ distance ≤ (j + told.dropLast.length - i) % told.dropLast.length,
      ⟨told.dropLast[j], distance⟩ ∈ g.impact told.dropLast[i] (told.dropLast.length - 1) := by
  obtain ⟨⟨first, rest, rfl, hnodup, -⟩, hchain⟩ := h.tellsCycle_of_mem_cycles htold
  simp only [List.dropLast_concat] at hi hj ⊢
  have hwalk := walk_around hchain hi hj
  have hturn := Nat.mod_lt (j + (first :: rest).length - i) (Nat.zero_lt_of_lt hi)
  obtain ⟨distance, hdistance⟩ := hwalk.exists_isDistance
  have hle := hdistance.le _ hwalk
  refine ⟨distance, hle, h.mem_impact_iff.mpr ⟨fun heq => hij ?_, by omega, hdistance⟩⟩
  exact (hnodup.getElem_inj_iff).mp heq

/-! ### From impacts to cycles -/

/-- **Files that can be walked to from each other are on a cycle**, each of them on one that is
not longer than the two walks. -/
theorem Walk.exists_isCycle {n m : Nat} {a b : String} (hthere : g.Walk n a b)
    (hback : g.Walk m b a) (hne : a ≠ b) : ∃ c : Cycle String, g.IsCycle 2 (n + m) c ∧ a ∈ c := by
  obtain ⟨next, rest, hchain, hnodup, hlength⟩ := hthere.exists_cycle hback hne
  exact ⟨(a :: next :: rest : List String), ⟨by simp, hnodup, hchain, by simp, hlength⟩, by simp⟩

/-- A list that tells a cycle tells it for any range that its length is in. -/
theorem TellsCycle.mono {least greatest greatest' : Nat} {told : List String}
    (h : g.TellsCycle least greatest told) (hle : greatest ≤ greatest') :
    g.TellsCycle least greatest' told := by
  obtain ⟨⟨first, rest, heq, hnodup, hfirst, hleast, hgreatest⟩, hchain⟩ := h
  exact ⟨⟨first, rest, heq, hnodup, hfirst, hleast, hgreatest.trans hle⟩, hchain⟩

/-- **Reported cycles and impacts agree.** Any two files of a reported cycle are in the impact of
each other, and not further away than along the cycle. If two files are in the impact of each
other, at distances that are together not more than the greatest length of a reported cycle,
and the cap is not reached, then a cycle through the first of them is reported that is not
longer than these distances together. -/
theorem cycles_agree_with_impact (writes : List Edge) (limit : Nat) :
    let g := empty.writeAll writes
    (∀ told ∈ g.cycles ⟨2, 6, limit⟩, ∀ i j, (hi : i < told.dropLast.length) →
      (hj : j < told.dropLast.length) → i ≠ j →
        ∃ distance ≤ (j + told.dropLast.length - i) % told.dropLast.length,
          ⟨told.dropLast[j], distance⟩ ∈
            g.impact told.dropLast[i] (told.dropLast.length - 1)) ∧
      ((g.cycles ⟨2, 6, limit⟩).length < limit →
        ∀ a b there back depth depth', a ≠ b → ⟨b, there⟩ ∈ g.impact a depth →
          ⟨a, back⟩ ∈ g.impact b depth' → there + back ≤ 6 →
            ∃ told ∈ g.cycles ⟨2, 6, limit⟩, a ∈ told.dropLast ∧
              told.dropLast.length ≤ there + back) := by
  intro g
  have h : g.Coherent := coherent_writeAll_empty writes
  refine ⟨fun told htold i j hi hj hij => h.exists_mem_impact_of_mem_cycles htold hi hj hij,
    fun hlt a b there back depth depth' hne hthere hback hsum => ?_⟩
  have hthere := (h.mem_impact_iff.mp hthere).2.2.walk
  have hback := (h.mem_impact_iff.mp hback).2.2.walk
  -- the list that tells the cycle begins with its least file, which need not be one of the two
  obtain ⟨c, hcycle, ha⟩ := hthere.exists_isCycle hback hne
  obtain ⟨told, htells, htold⟩ := hcycle.exists_tells
  refine ⟨told, h.mem_cycles_of_lt_limit hlt (htold.mono hsum), ?_⟩
  obtain ⟨first, rest, rfl, rfl⟩ := htells
  rw [List.dropLast_concat]
  exact ⟨Cycle.mem_coe_iff.mp ha, hcycle.le_greatest⟩

end RepoGraph

end DepGraph
