import Mathlib.Data.List.Sort
import Mathlib.Data.String.Basic

/-!
# Ranked lists

Reports put the things that they list into an order of ranks, and things of one rank into the
order of their paths (`DepGraph.Ascends`). When no path occurs twice this order has no ties: a
list that is sorted by it ascends strictly (`DepGraph.pairwise_ascends_mergeSort`), and there is
only one such list with given members (`DepGraph.eq_of_ascends`). So it does not matter in
which order the members were found.

Ranks may be compared the other way round, which is what the order dual is for.
-/

namespace DepGraph

variable {α β : Type} [LinearOrder β] {rank : α → β} {path : α → String}

/-- **The order of a ranked list**: by ranks, and by paths among equal ranks. -/
def Ascends (rank : α → β) (path : α → String) (a b : α) : Prop :=
  rank a < rank b ∨ rank a = rank b ∧ path a < path b

theorem Ascends.asymm {a b : α} (hab : Ascends rank path a b) : ¬Ascends rank path b a := by
  rintro (hlt' | ⟨heq', hlt'⟩)
  · rcases hab with hlt | ⟨heq, -⟩
    · exact lt_asymm hlt hlt'
    · exact hlt'.ne heq.symm
  · rcases hab with hlt | ⟨-, hlt⟩
    · exact hlt.ne heq'.symm
    · exact lt_asymm hlt hlt'

instance : Std.Irrefl (Ascends rank path) := ⟨fun _ h => h.asymm h⟩

instance : Std.Antisymm (Ascends rank path) := ⟨fun _ _ hab hba => absurd hba hab.asymm⟩

/-- **There is only one ranked list with given members.** -/
theorem eq_of_ascends {l l' : List α} (h : l.Pairwise (Ascends rank path))
    (h' : l'.Pairwise (Ascends rank path)) (hmem : ∀ a, a ∈ l ↔ a ∈ l') : l = l' :=
  h.eq_of_mem_iff h' hmem

/-- **Sorting makes a ranked list**, if no path occurs twice. -/
theorem pairwise_ascends_mergeSort {le : α → α → Bool}
    (hle : ∀ a b, le a b = true ↔ rank a < rank b ∨ rank a = rank b ∧ path a ≤ path b)
    {l : List α} (hnodup : (l.map path).Nodup) :
    (l.mergeSort le).Pairwise (Ascends rank path) := by
  have htrans : ∀ a b c, le a b = true → le b c = true → le a c = true := by
    intro a b c hab hbc
    rw [hle] at hab hbc ⊢
    rcases hab with hab | ⟨hab, hpath⟩ <;> rcases hbc with hbc | ⟨hbc, hpath'⟩
    · exact Or.inl (hab.trans hbc)
    · exact Or.inl (hbc ▸ hab)
    · exact Or.inl (hab ▸ hbc)
    · exact Or.inr ⟨hab.trans hbc, hpath.trans hpath'⟩
  have htotal : ∀ a b, (le a b || le b a) = true := by
    intro a b
    rw [Bool.or_eq_true, hle, hle]
    rcases lt_trichotomy (rank a) (rank b) with hlt | heq | hlt
    · exact Or.inl (Or.inl hlt)
    · exact (le_total (path a) (path b)).imp (fun h => Or.inr ⟨heq, h⟩) fun h =>
        Or.inr ⟨heq.symm, h⟩
    · exact Or.inr (Or.inl hlt)
  have hpaths : ((l.mergeSort le).map path).Nodup :=
    ((List.mergeSort_perm l le).map path).nodup_iff.mpr hnodup
  refine ((List.pairwise_mergeSort htrans htotal l).and (List.pairwise_map.mp hpaths)).imp ?_
  rintro a b ⟨hab, hne⟩
  exact ((hle a b).mp hab).imp_right fun ⟨heq, hpath⟩ => ⟨heq, lt_of_le_of_ne hpath hne⟩

end DepGraph
