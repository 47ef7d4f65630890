import DepGraph.Proofs.Hotspots
import Mathlib.Algebra.BigOperators.Group.Finset.Basic
import Mathlib.Combinatorics.Enumerative.DoubleCounting

/-!
# The neighbours of a file as finite sets

Which files a file depends on, and which depend on it, can be read off the list of all edges:
collect the other ends of the edges that have the file at one end, and keep one of each
(`DepGraph.RepoGraph.dependencies`, `DepGraph.RepoGraph.dependents`). In the same way the pairs of
files of which one depends on the other are the pairs of ends (`DepGraph.RepoGraph.dependences`).
How often a pair is joined, and by edges of which types, does not matter to any of them. The degrees
of a file are the sizes of the first two (`DepGraph.RepoGraph.outDegree_degrees`,
`DepGraph.RepoGraph.inDegree_degrees`).

Sorted by their first files the pairs are counted as a sum over the files
(`DepGraph.RepoGraph.Coherent.sum_card_dependencies`), and so they are by their second files, by
counting twice (`DepGraph.RepoGraph.Coherent.sum_card_dependents`).
-/

namespace DepGraph

namespace RepoGraph

open Finset

variable {g : RepoGraph} {a b path other : String}

/-- The files that a file depends on. -/
def dependencies (g : RepoGraph) (path : String) : Finset String :=
  ((g.edges.filter fun e => e.source = path).map Edge.target).toFinset

/-- The files that depend on a file. -/
def dependents (g : RepoGraph) (path : String) : Finset String :=
  ((g.edges.filter fun e => e.target = path).map Edge.source).toFinset

/-- The pairs of files of which the first depends on the second. -/
def dependences (g : RepoGraph) : Finset (String × String) :=
  (g.edges.map fun e => (e.source, e.target)).toFinset

@[simp] theorem mem_dependencies : other ∈ g.dependencies path ↔ g.DependsOn path other := by
  simp [dependencies, DependsOn, and_assoc]

@[simp] theorem mem_dependents : other ∈ g.dependents path ↔ g.DependsOn other path := by
  simp [dependents, DependsOn, and_assoc, and_comm]

@[simp] theorem mem_dependences : (a, b) ∈ g.dependences ↔ g.DependsOn a b := by
  simp [dependences, DependsOn]

instance (g : RepoGraph) : DecidableRel g.DependsOn := fun _ _ =>
  decidable_of_iff _ mem_dependencies

/-! ### Degrees -/

theorem outDegree_degrees (g : RepoGraph) (path : String) :
    (g.degrees path).outDegree = #(g.dependencies path) := by
  rw [← Set.ncard_coe_finset]
  exact congrArg Set.ncard (Set.ext fun _ => mem_dependencies.symm)

theorem inDegree_degrees (g : RepoGraph) (path : String) :
    (g.degrees path).inDegree = #(g.dependents path) := by
  rw [← Set.ncard_coe_finset]
  exact congrArg Set.ncard (Set.ext fun _ => mem_dependents.symm)

/-! ### Counting pairs of files -/

namespace Coherent

/-- **Pairs are counted by their first files.** -/
theorem sum_card_dependencies (h : g.Coherent) :
    ∑ path ∈ g.files.toList.toFinset, #(g.dependencies path) = #g.dependences := by
  have hmaps : Set.MapsTo Prod.fst (g.dependences : Set (String × String))
      g.files.toList.toFinset := fun ⟨_, _⟩ hab =>
    List.mem_toFinset.mpr (h.mem_files_of_dependsOn (mem_dependences.mp hab)).1
  rw [card_eq_sum_card_fiberwise hmaps]
  refine sum_congr rfl fun path _ => ?_
  have hfiber : {pair ∈ g.dependences | pair.1 = path} =
      (g.dependencies path).map ⟨(path, ·), Prod.mk_right_injective path⟩ := by
    ext ⟨a, b⟩
    simp only [mem_filter, mem_dependences, mem_map, mem_dependencies, Function.Embedding.coeFn_mk,
      Prod.mk.injEq, exists_eq_right_right]
    constructor
    · rintro ⟨hab, rfl⟩
      exact ⟨hab, rfl⟩
    · rintro ⟨hab, rfl⟩
      exact ⟨hab, rfl⟩
  rw [hfiber, card_map]

/-- **Pairs are counted by their second files**, and come to as many. -/
theorem sum_card_dependents (h : g.Coherent) :
    ∑ path ∈ g.files.toList.toFinset, #(g.dependents path) = #g.dependences := by
  have habove : ∀ a ∈ g.files.toList.toFinset,
      bipartiteAbove g.DependsOn g.files.toList.toFinset a = g.dependencies a := fun a _ => by
    ext b
    rw [mem_bipartiteAbove, mem_dependencies, List.mem_toFinset]
    exact and_iff_right_of_imp fun hab => (h.mem_files_of_dependsOn hab).2
  have hbelow : ∀ b ∈ g.files.toList.toFinset,
      bipartiteBelow g.DependsOn g.files.toList.toFinset b = g.dependents b := fun b _ => by
    ext a
    rw [mem_bipartiteBelow, mem_dependents, List.mem_toFinset]
    exact and_iff_right_of_imp fun hab => (h.mem_files_of_dependsOn hab).1
  calc ∑ path ∈ g.files.toList.toFinset, #(g.dependents path)
      = ∑ b ∈ g.files.toList.toFinset,
          #(bipartiteBelow g.DependsOn g.files.toList.toFinset b) :=
        sum_congr rfl fun b hb => by rw [hbelow b hb]
    _ = ∑ a ∈ g.files.toList.toFinset,
          #(bipartiteAbove g.DependsOn g.files.toList.toFinset a) :=
        (sum_card_bipartiteAbove_eq_sum_card_bipartiteBelow g.DependsOn).symm
    _ = ∑ path ∈ g.files.toList.toFinset, #(g.dependencies path) :=
        sum_congr rfl fun a ha => by rw [habove a ha]
    _ = #g.dependences := h.sum_card_dependencies

end Coherent

end RepoGraph

end DepGraph
