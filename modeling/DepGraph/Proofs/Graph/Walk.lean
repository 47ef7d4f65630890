import DepGraph.Proofs.Graph.Dependence
import Mathlib.Data.List.Chain
import Mathlib.Data.Nat.Find

/-!
# Walks along dependences

A *walk* goes from file to file, each depending on the next, and may come back to a file as
often as it likes (`DepGraph.RepoGraph.Walk`). How far one file is from another is how long
the shortest walk is (`DepGraph.RepoGraph.IsDistance`).

What a walk loses when its loops are cut out is said for chains of any relation
(`DepGraph.exists_nodup_of_isChain`): a chain can be shortened to one that meets nothing
twice, begins and ends as before and meets nothing new. A walk away from a file and a walk
back to it then make a cycle through this file, although the two may have any number of files
in common (`DepGraph.RepoGraph.Walk.exists_cycle`).
-/

namespace DepGraph

/-! ### Cutting out loops -/

section Loops

variable {α : Type} {R : α → α → Prop}

/-- **A chain with its loops cut out**: nothing is met twice, the ends are the same, and
nothing new is met. -/
theorem exists_nodup_of_isChain {a : α} {way : List α} (h : (a :: way).IsChain R) :
    ∃ path, (a :: path).IsChain R ∧ (a :: path).Nodup ∧
      (a :: path).getLast? = (a :: way).getLast? ∧ path.length ≤ way.length ∧ path ⊆ way := by
  induction way generalizing a with
  | nil => exact ⟨[], h, List.nodup_singleton a, rfl, Nat.le_refl _, fun _ hb => hb⟩
  | cons b way ih =>
    obtain ⟨hab, hchain⟩ := List.isChain_cons_cons.mp h
    obtain ⟨path, hpath, hnodup, hlast, hlength, hsub⟩ := ih hchain
    have hlast' : (b :: path).getLast? = (a :: b :: way).getLast? := by
      rw [hlast, List.getLast?_cons_cons]
    have hsub' : b :: path ⊆ b :: way := List.cons_subset_cons b hsub
    by_cases ha : a ∈ b :: path
    · -- the chain comes back to where it began: what lies between is a loop
      obtain ⟨loop, rest, hsplit⟩ := List.append_of_mem ha
      have hrest : rest ⊆ b :: way := fun c hc =>
        hsub' (hsplit ▸ List.mem_append_right _ (List.mem_cons_of_mem _ hc))
      have hshort : (loop ++ a :: rest).length = (b :: path).length := by rw [hsplit]
      rw [hsplit] at hpath hnodup hlast'
      refine ⟨rest, hpath.right_of_append, (List.nodup_append.mp hnodup).2.1, ?_, ?_, hrest⟩
      · rw [← hlast', List.getLast?_append_cons]
      · simp only [List.length_append, List.length_cons] at hshort ⊢
        omega
    · refine ⟨b :: path, List.isChain_cons_cons.mpr ⟨hab, hpath⟩, List.nodup_cons.mpr ⟨ha, hnodup⟩,
        ?_, Nat.succ_le_succ hlength, hsub'⟩
      rw [List.getLast?_cons_cons, hlast']

end Loops

namespace RepoGraph

/-! ### Walks -/

/-- **A walk** of some length from one file to another. -/
inductive Walk (g : RepoGraph) : Nat → String → String → Prop
  /-- To stay is a walk without a step. -/
  | stay (a : String) : Walk g 0 a a
  /-- A walk goes on to a file that the last one depends on. -/
  | go {n : Nat} {a b c : String} (walk : Walk g n a b) (step : g.DependsOn b c) :
    Walk g (n + 1) a c

/-- **How far one file is from another**: the length of a shortest walk. -/
structure IsDistance (g : RepoGraph) (a b : String) (distance : Nat) : Prop where
  /-- There is a walk of this length. -/
  walk : g.Walk distance a b
  /-- There is no shorter one. -/
  le : ∀ n, g.Walk n a b → distance ≤ n

namespace IsDistance

variable {g : RepoGraph} {distance distance' : Nat} {a b : String}

/-- There is only one distance. -/
theorem unique (h : g.IsDistance a b distance) (h' : g.IsDistance a b distance') :
    distance = distance' :=
  Nat.le_antisymm (h.le _ h'.walk) (h'.le _ h.walk)

/-- Another file is at least one step away. -/
theorem pos (h : g.IsDistance a b distance) (hne : a ≠ b) : 1 ≤ distance := by
  cases h.walk with
  | stay => exact absurd rfl hne
  | go _ _ => exact Nat.succ_pos _

/-- One step away are the other files that a file depends on. -/
theorem one_iff : g.IsDistance a b 1 ↔ b ≠ a ∧ g.DependsOn a b := by
  constructor
  · rintro ⟨hwalk, hle⟩
    refine ⟨?_, ?_⟩
    · rintro rfl
      exact absurd (hle 0 (.stay b)) (by decide)
    · cases hwalk with
      | go hwalk hstep =>
        cases hwalk with
        | stay => exact hstep
  · rintro ⟨hne, hdepends⟩
    refine ⟨(Walk.stay a).go hdepends, fun n hwalk => ?_⟩
    cases hwalk with
    | stay => exact absurd rfl hne
    | go _ _ => exact Nat.succ_pos _

end IsDistance

namespace Walk

variable {g : RepoGraph} {n m : Nat} {a b c : String}

/-- A walk that leads somewhere else begins with a step. -/
theorem exists_dependsOn_of_ne (h : g.Walk n a b) (hne : a ≠ b) : ∃ c, g.DependsOn a c := by
  induction h with
  | stay a => exact absurd rfl hne
  | @go n a b c _ hstep ih =>
    rcases eq_or_ne a b with rfl | hab
    · exact ⟨c, hstep⟩
    · exact ih hab

/-- Where a walk leads to is at some distance. -/
theorem exists_isDistance (h : g.Walk n a b) : ∃ distance, g.IsDistance a b distance := by
  classical
  have hwalk : ∃ n, g.Walk n a b := ⟨n, h⟩
  exact ⟨Nat.find hwalk, Nat.find_spec hwalk, fun _ hn => Nat.find_min' hwalk hn⟩

/-- A walk is one of every other graph that has the same dependences, or more. -/
theorem imp {g' : RepoGraph} (hdepends : ∀ a b, g.DependsOn a b → g'.DependsOn a b)
    (h : g.Walk n a b) : g'.Walk n a b := by
  induction h with
  | stay a => exact .stay a
  | go _ hstep ih => exact ih.go (hdepends _ _ hstep)

/-- A walk goes on where another one has led to. -/
theorem trans (hab : g.Walk n a b) (hbc : g.Walk m b c) : g.Walk (n + m) a c := by
  induction hbc with
  | stay b => exact hab
  | go _ hstep ih => exact (ih hab).go hstep

/-- A chain of dependences is a walk from any of its files to any later one. -/
theorem of_isChain {way : List String} (h : way.IsChain g.DependsOn) (i n : Nat)
    (hlt : i + n < way.length) : g.Walk n way[i] way[i + n] := by
  induction n with
  | zero => exact .stay _
  | succ n ih => exact (ih (by omega)).go (List.isChain_iff_getElem.mp h (i + n) hlt)

/-- The files on a walk as a list, without the first one. -/
theorem exists_isChain (h : g.Walk n a b) :
    ∃ way, (a :: way).IsChain g.DependsOn ∧ (a :: way).getLast? = some b ∧ way.length = n := by
  induction h with
  | stay a => exact ⟨[], List.isChain_singleton a, rfl, rfl⟩
  | @go n a b c _ hstep ih =>
    obtain ⟨way, hchain, hlast, hlength⟩ := ih
    refine ⟨way ++ [c], ?_, ?_, by rw [List.length_append, hlength]; rfl⟩
    · refine List.isChain_append.mpr ⟨hchain, List.isChain_singleton c, fun x hx y hy => ?_⟩
      obtain rfl : b = x := Option.some.inj (hlast.symm.trans hx)
      obtain rfl : c = y := Option.some.inj hy
      exact hstep
    · rw [← List.cons_append, List.getLast?_append]
      rfl

/-- A walk with its loops cut out. -/
theorem exists_path (h : g.Walk n a b) :
    ∃ path, (a :: path).IsChain g.DependsOn ∧ (a :: path).Nodup ∧
      (a :: path).getLast? = some b ∧ path.length ≤ n := by
  obtain ⟨way, hchain, hlast, rfl⟩ := h.exists_isChain
  obtain ⟨path, hpath, hnodup, hlast', hlength, -⟩ := exists_nodup_of_isChain hchain
  exact ⟨path, hpath, hnodup, hlast'.trans hlast, hlength⟩

/-- **There and back again is a cycle**, after loops have been cut out: a walk to another file
and a walk back make a cycle through the first file that is not longer than the two. -/
theorem exists_cycle (hthere : g.Walk n a b) (hback : g.Walk m b a) (hne : a ≠ b) :
    ∃ first rest, (a :: first :: rest ++ [a]).IsChain g.DependsOn ∧
      (a :: first :: rest).Nodup ∧ (a :: first :: rest).length ≤ n + m := by
  obtain ⟨there, hthere, hnodup, hlast, hn⟩ := hthere.exists_path
  obtain ⟨back, hback, hnodup', hlast', hm⟩ := hback.exists_path
  -- the way there has a first file, and the way back ends with the file that it leads to
  obtain ⟨first, there, rfl⟩ : ∃ first rest, there = first :: rest := by
    refine List.exists_cons_of_ne_nil fun hnil => hne ?_
    rw [hnil] at hlast
    exact Option.some.inj hlast
  obtain ⟨home, rfl⟩ : ∃ home, back = home ++ [a] := by
    obtain ⟨home, hhome⟩ := List.getLast?_eq_some_iff.mp hlast'
    cases home with
    | nil => exact absurd (List.cons.inj hhome).1.symm hne
    | cons _ home => exact ⟨home, (List.cons.inj hhome).2⟩
  have hround : (a :: first :: there ++ (home ++ [a])).IsChain g.DependsOn := by
    refine List.isChain_append.mpr ⟨hthere, hback.tail, fun x hx y hy => ?_⟩
    obtain rfl : b = x := Option.some.inj (hlast.symm.trans hx)
    exact (List.isChain_cons.mp hback).1 y hy
  have hnew : a ∉ first :: there ++ home := by
    rw [List.mem_append, not_or]
    refine ⟨(List.nodup_cons.mp hnodup).1, fun hmem => ?_⟩
    exact List.disjoint_of_nodup_append (List.nodup_cons.mp hnodup').2 hmem
      (List.mem_singleton_self a)
  -- loops are cut out of what lies between, so that the first file stays where it is
  have hinner : (first :: (there ++ home) ++ [a]).IsChain g.DependsOn := by
    simpa using hround.tail
  obtain ⟨hchain, -, hclose⟩ := List.isChain_append.mp hinner
  obtain ⟨rest, hrest, hdistinct, hends, hlength, hsub⟩ := exists_nodup_of_isChain hchain
  refine ⟨first, rest, List.isChain_cons_cons.mpr ⟨(List.isChain_cons_cons.mp hthere).1, ?_⟩,
    List.nodup_cons.mpr ⟨fun hmem => hnew (List.cons_subset_cons first hsub hmem), hdistinct⟩, ?_⟩
  · exact List.isChain_append.mpr ⟨hrest, List.isChain_singleton a, hends ▸ hclose⟩
  · simp only [List.length_cons, List.length_append, List.length_nil] at hlength hn hm ⊢
    omega

end Walk

end RepoGraph

end DepGraph
