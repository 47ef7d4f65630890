import DepGraph.Graph.Impact
import DepGraph.Proofs.Graph.Walk
import Mathlib.Data.List.Lattice
import Mathlib.Data.List.Perm.Subperm

/-!
# The layers of a breadth-first search

A search sees the files in layers: first the start, then all files one step away from it,
then those two steps away, and so on. What makes this so is the order of the queue. Put the
files in the order in which they are seen (`DepGraph.Wave.seen`). The queue is the end of this
list, the distances in it never descend, and none exceeds the distance at the front of the
queue by more than one (`DepGraph.Wave.Layered`). So whatever the front discovers is seen at a
distance that is as great as any, and belongs at the end.

A step moves the front of the queue over to the files that have been dealt with
(`DepGraph.Wave.Layered.step`). As every file is seen only once, after as many steps as there
are files the queue is empty (`DepGraph.Wave.Layered.finished`): every file that has
been seen has been dealt with.
-/

namespace DepGraph

namespace Wave

/-! ### Discovering the neighbours of a file -/

/-- **What discovering files at a distance does**: those that have not been seen before are
noted, each once and in some order, and nothing else changes. -/
structure Discovers (distance : Nat) (files : List Nat) (w w' : Wave) (new : List Nat) :
    Prop where
  /-- The new files are those that have not been seen before. -/
  mem_iff : ∀ file, file ∈ new ↔ file ∈ files ∧ ¬w.visited.contains file
  /-- No file is new twice. -/
  nodup : new.Nodup
  /-- The new files are to be dealt with later. -/
  queue : w'.queue = w.queue ++ new.map (·, distance)
  /-- The new files are affected. -/
  affected : w'.affected.toList = w.affected.toList ++ new.map (·, distance)
  /-- The new files have been seen. -/
  visited_iff : ∀ file, w'.visited.contains file ↔ w.visited.contains file ∨ file ∈ new

theorem contains_insert_iff {files : Std.HashSet Nat} {file other : Nat} :
    (files.insert file).contains other ↔ files.contains other ∨ other = file := by
  rw [Std.HashSet.contains_insert, Bool.or_eq_true, beq_iff_eq, or_comm, @eq_comm _ file]

theorem discover_of_visited {w : Wave} {file : Nat} (h : w.visited.contains file)
    (distance : Nat) : w.discover distance file = w := by
  rw [discover, if_pos h]

/-- Discovering one file after another notes each of the new ones once. -/
theorem exists_discovers (distance : Nat) (files : List Nat) (w : Wave) :
    ∃ new, Discovers distance files w (files.foldl (discover distance) w) new := by
  induction files generalizing w with
  | nil => exact ⟨[], by simp, List.nodup_nil, by simp, by simp, by simp⟩
  | cons file files ih =>
    rw [List.foldl_cons]
    by_cases hseen : w.visited.contains file
    · rw [discover_of_visited hseen]
      obtain ⟨new, hmem, hnodup, hqueue, haffected, hvisited⟩ := ih w
      refine ⟨new, fun other => ?_, hnodup, hqueue, haffected, hvisited⟩
      rw [hmem, List.mem_cons]
      constructor
      · exact fun h => ⟨Or.inr h.1, h.2⟩
      · rintro ⟨rfl | hother, hnew⟩
        · exact absurd hseen hnew
        · exact ⟨hother, hnew⟩
    · let noted : Wave := w.discover distance file
      have hnoted : noted = { visited := w.visited.insert file
                              queue := w.queue ++ [(file, distance)]
                              affected := w.affected.push (file, distance) } := by
        change discover distance w file = _
        rw [discover, if_neg hseen]
      have hcontains : ∀ other, noted.visited.contains other ↔
          w.visited.contains other ∨ other = file := fun other => by
        rw [hnoted]
        exact contains_insert_iff
      obtain ⟨new, hmem, hnodup, hqueue, haffected, hvisited⟩ := ih noted
      refine ⟨file :: new, fun other => ?_, List.nodup_cons.mpr ⟨fun hfile => ?_, hnodup⟩, ?_, ?_,
        fun other => ?_⟩
      · rw [List.mem_cons, List.mem_cons, hmem, hcontains, not_or]
        constructor
        · rintro (rfl | ⟨hother, hnew, -⟩)
          · exact ⟨Or.inl rfl, hseen⟩
          · exact ⟨Or.inr hother, hnew⟩
        · rintro ⟨rfl | hother, hnew⟩
          · exact Or.inl rfl
          · exact or_iff_not_imp_left.mpr fun hne => ⟨hother, hnew, hne⟩
      · exact ((hmem file).mp hfile).2 ((hcontains file).mpr (Or.inr rfl))
      · rw [hqueue, hnoted, List.map_cons, List.append_assoc]
        rfl
      · rw [haffected, hnoted, Array.toList_push, List.map_cons, List.append_assoc]
        rfl
      · rw [hvisited, hcontains, List.mem_cons, or_assoc]

/-! ### What has been seen -/

/-- The files that have been seen with their distances, in the order in which they were seen. -/
def seen (w : Wave) (start : Nat) : List (Nat × Nat) := (start, 0) :: w.affected.toList

namespace Discovers

variable {distance start : Nat} {files new : List Nat} {w w' : Wave}

/-- The new files are seen last. -/
theorem seen_eq (h : Discovers distance files w w' new) :
    w'.seen start = w.seen start ++ new.map (·, distance) := by
  rw [seen, h.affected]
  rfl

theorem map_fst_seen (h : Discovers distance files w w' new) :
    (w'.seen start).map Prod.fst = (w.seen start).map Prod.fst ++ new := by
  rw [h.seen_eq, List.map_append, List.map_map]
  exact congrArg (_ ++ ·) (List.map_id new)

/-- What has been seen now was seen before, or is new. -/
theorem mem_seen (h : Discovers distance files w w' new) {entry : Nat × Nat}
    (hentry : entry ∈ w'.seen start) :
    entry ∈ w.seen start ∨ entry.2 = distance ∧ entry.1 ∈ new := by
  rw [h.seen_eq, List.mem_append, List.mem_map] at hentry
  rcases hentry with hentry | ⟨file, hfile, rfl⟩
  · exact Or.inl hentry
  · exact Or.inr ⟨rfl, hfile⟩

end Discovers

/-! ### Layers -/

/-- A search after as many steps as there are files. -/
def finished (g : RepoGraph) (maxDepth start : Nat) : Wave :=
  (Wave.start start).run g maxDepth g.nodeCount

/-- **A layered search**, after some files have been dealt with. -/
structure Layered (g : RepoGraph) (maxDepth start : Nat) (done : List (Nat × Nat)) (w : Wave) :
    Prop where
  /-- What has been seen has been dealt with, or is in the queue. -/
  seen_eq : w.seen start = done ++ w.queue
  /-- The files that are marked are those that have been seen. -/
  visited_iff : ∀ file, w.visited.contains file ↔ file ∈ (w.seen start).map Prod.fst
  /-- No file is seen twice. -/
  nodup : ((w.seen start).map Prod.fst).Nodup
  /-- The distances do not descend. -/
  ascending : (w.seen start).Pairwise fun a b => a.2 ≤ b.2
  /-- No distance is greater than that of the front of the queue by more than one. -/
  near : ∀ front ∈ w.queue.head?, ∀ entry ∈ w.seen start, entry.2 ≤ front.2 + 1
  /-- What is seen are files of the graph. -/
  lt_nodeCount : ∀ entry ∈ w.seen start, entry.1 < g.nodeCount
  /-- The search keeps within its depth. -/
  le_maxDepth : ∀ entry ∈ w.seen start, entry.2 ≤ maxDepth
  /-- Each distance is the length of a walk. -/
  walk : ∀ entry ∈ w.seen start, g.Walk entry.2 (g.path start) (g.path entry.1)
  /-- The neighbours of a file that has been dealt with have been seen, unless they would be
  too far away. -/
  neighbours : ∀ entry ∈ done, entry.2 < maxDepth → ∀ target ∈ g.targets entry.1,
    ∃ distance ≤ entry.2 + 1, (target, distance) ∈ w.seen start

variable {g : RepoGraph} {maxDepth start : Nat} {done : List (Nat × Nat)} {w : Wave}

theorem layered_start (h : start < g.nodeCount) :
    Layered g maxDepth start [] (Wave.start start) where
  seen_eq := rfl
  visited_iff file := by
    rw [Wave.start, contains_insert_iff]
    simp [seen]
  nodup := List.nodup_singleton _
  ascending := List.pairwise_singleton _ _
  near front _ entry hentry := by
    obtain rfl := List.mem_singleton.mp hentry
    exact Nat.zero_le _
  lt_nodeCount entry hentry := by
    obtain rfl := List.mem_singleton.mp hentry
    exact h
  le_maxDepth entry hentry := by
    obtain rfl := List.mem_singleton.mp hentry
    exact Nat.zero_le _
  walk entry hentry := by
    obtain rfl := List.mem_singleton.mp hentry
    exact .stay _
  neighbours entry hentry := absurd hentry List.not_mem_nil

/-- When the queue is empty there is nothing left to be done. -/
theorem step_of_nil (h : w.queue = []) : w.step g maxDepth = w := by
  rw [step, h]

theorem run_of_nil (h : w.queue = []) (rounds : Nat) : w.run g maxDepth rounds = w := by
  induction rounds with
  | zero => rfl
  | succ rounds ih => rw [run, step_of_nil h, ih]

namespace Layered

/-- What is at the front of the queue has been seen, and what comes after it in the queue is
not nearer. -/
theorem front_le (h : Layered g maxDepth start done w) {front : Nat × Nat}
    {rest : List (Nat × Nat)} (hqueue : w.queue = front :: rest) :
    front ∈ w.seen start ∧ ∀ entry ∈ rest, front.2 ≤ entry.2 := by
  have hascending := h.ascending
  rw [h.seen_eq, hqueue] at hascending ⊢
  exact ⟨by simp, (List.pairwise_cons.mp (List.pairwise_append.mp hascending).2.1).1⟩

/-- The front of the queue is at the greatest distance: it is dealt with without a look at its
neighbours. -/
theorem step_of_le (h : Layered g maxDepth start done w) {front : Nat × Nat}
    {rest : List (Nat × Nat)} (hqueue : w.queue = front :: rest) (hdepth : maxDepth ≤ front.2) :
    Layered g maxDepth start (done ++ [front]) { w with queue := rest } where
  seen_eq := by
    change w.seen start = _
    rw [h.seen_eq, hqueue, List.append_assoc]
    rfl
  visited_iff := h.visited_iff
  nodup := h.nodup
  ascending := h.ascending
  near next hnext entry hentry := by
    have hfront := h.near front (by rw [hqueue]; rfl) entry hentry
    have hnext := (h.front_le hqueue).2 next (List.mem_of_mem_head? hnext)
    omega
  lt_nodeCount := h.lt_nodeCount
  le_maxDepth := h.le_maxDepth
  walk := h.walk
  neighbours entry hentry hlt := by
    rcases List.mem_append.mp hentry with hentry | hentry
    · exact h.neighbours entry hentry hlt
    · obtain rfl := List.mem_singleton.mp hentry
      omega

/-- The neighbours of the front of the queue are discovered: they are one step further away
than it is, and so at least as far away as whatever has been seen. -/
theorem step_of_lt (hg : g.Coherent) (h : Layered g maxDepth start done w) {front : Nat × Nat}
    {rest : List (Nat × Nat)} (hqueue : w.queue = front :: rest) (hdepth : front.2 < maxDepth)
    {w' : Wave} {new : List Nat}
    (hnew : Discovers (front.2 + 1) (g.targets front.1) { w with queue := rest } w' new) :
    Layered g maxDepth start (done ++ [front]) w' := by
  obtain ⟨hfront, hrest⟩ := h.front_le hqueue
  have hseen : w'.seen start = w.seen start ++ new.map (·, front.2 + 1) := hnew.seen_eq
  have hmem : ∀ entry ∈ w'.seen start, entry ∈ w.seen start ∨
      entry.2 = front.2 + 1 ∧ entry.1 ∈ new := fun _ => hnew.mem_seen
  have htarget : ∀ file ∈ new, file < g.nodeCount ∧ g.DependsOn (g.path front.1) (g.path file) :=
    fun file hfile => (hg.mem_targets_iff (h.lt_nodeCount front hfront)).mp
      ((hnew.mem_iff file).mp hfile).1
  have hnear : ∀ entry ∈ w'.seen start, entry.2 ≤ front.2 + 1 := fun entry hentry => by
    rcases hmem entry hentry with hold | ⟨hdistance, -⟩
    · exact h.near front (by rw [hqueue]; rfl) entry hold
    · omega
  have hfiles : (w'.seen start).map Prod.fst = (w.seen start).map Prod.fst ++ new :=
    hnew.map_fst_seen
  have hvisited : ∀ file, w'.visited.contains file ↔ file ∈ (w'.seen start).map Prod.fst :=
    fun file => by rw [hnew.visited_iff, hfiles, List.mem_append, ← h.visited_iff]
  exact {
    seen_eq := by
      rw [hseen, h.seen_eq, hqueue, hnew.queue]
      simp
    visited_iff := hvisited
    nodup := by
      rw [hfiles]
      refine h.nodup.append hnew.nodup fun file hold hfile => ?_
      exact ((hnew.mem_iff file).mp hfile).2 ((h.visited_iff file).mpr hold)
    ascending := by
      rw [hseen, List.pairwise_append]
      refine ⟨h.ascending, List.pairwise_map.mpr (List.pairwise_of_forall fun _ _ => le_rfl),
        fun old hold entry hentry => ?_⟩
      obtain ⟨file, -, rfl⟩ := List.mem_map.mp hentry
      exact h.near front (by rw [hqueue]; rfl) old hold
    near := fun next hnext entry hentry => by
      have hentry := hnear entry hentry
      rw [hnew.queue] at hnext
      -- the next one has been seen at least as far away as the front, or has just been discovered
      rcases List.mem_append.mp (List.mem_of_mem_head? hnext) with hnext | hnext
      · have := hrest next hnext
        omega
      · obtain ⟨file, -, rfl⟩ := List.mem_map.mp hnext
        exact Nat.le_succ_of_le hentry
    lt_nodeCount := fun entry hentry => by
      rcases hmem entry hentry with hold | ⟨-, hfile⟩
      · exact h.lt_nodeCount entry hold
      · exact (htarget _ hfile).1
    le_maxDepth := fun entry hentry => by
      rcases hmem entry hentry with hold | ⟨hdistance, -⟩
      · exact h.le_maxDepth entry hold
      · omega
    walk := fun entry hentry => by
      rcases hmem entry hentry with hold | ⟨hdistance, hfile⟩
      · exact h.walk entry hold
      · rw [hdistance]
        exact (h.walk front hfront).go (htarget _ hfile).2
    neighbours := fun entry hentry hlt target hnext => by
      rcases List.mem_append.mp hentry with hentry | hentry
      · obtain ⟨distance, hle, hold⟩ := h.neighbours entry hentry hlt target hnext
        exact ⟨distance, hle, hseen ▸ List.mem_append_left _ hold⟩
      · obtain rfl := List.mem_singleton.mp hentry
        have hmarked : w'.visited.contains target := by
          rw [hnew.visited_iff, hnew.mem_iff]
          exact or_iff_not_imp_left.mpr fun hnot => ⟨hnext, hnot⟩
        obtain ⟨⟨_, distance⟩, hentry', rfl⟩ := List.mem_map.mp ((hvisited target).mp hmarked)
        exact ⟨distance, hnear _ hentry', hentry'⟩ }

/-- **A step deals with the front of the queue.** -/
theorem step (hg : g.Coherent) (h : Layered g maxDepth start done w) {front : Nat × Nat}
    {rest : List (Nat × Nat)} (hqueue : w.queue = front :: rest) :
    Layered g maxDepth start (done ++ [front]) (w.step g maxDepth) := by
  rw [Wave.step, hqueue]
  dsimp only
  split
  case isTrue hdepth => exact h.step_of_le hqueue hdepth
  case isFalse hdepth =>
    obtain ⟨new, hnew⟩ :=
      exists_discovers (front.2 + 1) (g.targets front.1) { w with queue := rest }
    exact h.step_of_lt hg hqueue (Nat.lt_of_not_le hdepth) hnew

/-- A number of steps deals with as many files, unless the queue gets empty. -/
theorem run (hg : g.Coherent) (h : Layered g maxDepth start done w) (rounds : Nat) :
    ∃ done', Layered g maxDepth start done' (w.run g maxDepth rounds) ∧
      ((w.run g maxDepth rounds).queue = [] ∨ done'.length = done.length + rounds) := by
  induction rounds generalizing done w with
  | zero => exact ⟨done, h, Or.inr rfl⟩
  | succ rounds ih =>
    rw [Wave.run]
    rcases hqueue : w.queue with _ | ⟨front, rest⟩
    · rw [step_of_nil hqueue, run_of_nil hqueue]
      exact ⟨done, h, Or.inl hqueue⟩
    · obtain ⟨done', hdone', hlength⟩ := ih (h.step hg hqueue)
      refine ⟨done', hdone', hlength.imp_right fun hlength => ?_⟩
      rw [hlength, List.length_append, List.length_singleton]
      omega

/-- No more files are seen than there are. -/
theorem length_seen_le (h : Layered g maxDepth start done w) :
    (w.seen start).length ≤ g.nodeCount := by
  have hsub : (w.seen start).map Prod.fst ⊆ List.range g.nodeCount := fun file hfile => by
    obtain ⟨entry, hentry, rfl⟩ := List.mem_map.mp hfile
    exact List.mem_range.mpr (h.lt_nodeCount entry hentry)
  have hle := (List.Nodup.subperm h.nodup hsub).length_le
  rwa [List.length_map, List.length_range] at hle

/-- **The search comes to an end**: after as many steps as there are files the queue is empty,
for otherwise more files than that would have been seen. -/
theorem finished (hg : g.Coherent) (hstart : start < g.nodeCount) (maxDepth : Nat) :
    Layered g maxDepth start ((Wave.finished g maxDepth start).seen start)
      (Wave.finished g maxDepth start) := by
  have hfirst : Layered g maxDepth start [] (Wave.start start) := layered_start hstart
  obtain ⟨done, h, hend⟩ := hfirst.run hg g.nodeCount
  change Layered g maxDepth start done (Wave.finished g maxDepth start) at h
  rcases hqueue : (Wave.finished g maxDepth start).queue with _ | ⟨front, rest⟩
  · rw [h.seen_eq, hqueue, List.append_nil]
    exact h
  -- all files have been dealt with and one more is in the queue
  · have hlength : done.length = g.nodeCount := by
      simpa using hend.resolve_left (by
        change (Wave.finished g maxDepth start).queue ≠ []
        rw [hqueue]
        exact List.cons_ne_nil _ _)
    have hle := h.length_seen_le
    rw [h.seen_eq, hqueue, List.length_append, List.length_cons] at hle
    omega

end Layered

end Wave

end DepGraph
