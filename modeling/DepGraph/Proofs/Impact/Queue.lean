import DepGraph.Proofs.Graph.Representation
import DepGraph.Proofs.Impact.Layers

/-!
# The queue of a breadth-first search

The depth of an impact query may be as great as one likes; what ends the search is that files are
put into the queue only when they are first seen. So the entries that ever come into the queue
(`DepGraph.Wave.entered`) are the start and the files that are affected, no file twice
(`DepGraph.Wave.seen_run_start`), and there are no more steps to be done than there are files.

Distances are counted up from one entry to the next, and whether this can go wrong depends on how
far it goes. It never goes further than there are files: the distance at which a file is seen is
at most the number of files that have been seen before it (`DepGraph.Wave.Paced`). For the front
of the queue has been dealt with after all files that were seen before it, and whatever it
discovers comes later still and is only one step further away.
-/

namespace DepGraph

namespace Wave

/-! ### What comes into the queue -/

/-- The entries that a number of steps put at the end of the queue, in the order in which they
come. -/
def entered (g : RepoGraph) (maxDepth : Nat) : Nat → Wave → List (Nat × Nat)
  | 0, _ => []
  | rounds + 1, w =>
    (w.step g maxDepth).queue.drop w.queue.tail.length ++
      entered g maxDepth rounds (w.step g maxDepth)

variable {g : RepoGraph} {maxDepth start : Nat} {done : List (Nat × Nat)} {w : Wave}

/-- **What a step does to the queue**: it takes the front off and puts the files at the end that
it has newly affected, one step further away than the front. -/
theorem exists_step (g : RepoGraph) (maxDepth : Nat) {front : Nat × Nat}
    {rest : List (Nat × Nat)} (hqueue : w.queue = front :: rest) :
    ∃ new : List Nat, (w.step g maxDepth).queue = rest ++ new.map (·, front.2 + 1) ∧
      (w.step g maxDepth).affected.toList = w.affected.toList ++ new.map (·, front.2 + 1) := by
  rw [step, hqueue]
  dsimp only
  split
  case isTrue => exact ⟨[], by simp, by simp⟩
  case isFalse =>
    obtain ⟨new, hnew⟩ :=
      exists_discovers (front.2 + 1) (g.targets front.1) { w with queue := rest }
    exact ⟨new, hnew.queue, hnew.affected⟩

/-- What comes into the queue in a step is affected by it, and nothing else is. -/
theorem affected_step (w : Wave) :
    (w.step g maxDepth).affected.toList =
      w.affected.toList ++ (w.step g maxDepth).queue.drop w.queue.tail.length := by
  rcases hqueue : w.queue with _ | ⟨front, rest⟩
  · rw [step_of_nil hqueue, hqueue]
    simp
  · obtain ⟨new, hnext, haffected⟩ := exists_step g maxDepth hqueue
    rw [haffected, hnext, List.tail_cons, List.drop_left]

/-- **What comes into the queue is affected**, in the same order, and nothing else is. -/
theorem seen_run (rounds : Nat) (w : Wave) :
    (w.run g maxDepth rounds).seen start = w.seen start ++ w.entered g maxDepth rounds := by
  induction rounds generalizing w with
  | zero => exact (List.append_nil _).symm
  | succ rounds ih =>
    rw [run, ih, entered, ← List.append_assoc, seen, affected_step]
    rfl

/-- What has been seen is what has come into the queue, the start first of all. -/
theorem seen_run_start (rounds : Nat) :
    ((Wave.start start).run g maxDepth rounds).seen start =
      (start, 0) :: (Wave.start start).entered g maxDepth rounds :=
  seen_run rounds _

/-! ### How far distances are counted -/

/-- **Distances keep pace with places**: the distance of an entry is at most the number of the
entries before it. -/
def Paced (entries : List (Nat × Nat)) : Prop :=
  ∀ (i : Nat) (entry : Nat × Nat), entries[i]? = some entry → entry.2 ≤ i

theorem paced_start (start : Nat) : Paced ((Wave.start start).seen start) := by
  intro i entry hentry
  obtain rfl := List.mem_singleton.mp (List.mem_of_getElem? hentry)
  exact Nat.zero_le i

theorem paced_append_map {entries : List (Nat × Nat)} {new : List Nat} {distance : Nat}
    (h : Paced entries) (hdistance : distance ≤ entries.length) :
    Paced (entries ++ new.map (·, distance)) := by
  intro i entry hentry
  rcases Nat.lt_or_ge i entries.length with hi | hi
  · rw [List.getElem?_append_left hi] at hentry
    exact h i entry hentry
  · rw [List.getElem?_append_right hi] at hentry
    obtain ⟨file, -, rfl⟩ := List.mem_map.mp (List.mem_of_getElem? hentry)
    exact hdistance.trans hi

namespace Layered

/-- A step keeps the pace: the front comes after all that has been dealt with, and what it
discovers comes after the front. -/
theorem paced_step (h : Layered g maxDepth start done w) (hpaced : Paced (w.seen start)) :
    Paced ((w.step g maxDepth).seen start) := by
  rcases hqueue : w.queue with _ | ⟨front, rest⟩
  · rwa [step_of_nil hqueue]
  · obtain ⟨new, -, haffected⟩ := exists_step g maxDepth hqueue
    have hseen : (w.step g maxDepth).seen start =
        w.seen start ++ new.map (·, front.2 + 1) := by
      rw [seen, haffected]
      rfl
    have hplace : (w.seen start)[done.length]? = some front := by
      rw [h.seen_eq, hqueue, List.getElem?_append_right (Nat.le_refl _), Nat.sub_self]
      rfl
    have hfront : front.2 ≤ done.length := hpaced _ _ hplace
    have hlength : done.length < (w.seen start).length :=
      (List.getElem?_eq_some_iff.mp hplace).1
    rw [hseen]
    exact paced_append_map hpaced (by omega)

/-- A search keeps the pace all the way. -/
theorem paced_run (hg : g.Coherent) (h : Layered g maxDepth start done w)
    (hpaced : Paced (w.seen start)) (rounds : Nat) :
    Paced ((w.run g maxDepth rounds).seen start) := by
  induction rounds generalizing done w with
  | zero => exact hpaced
  | succ rounds ih =>
    rcases hqueue : w.queue with _ | ⟨front, rest⟩
    · rwa [run_of_nil hqueue]
    · exact ih (h.step hg hqueue) (h.paced_step hpaced)

/-- **No distance is as great as the number of files.** -/
theorem lt_nodeCount_of_paced (h : Layered g maxDepth start done w)
    (hpaced : Paced (w.seen start)) {entry : Nat × Nat} (hentry : entry ∈ w.seen start) :
    entry.2 < g.nodeCount := by
  obtain ⟨i, hi⟩ := List.mem_iff_getElem?.mp hentry
  have hle : entry.2 ≤ i := hpaced i entry hi
  have hlt : i < (w.seen start).length := (List.getElem?_eq_some_iff.mp hi).1
  exact hle.trans_lt (hlt.trans_le h.length_seen_le)

/-- The distances in the queue do not descend, and the last is greater than the first by one at
most. -/
theorem pairwise_queue (h : Layered g maxDepth start done w) :
    w.queue.Pairwise fun a b => a.2 ≤ b.2 ∧ b.2 ≤ a.2 + 1 := by
  rcases hqueue : w.queue with _ | ⟨front, rest⟩
  · exact List.Pairwise.nil
  · have hascending := h.ascending
    rw [h.seen_eq, hqueue] at hascending
    have hrest := (h.front_le hqueue).2
    -- whatever is in the queue lies between the distance of the front and the next one
    have hbetween : ∀ entry ∈ front :: rest, front.2 ≤ entry.2 ∧ entry.2 ≤ front.2 + 1 := by
      intro entry hentry
      refine ⟨?_, h.near front (by rw [hqueue]; rfl) entry ?_⟩
      · rcases List.mem_cons.mp hentry with rfl | hentry
        · exact Nat.le_refl _
        · exact hrest entry hentry
      · rw [h.seen_eq, hqueue]
        exact List.mem_append_right _ hentry
    refine (List.pairwise_append.mp hascending).2.1.imp_of_mem fun {a b} ha hb hab => ?_
    have ha := hbetween a ha
    have hb := hbetween b hb
    exact ⟨hab, by omega⟩

end Layered

/-! ### The end of a search -/

theorem run_add (rounds more : Nat) (w : Wave) :
    w.run g maxDepth (rounds + more) = (w.run g maxDepth rounds).run g maxDepth more := by
  induction rounds generalizing w with
  | zero => rw [Nat.zero_add, run]
  | succ rounds ih => rw [Nat.succ_add, run, run, ih]

section Finished

variable (hg : g.Coherent) (hstart : start < g.nodeCount)

include hg hstart

theorem queue_finished : (finished g maxDepth start).queue = [] :=
  List.self_eq_append_right.mp (Layered.finished hg hstart maxDepth).seen_eq

/-- **More steps than there are files make no difference**, whatever the depth. -/
theorem run_of_nodeCount_le {rounds : Nat} (h : g.nodeCount ≤ rounds) :
    (Wave.start start).run g maxDepth rounds = finished g maxDepth start := by
  obtain ⟨more, rfl⟩ := Nat.exists_eq_add_of_le h
  rw [run_add]
  exact run_of_nil (queue_finished hg hstart) more

/-- **A search whose queue is empty is finished**, however soon that is. -/
theorem eq_finished_of_nil {rounds : Nat}
    (h : ((Wave.start start).run g maxDepth rounds).queue = []) :
    (Wave.start start).run g maxDepth rounds = finished g maxDepth start := by
  rcases Nat.le_total g.nodeCount rounds with hle | hle
  · exact run_of_nodeCount_le hg hstart hle
  · obtain ⟨more, hmore⟩ := Nat.exists_eq_add_of_le hle
    rw [finished, hmore, run_add, run_of_nil h]

end Finished

end Wave

namespace RepoGraph

/-- **The search for an impact goes by layers and comes to an end.** Whatever was written, and
however deep the search may go, this holds for the search from a file of the graph after any number
of steps. The distances in the queue do not descend, and no two of them differ by more than one; no
file is in the queue twice; the files that are marked are the start and those that are affected.
All distances that are recorded are less than the number of files, so that one more than a distance
in the queue is no more than that number. What has come into the queue are the start and the files
that are affected, each once. After as many steps as there are files the queue is empty, and as
soon as it is empty the search has found what it will find. -/
theorem search_layered (writes : List Edge) (path : String)
    (hpath : (empty.writeAll writes).hasFile path) (maxDepth : Nat) :
    let g := empty.writeAll writes
    ∃ start, g.files.number? path = some start ∧ ∀ rounds,
      let w := (Wave.start start).run g maxDepth rounds
      w.queue.Pairwise (fun a b => a.2 ≤ b.2 ∧ b.2 ≤ a.2 + 1) ∧
      (w.queue.map Prod.fst).Nodup ∧
      (∀ file, w.visited.contains file ↔ file = start ∨ file ∈ w.affected.toList.map Prod.fst) ∧
      (∀ entry ∈ w.affected.toList, entry.2 < g.nodeCount) ∧
      (∀ entry ∈ w.queue, entry.2 + 1 ≤ g.nodeCount) ∧
      w.affected.toList = (Wave.start start).entered g maxDepth rounds ∧
      (start :: ((Wave.start start).entered g maxDepth rounds).map Prod.fst).Nodup ∧
      (g.nodeCount ≤ rounds → w.queue = []) ∧
      (w.queue = [] → g.impact path maxDepth =
        (w.affected.toList.map fun entry => ⟨g.path entry.1, entry.2⟩).mergeSort
          AffectedFile.before) := by
  intro g
  have hg : g.Coherent := coherent_writeAll_empty writes
  obtain ⟨start, hstart⟩ := Option.isSome_iff_exists.mp hpath
  have hlt : start < g.nodeCount := Roster.lt_size_of_number? hstart
  refine ⟨start, hstart, fun rounds => ?_⟩
  intro w
  have hfirst : Wave.Layered g maxDepth start [] (Wave.start start) := Wave.layered_start hlt
  obtain ⟨done, h, -⟩ := hfirst.run hg rounds
  have hpaced : Wave.Paced (w.seen start) := hfirst.paced_run hg (Wave.paced_start start) rounds
  have hentered : w.seen start = (start, 0) :: (Wave.start start).entered g maxDepth rounds :=
    Wave.seen_run_start rounds
  have hqueue : ∀ entry ∈ w.queue, entry ∈ w.seen start := by
    intro entry hentry
    rw [h.seen_eq]
    exact List.mem_append_right _ hentry
  refine ⟨h.pairwise_queue, ?_, fun file => ?_, ?_, ?_, (List.cons.inj hentered).2, ?_, ?_, ?_⟩
  · have hnodup := h.nodup
    rw [h.seen_eq, List.map_append] at hnodup
    exact (List.nodup_append.mp hnodup).2.1
  · rw [h.visited_iff]
    exact List.mem_cons
  · intro entry hentry
    exact h.lt_nodeCount_of_paced hpaced (List.mem_cons_of_mem _ hentry)
  · intro entry hentry
    exact h.lt_nodeCount_of_paced hpaced (hqueue entry hentry)
  · have hnodup := h.nodup
    rwa [hentered, List.map_cons] at hnodup
  · intro hrounds
    have hfinished : w = Wave.finished g maxDepth start :=
      Wave.run_of_nodeCount_le hg hlt hrounds
    rw [hfinished]
    exact Wave.queue_finished hg hlt
  · intro hnil
    have hfinished : w = Wave.finished g maxDepth start := Wave.eq_finished_of_nil hg hlt hnil
    rw [impact, hstart, hfinished]
    rfl

/-- Two files that depend on each other, one of them also on itself, and no bound on the depth that
sixty-four bits can hold. -/
theorem search_layered_of_mutual :
    let g := empty.writeAll
      [⟨"a", "a", "import", 1.0, "run", ⟨0, 0⟩⟩, ⟨"a", "b", "import", 1.0, "run", ⟨0, 0⟩⟩,
        ⟨"a", "b", "call", 1.0, "run", ⟨0, 0⟩⟩, ⟨"b", "a", "import", 1.0, "run", ⟨0, 0⟩⟩]
    g.hasFile "a" ∧
    ∃ start, g.files.number? "a" = some start ∧ ∀ rounds,
      let w := (Wave.start start).run g 18446744073709551615 rounds
      w.queue.Pairwise (fun a b => a.2 ≤ b.2 ∧ b.2 ≤ a.2 + 1) ∧ (w.queue.map Prod.fst).Nodup := by
  intro g
  have hfile : g.hasFile "a" :=
    (hasFile_iff_mem_files g).mpr (mem_files_writeAll.mpr (Or.inr ⟨_, .head _, Or.inl rfl⟩))
  obtain ⟨start, hstart, h⟩ := search_layered _ "a" hfile 18446744073709551615
  exact ⟨hfile, start, hstart, fun rounds => ⟨(h rounds).1, (h rounds).2.1⟩⟩

end RepoGraph

end DepGraph
