import DepGraph.Proofs.Graph.Ranked

/-!
# What the backtracking search finds

The search for cycles carries a path, marks and a list of results, and it stops as soon as
it has found as many cycles as are wanted. This file says what it computes without any of
that: `DepGraph.Ranked.onward` lists the cycles that complete a path, without a cap and
without marks, in the order in which the search meets them.

The one thing to know about the search is then that it *notes* these cycles, as many as are
still wanted, and leaves its path and its marks as they were
(`DepGraph.Search.extend_eq_note`). Noting one list after another is noting both
(`DepGraph.Search.note_append`) – whether the cap is reached before, between or after them –
which is why the cap may strike at any depth of the recursion and only ever cuts off the end
of the results. The invariant under which this holds is `DepGraph.Search.Marked`: the marks
are those of the files on the path.

Altogether the cycles of a ranked graph are the first `limit` of
`DepGraph.Ranked.allCycles` (`DepGraph.Ranked.Orderly.cycles_eq_take`).
-/

namespace DepGraph

namespace Ranked

/-- **The cycles that complete a path** when it goes on from `current`, its last file, by at
most a given number of edges. The path is given with its last file first. -/
def onward (r : Ranked) (least start : Nat) : Nat → Nat → List Nat → List (List Nat)
  | 0, _, _ => []
  | left + 1, current, path =>
    (r.next current).flatMap fun next =>
      if next = start then if least ≤ path.length then [path.reverse ++ [start]] else []
      else if left = 0 ∨ next < start ∨ next ∈ path then []
      else onward r least start left next (next :: path)

/-- The cycles that complete a path by way of one of the successors of its last file. -/
def onwardVia (r : Ranked) (least start left : Nat) (path : List Nat) (next : Nat) :
    List (List Nat) :=
  if next = start then if least ≤ path.length then [path.reverse ++ [start]] else []
  else if left = 0 ∨ next < start ∨ next ∈ path then []
  else r.onward least start left next (next :: path)

theorem onward_succ (r : Ranked) (least start left current : Nat) (path : List Nat) :
    r.onward least start (left + 1) current path =
      (r.next current).flatMap (r.onwardVia least start left path) :=
  rfl

/-- **All cycles** with a number of edges in a range. -/
def allCycles (r : Ranked) (least greatest : Nat) : List (List Nat) :=
  (List.range r.files.size).flatMap fun start => r.onward least start greatest start [start]

end Ranked

namespace Search

/-! ### Noting cycles -/

/-- The search after it has noted cycles, as many of them as are still wanted. -/
def note (s : Search) (limit : Nat) (cycles : List (List Nat)) : Search :=
  { s with found := s.found ++ (cycles.take (limit - s.found.size)).toArray }

@[simp] theorem path_note (s : Search) (limit : Nat) (cycles : List (List Nat)) :
    (s.note limit cycles).path = s.path :=
  rfl

theorem note_nil (s : Search) (limit : Nat) : s.note limit [] = s := by
  simp [note]

/-- Once the search is full nothing is noted any more. -/
theorem note_of_isFull {s : Search} {q : CycleQuery} (h : s.isFull q)
    (cycles : List (List Nat)) : s.note q.limit cycles = s := by
  have hfull : q.limit ≤ s.found.size := by simpa [isFull] using h
  simp [note, Nat.sub_eq_zero_of_le hfull]

/-- **Noting one list after another is noting both**, wherever the cap strikes. -/
theorem note_append (s : Search) (limit : Nat) (cycles more : List (List Nat)) :
    s.note limit (cycles ++ more) = (s.note limit cycles).note limit more := by
  have hroom : limit - (s.found.size + min (limit - s.found.size) cycles.length) =
      limit - s.found.size - cycles.length := by omega
  simp [note, List.take_append, Array.append_assoc, hroom]

/-- Reporting a cycle is noting it, if it is wanted. -/
theorem report_eq_note {s : Search} {q : CycleQuery} (h : ¬s.isFull q) (start : Nat) :
    s.report start = s.note q.limit [s.path.reverse ++ [start]] := by
  have hroom : s.found.size < q.limit := by simpa [isFull] using h
  obtain ⟨room, hroom⟩ : ∃ room, q.limit - s.found.size = room + 1 :=
    ⟨q.limit - s.found.size - 1, by omega⟩
  simp [report, note, hroom]

/-! ### The marks of a path -/

/-- **The marks are those of the path**: there is one for every file, and it is set exactly
for the files of the path. -/
structure Marked (s : Search) (files : Nat) : Prop where
  /-- There is a mark for every file. -/
  size : s.onPath.size = files
  /-- The marks that are set are those of the files on the path. -/
  visits_iff : ∀ file, s.visits file = true ↔ file ∈ s.path

namespace Marked

variable {s : Search} {files : Nat}

theorem start (files : Nat) : (start files).Marked files where
  size := Array.size_replicate
  visits_iff file := by
    simp only [visits, Search.start, List.not_mem_nil, iff_false, Bool.not_eq_true]
    rw [Array.getD_eq_getD_getElem?, Array.getElem?_replicate]
    split <;> rfl

theorem note (h : s.Marked files) (limit : Nat) (cycles : List (List Nat)) :
    (s.note limit cycles).Marked files :=
  ⟨h.size, h.visits_iff⟩

/-- Going on to a file marks it. -/
theorem push (h : s.Marked files) {file : Nat} (hfile : file < files) :
    (s.push file).Marked files where
  size := Array.size_setIfInBounds.trans h.size
  visits_iff other := by
    have hsize : file < s.onPath.size := h.size ▸ hfile
    have hother := h.visits_iff other
    simp only [visits, Search.push, Array.getD_eq_getD_getElem?, Array.getElem?_setIfInBounds,
      List.mem_cons] at hother ⊢
    rcases eq_or_ne file other with rfl | hne
    · simp [hsize]
    · simpa [hne, hne.symm] using hother

/-- Going back from a file that was not on the path before undoes its mark. -/
theorem pop_push (h : s.Marked files) {file : Nat} (hfile : file ∉ s.path) :
    (s.push file).pop file = s := by
  have hunset : s.visits file = false :=
    Bool.eq_false_iff.mpr fun hc => hfile ((h.visits_iff file).mp hc)
  have hmarks : (s.onPath.setIfInBounds file true).setIfInBounds file false = s.onPath := by
    refine Array.ext_getElem? fun i => ?_
    simp only [Array.getElem?_setIfInBounds, Array.size_setIfInBounds]
    rcases eq_or_ne file i with rfl | hne
    · rw [visits, Array.getD_eq_getD_getElem?] at hunset
      rcases hget : s.onPath[file]? with _ | mark
      · have := Array.getElem?_eq_none_iff.mp hget
        simp [Nat.not_lt.mpr this]
      · have := (Array.getElem?_eq_some_iff.mp hget).1
        rw [hget] at hunset
        simp_all
    · simp [hne]
  simp only [Search.push, pop, hmarks, List.tail_cons]

end Marked

/-- What is noted between going on to a file and going back from it is noted. -/
theorem pop_note_push (s : Search) (limit : Nat) (cycles : List (List Nat)) (file : Nat) :
    ((s.push file).note limit cycles).pop file = ((s.push file).pop file).note limit cycles :=
  rfl

/-! ### The search notes the cycles that complete its path -/

/-- What the search does with one of the successors of the last file. -/
def visit (r : Ranked) (q : CycleQuery) (start left : Nat) (s : Search) (next : Nat) : Search :=
  if s.isFull q then s
  else if next = start then if q.least ≤ s.path.length then s.report start else s
  else if left = 0 || next < start || s.visits next then s
  else (extend r q start left next (s.push next)).pop next

theorem extend_succ (r : Ranked) (q : CycleQuery) (start left current : Nat) (s : Search) :
    extend r q start (left + 1) current s = (r.next current).foldl (visit r q start left) s :=
  rfl

variable {r : Ranked} {q : CycleQuery}

/-- One successor after another: what they complete is noted in their order. -/
theorem foldl_visit_eq_note {start left : Nat} {nexts : List Nat} {files : Nat}
    (hvisit : ∀ next ∈ nexts, ∀ s : Search, s.Marked files →
      visit r q start left s next = s.note q.limit (r.onwardVia q.least start left s.path next))
    {s : Search} (hs : s.Marked files) :
    nexts.foldl (visit r q start left) s =
      s.note q.limit (nexts.flatMap (r.onwardVia q.least start left s.path)) := by
  induction nexts generalizing s with
  | nil => exact (s.note_nil q.limit).symm
  | cons next nexts ih =>
    rw [List.foldl_cons, hvisit next (List.mem_cons_self ..) s hs,
      ih (fun other hother => hvisit other (List.mem_cons_of_mem _ hother)) (hs.note ..),
      path_note, List.flatMap_cons, note_append]

/-- What a successor completes is noted, if going on from it notes what it completes. -/
theorem visit_eq_note_of_extend {start left next : Nat} (hnext : next < r.files.size)
    (hextend : ∀ s : Search, s.Marked r.files.size → extend r q start left next s =
      s.note q.limit (r.onward q.least start left next s.path))
    {s : Search} (hs : s.Marked r.files.size) :
    visit r q start left s next = s.note q.limit (r.onwardVia q.least start left s.path next) := by
  rw [visit, Ranked.onwardVia]
  -- a full search does nothing, and noting does nothing to it either
  by_cases hfull : s.isFull q
  · rw [if_pos hfull, note_of_isFull hfull]
  rw [if_neg hfull]
  -- an edge back to the start closes a cycle, if it is long enough
  by_cases hstart : next = start
  · rw [if_pos hstart, if_pos hstart]
    split
    · exact report_eq_note hfull start
    · exact (s.note_nil q.limit).symm
  rw [if_neg hstart, if_neg hstart]
  -- the marks prune what is on the path, because the search is marked
  have hpruned : (left = 0 || next < start || s.visits next) = true ↔
      left = 0 ∨ next < start ∨ next ∈ s.path := by
    simp only [Bool.or_eq_true, decide_eq_true_eq, hs.visits_iff, or_assoc]
  by_cases hprune : left = 0 ∨ next < start ∨ next ∈ s.path
  · rw [if_pos (hpruned.mpr hprune), if_pos hprune, note_nil]
  · rw [if_neg fun hc => hprune (hpruned.mp hc), if_neg hprune, hextend _ (hs.push hnext),
      pop_note_push, hs.pop_push fun hmem => hprune (Or.inr (Or.inr hmem))]
    rfl

/-- **The search notes the cycles that complete its path**, and is otherwise as before. -/
theorem extend_eq_note (hr : r.Orderly) (start left current : Nat) {s : Search}
    (hs : s.Marked r.files.size) :
    extend r q start left current s =
      s.note q.limit (r.onward q.least start left current s.path) := by
  induction left generalizing current s with
  | zero => exact (s.note_nil q.limit).symm
  | succ left ih =>
    rw [extend_succ, Ranked.onward_succ]
    refine foldl_visit_eq_note (fun next hnext s hs => ?_) hs
    exact visit_eq_note_of_extend (hr.lt_size current next hnext) (fun _ => ih next) hs

/-- What a successor completes is noted. -/
theorem visit_eq_note (hr : r.Orderly) (start left : Nat) {next : Nat}
    (hnext : next < r.files.size) {s : Search} (hs : s.Marked r.files.size) :
    visit r q start left s next =
      s.note q.limit (r.onwardVia q.least start left s.path next) :=
  visit_eq_note_of_extend hnext (fun _ => extend_eq_note hr start left next) hs

/-- The search from a file notes the cycles that have it as their least one. -/
theorem explore_eq_note (hr : r.Orderly) {s : Search} (hs : s.Marked r.files.size)
    (hpath : s.path = []) {start : Nat} (hstart : start < r.files.size) :
    explore r q s start = s.note q.limit (r.onward q.least start q.greatest start [start]) := by
  rw [explore]
  split
  case isTrue hfull => exact (note_of_isFull hfull _).symm
  case isFalse =>
    have hnew : start ∉ s.path := hpath ▸ List.not_mem_nil
    have hpushed : (s.push start).path = [start] := by rw [push, hpath]
    rw [extend_eq_note hr start q.greatest start (hs.push hstart), pop_note_push,
      hs.pop_push hnew, hpushed]

theorem foldl_explore_eq_note (hr : r.Orderly) {starts : List Nat}
    (hstarts : ∀ start ∈ starts, start < r.files.size) {s : Search}
    (hs : s.Marked r.files.size) (hpath : s.path = []) :
    starts.foldl (explore r q) s =
      s.note q.limit
        (starts.flatMap fun start => r.onward q.least start q.greatest start [start]) := by
  induction starts generalizing s with
  | nil => exact (s.note_nil q.limit).symm
  | cons start starts ih =>
    rw [List.foldl_cons, explore_eq_note hr hs hpath (hstarts start (List.mem_cons_self ..)),
      ih (fun other hother => hstarts other (List.mem_cons_of_mem _ hother)) (hs.note ..) hpath,
      List.flatMap_cons, note_append]

end Search

/-- **The cycles that are found are the first ones of all**, as many as are wanted. -/
theorem Ranked.Orderly.cycles_eq_take {r : Ranked} (hr : r.Orderly) (q : CycleQuery) :
    r.cycles q = (r.allCycles q.least q.greatest).take q.limit := by
  have hsearch := Search.foldl_explore_eq_note (q := q) hr
    (fun start hstart => List.mem_range.mp hstart) (Search.Marked.start r.files.size) rfl
  rw [Ranked.cycles, hsearch]
  simp [Search.note, Search.start, allCycles]

/-- The cycles of a graph are the first ones of all cycles of its ranked form, told by
their paths. -/
theorem RepoGraph.Coherent.cycles_eq_take {g : RepoGraph} (h : g.Coherent) (q : CycleQuery) :
    g.cycles q =
      ((g.ranked.allCycles q.least q.greatest).map (·.map g.ranked.path)).take q.limit := by
  rw [← List.map_take, ← h.orderly_ranked.cycles_eq_take]
  rfl

end DepGraph
