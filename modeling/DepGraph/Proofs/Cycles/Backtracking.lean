import DepGraph.Proofs.Cycles.Completion
import Mathlib.Data.List.Perm.Subperm

/-!
# The calls of the backtracking search

The search for cycles has one path and one set of marks for all its calls. A call finds them as
its caller has prepared them, changes them for the calls that it makes itself, and has to leave
them as they were. To speak of every call, the search is run here with a record of its calls
(`DepGraph.Search.traced`, `DepGraph.Ranked.traced`); this is the same search
(`DepGraph.Search.fst_traced`, `DepGraph.Ranked.found_traced`).

What every call finds is a path that is *under way* (`DepGraph.Search.Underway`): it leads from
the start to the file that the call is for, along edges, over files that come after the start,
over none of them twice, and the marks are those of its files. Going on to a file keeps this
(`DepGraph.Search.Underway.push`). What every call leaves is the search with some cycles noted,
which is known already (`DepGraph.Search.extend_eq_note`).

A path without repetitions is no longer than there are files. So however many edges a cycle may
have, no more calls are under way at once than there are files.
-/

namespace DepGraph

namespace Search

/-! ### The search with a record of its calls -/

/-- **A call of the search**: what it was made for, and the search before and after it. -/
structure Call where
  /-- The file that all cycles are to begin with. -/
  start : Nat
  /-- How many calls are under way, this one among them. -/
  depth : Nat
  /-- How many further edges may be taken. -/
  left : Nat
  /-- The last file of the path. -/
  current : Nat
  before : Search
  after : Search

/-- Visit a successor, and add the calls that this takes to those that have been made. `go` goes
on to a file. -/
def visitTraced (q : CycleQuery) (start left : Nat) (go : Nat → Search → Search × List Call)
    (t : Search × List Call) (next : Nat) : Search × List Call :=
  if t.1.isFull q then t
  else if next = start then
    if q.least ≤ t.1.path.length then (t.1.report start, t.2) else t
  else if left = 0 || next < start || t.1.visits next then t
  else
    let gone := go next (t.1.push next)
    (gone.1.pop next, t.2 ++ gone.2)

/-- Explore every way on from `current`, and record this call and all that it makes in turn. -/
def traced (r : Ranked) (q : CycleQuery) (start : Nat) :
    (depth left current : Nat) → Search → Search × List Call
  | depth, 0, current, s => (s, [⟨start, depth, 0, current, s, s⟩])
  | depth, left + 1, current, s =>
    let all := (r.next current).foldl
      (visitTraced q start left (traced r q start (depth + 1) left)) (s, [])
    (all.1, ⟨start, depth, left + 1, current, s, all.1⟩ :: all.2)

/-- Find the cycles whose least file is `start`, and add the calls to those that have been made. -/
def exploreTraced (r : Ranked) (q : CycleQuery) (t : Search × List Call) (start : Nat) :
    Search × List Call :=
  if t.1.isFull q then t
  else
    let gone := traced r q start 1 q.greatest start (t.1.push start)
    (gone.1.pop start, t.2 ++ gone.2)

end Search

/-- The search for the cycles of a ranked graph, and all its calls. -/
def Ranked.traced (r : Ranked) (q : CycleQuery) : Search × List Search.Call :=
  (List.range r.files.size).foldl (Search.exploreTraced r q) (Search.start r.files.size, [])

namespace Search

variable {r : Ranked} {q : CycleQuery}

theorem fst_visitTraced {start left next : Nat} {go : Nat → Search → Search × List Call}
    (hgo : ∀ s, (go next s).1 = extend r q start left next s) (t : Search × List Call) :
    (visitTraced q start left go t next).1 = visit r q start left t.1 next := by
  rw [visitTraced, visit, ← hgo]
  split_ifs <;> rfl

/-- **The record changes nothing**: the search is the same. -/
theorem fst_traced (start depth left current : Nat) (s : Search) :
    (traced r q start depth left current s).1 = extend r q start left current s := by
  induction left generalizing depth current s with
  | zero => rfl
  | succ left ih =>
    rw [traced, extend_succ]
    exact (List.foldl_hom Prod.fst fun t next =>
      (fst_visitTraced (ih (depth + 1) next) t).symm).symm

theorem fst_exploreTraced (t : Search × List Call) (start : Nat) :
    (exploreTraced r q t start).1 = explore r q t.1 start := by
  rw [exploreTraced, explore, ← fst_traced start 1]
  split_ifs <;> rfl

end Search

/-- With a record of its calls, the search finds the same cycles. -/
theorem Ranked.found_traced (r : Ranked) (q : CycleQuery) :
    (r.traced q).1.found.toList = r.cycles q := by
  rw [traced, cycles]
  exact congrArg (fun s : Search => s.found.toList) (List.foldl_hom Prod.fst fun t start =>
    (Search.fst_exploreTraced t start).symm).symm

namespace Search

variable {r : Ranked} {q : CycleQuery}

/-! ### Paths that are under way -/

/-- **A path under way**, when a call is made for its last file. -/
structure Underway (r : Ranked) (q : CycleQuery) (start depth left current : Nat) (s : Search) :
    Prop where
  /-- It leads to the file that the call is for. -/
  last : s.path.head? = some current
  /-- It begins with the start. -/
  first : s.path.getLast? = some start
  /-- No file is on it twice. -/
  nodup : s.path.Nodup
  /-- Each of its files is a successor of the one before. -/
  follows : s.path.reverse.IsChain r.Follows
  /-- None of its files comes before the start. -/
  start_le : ∀ file ∈ s.path, start ≤ file
  /-- Its files are files. -/
  lt_size : ∀ file ∈ s.path, file < r.files.size
  /-- The marks are those of its files. -/
  marked : s.Marked r.files.size
  /-- There is a call for each of its files. -/
  length_eq : s.path.length = depth
  /-- What has been walked and what is left make up what may be walked. -/
  left_eq : left + depth = q.greatest + 1
  /-- There was an edge left to return by before the search went on to another file. -/
  left_pos : 1 < depth → 0 < left

namespace Underway

variable {start depth left current : Nat} {s : Search}

/-- The search from a file begins with the path of that file. -/
theorem push_start (hs : s.Marked r.files.size) (hpath : s.path = [])
    (hstart : start < r.files.size) :
    Underway r q start 1 q.greatest start (s.push start) where
  last := rfl
  first := by rw [push, hpath]; rfl
  nodup := by rw [push, hpath]; exact List.nodup_singleton _
  follows := by rw [push, hpath]; exact List.isChain_singleton _
  start_le file hfile := by
    rw [push, hpath] at hfile
    exact (List.mem_singleton.mp hfile).ge
  lt_size file hfile := by
    rw [push, hpath] at hfile
    exact List.mem_singleton.mp hfile ▸ hstart
  marked := hs.push hstart
  length_eq := by rw [push, hpath]; rfl
  left_eq := rfl
  left_pos h := absurd h (Nat.lt_irrefl 1)

/-- **Going on to a successor** keeps a path under way, if the successor comes after the start, is
new to the path, and leaves an edge to return by. -/
theorem push (hr : r.Orderly) (h : Underway r q start depth (left + 1) current s) {next : Nat}
    (hnext : next ∈ r.next current) (hleft : left ≠ 0) (hle : start ≤ next)
    (hnew : next ∉ s.path) :
    Underway r q start (depth + 1) left next (s.push next) where
  last := rfl
  first := by
    rw [Search.push, List.getLast?_cons, h.first]
    rfl
  nodup := List.nodup_cons.mpr ⟨hnew, h.nodup⟩
  follows := by
    rw [Search.push, List.reverse_cons, List.isChain_append]
    refine ⟨h.follows, List.isChain_singleton _, fun a ha b hb => ?_⟩
    rw [List.getLast?_reverse, h.last] at ha
    obtain rfl := Option.some.inj ha
    obtain rfl := Option.some.inj hb
    exact hnext
  start_le := List.forall_mem_cons.mpr ⟨hle, h.start_le⟩
  lt_size := List.forall_mem_cons.mpr ⟨hr.lt_size _ _ hnext, h.lt_size⟩
  marked := h.marked.push (hr.lt_size _ _ hnext)
  length_eq := congrArg (· + 1) h.length_eq
  left_eq := by
    have := h.left_eq
    omega
  left_pos _ := Nat.pos_of_ne_zero hleft

/-- Noting cycles does not touch the path. -/
theorem note (h : Underway r q start depth left current s) (limit : Nat)
    (cycles : List (List Nat)) :
    Underway r q start depth left current (s.note limit cycles) :=
  { h with marked := h.marked.note limit cycles }

/-- **A path under way is no longer than there are files**, and no longer than a cycle may be. -/
theorem length_le (h : Underway r q start depth left current s) :
    s.path.length ≤ min r.files.size (max 1 q.greatest) := by
  have hsub : s.path ⊆ List.range r.files.size := fun file hfile =>
    List.mem_range.mpr (h.lt_size file hfile)
  have hsize := (List.Nodup.subperm h.nodup hsub).length_le
  rw [List.length_range] at hsize
  have hdepth := h.length_eq
  have hleft := h.left_eq
  rcases Nat.lt_or_ge 1 depth with hlt | hge
  · have := h.left_pos hlt
    omega
  · omega

end Underway

/-! ### Every call -/

/-- **A call is in order** if it finds a path under way and notes what completes it. -/
structure Call.InOrder (r : Ranked) (q : CycleQuery) (c : Call) : Prop where
  /-- It finds a path under way. -/
  underway : Underway r q c.start c.depth c.left c.current c.before
  /-- What it leaves is what the search leaves. -/
  after_eq : c.after = extend r q c.start c.left c.current c.before

/-- The calls that visiting a successor takes are in order, if those are that going on to it
takes. -/
theorem inOrder_visitTraced {start left next : Nat} {go : Nat → Search → Search × List Call}
    {t : Search × List Call} (ht : ∀ c ∈ t.2, c.InOrder r q)
    (hgo : next ≠ start → left ≠ 0 → ¬next < start → t.1.visits next = false →
      ∀ c ∈ (go next (t.1.push next)).2, c.InOrder r q) :
    ∀ c ∈ (visitTraced q start left go t next).2, c.InOrder r q := by
  intro c hc
  rw [visitTraced] at hc
  split_ifs at hc with hfull hstart hlong hprune
  case pos | pos | neg | pos => exact ht c hc
  case neg =>
    simp only [Bool.or_eq_true, decide_eq_true_eq, not_or, Bool.not_eq_true] at hprune
    obtain ⟨⟨hleft, hlt⟩, hvisits⟩ := hprune
    rcases List.mem_append.mp hc with hc | hc
    · exact ht c hc
    · exact hgo hstart hleft hlt hvisits c hc

/-- **All calls are in order** that one makes which finds a path under way. -/
theorem inOrder_traced (hr : r.Orderly) {start depth left current : Nat} {s : Search}
    (h : Underway r q start depth left current s) :
    ∀ c ∈ (traced r q start depth left current s).2, c.InOrder r q := by
  induction left generalizing depth current s with
  | zero =>
    intro c hc
    obtain rfl := List.mem_singleton.mp hc
    exact ⟨h, rfl⟩
  | succ left ih =>
    -- one successor after another: the path is under way before each of them
    have hall : ∀ nexts ⊆ r.next current, ∀ t : Search × List Call,
        Underway r q start depth (left + 1) current t.1 → (∀ c ∈ t.2, c.InOrder r q) →
        ∀ c ∈ (nexts.foldl (visitTraced q start left (traced r q start (depth + 1) left)) t).2,
          c.InOrder r q := by
      intro nexts
      induction nexts with
      | nil => exact fun _ _ _ hcalls => hcalls
      | cons next nexts ihnexts =>
        intro hsub t hunderway hcalls
        obtain ⟨hnext, hsub⟩ := List.cons_subset.mp hsub
        rw [List.foldl_cons]
        refine ihnexts hsub _ ?_ (inOrder_visitTraced hcalls fun hstart hleft hlt hvisits => ?_)
        · rw [fst_visitTraced (fst_traced start (depth + 1) left next),
            visit_eq_note hr start left (hr.lt_size _ _ hnext) hunderway.marked]
          exact hunderway.note _ _
        · refine ih (hunderway.push hr hnext hleft (Nat.le_of_not_lt hlt) fun hmem => ?_)
          rw [(hunderway.marked.visits_iff next).mpr hmem] at hvisits
          exact Bool.noConfusion hvisits
    intro c hc
    rcases List.mem_cons.mp hc with rfl | hc
    · exact ⟨h, fst_traced start depth (left + 1) current s⟩
    · exact hall _ (List.Subset.refl _) (s, []) h
        (fun _ hnone => absurd hnone List.not_mem_nil) c hc

end Search

/-- **All calls of a search are in order.** -/
theorem Ranked.Orderly.inOrder_traced {r : Ranked} (hr : r.Orderly) (q : CycleQuery) :
    ∀ c ∈ (r.traced q).2, c.InOrder r q := by
  have hall : ∀ starts : List Nat, (∀ start ∈ starts, start < r.files.size) →
      ∀ t : Search × List Search.Call, t.1.Marked r.files.size → t.1.path = [] →
      (∀ c ∈ t.2, c.InOrder r q) →
      ∀ c ∈ (starts.foldl (Search.exploreTraced r q) t).2, c.InOrder r q := by
    intro starts
    induction starts with
    | nil => exact fun _ _ _ _ hcalls => hcalls
    | cons start starts ih =>
      intro hstarts t hmarked hpath hcalls
      obtain ⟨hstart, hstarts⟩ := List.forall_mem_cons.mp hstarts
      rw [List.foldl_cons]
      -- between two starts there is no path, and no file is marked
      have hnoted : (Search.exploreTraced r q t start).1 =
          t.1.note q.limit (r.onward q.least start q.greatest start [start]) := by
        rw [Search.fst_exploreTraced, Search.explore_eq_note hr hmarked hpath hstart]
      refine ih hstarts _ (hnoted ▸ hmarked.note _ _) (hnoted ▸ hpath) ?_
      intro c hc
      rw [Search.exploreTraced] at hc
      split_ifs at hc
      case pos => exact hcalls c hc
      case neg =>
        rcases List.mem_append.mp hc with hc | hc
        · exact hcalls c hc
        · exact Search.inOrder_traced hr (.push_start hmarked hpath hstart) c hc
  exact hall _ (fun start hstart => List.mem_range.mp hstart) _ (.start r.files.size) rfl
    fun _ hnone => absurd hnone List.not_mem_nil

/-- **What a call in order leaves**: its path and its marks as they were, and some cycles more,
though no more than are wanted. -/
theorem Search.Call.InOrder.leaves {r : Ranked} {q : CycleQuery} {c : Call} (hr : r.Orderly)
    (h : c.InOrder r q) :
    c.after.path = c.before.path ∧ c.after.onPath = c.before.onPath ∧
      c.before.found.toList <+: c.after.found.toList ∧
      c.after.found.size ≤ max q.limit c.before.found.size := by
  rw [h.after_eq, extend_eq_note hr _ _ _ h.underway.marked]
  refine ⟨rfl, rfl, ?_, ?_⟩
  · rw [note, Array.toList_append]
    exact List.prefix_append _ _
  · simp only [note, Array.size_append, List.size_toArray, List.length_take]
    omega

namespace RepoGraph

/-- There are as many ranks as files. -/
theorem size_files_ranked (g : RepoGraph) : g.ranked.files.size = g.nodeCount := by
  rw [← Roster.length_toList, toList_ranked_files, sortedPaths, List.length_mergeSort]
  rfl

/-- **The search for cycles goes back the way it came.** Whatever was written and whatever is
asked for, every call of the search finds a path that leads from the start to the file that the
call is for, along edges, with no file twice and none before the start; exactly the files of the
path are marked. There are as many calls under way as there are files on the path, no more than
the graph has, and no more than a cycle may have edges, unless it may have none; so that the edges
that have been walked and two more are counted up to one more than there are files at most. A call
leaves the path and the marks as they were, and adds cycles at the end of those that were found, no
more than are wanted. The record of the calls is one of the search that reports the cycles. -/
theorem search_backtracks (writes : List Edge) (q : CycleQuery) :
    let g := empty.writeAll writes
    (∀ c ∈ (g.ranked.traced q).2,
      let path := c.before.path.reverse
      path.head? = some c.start ∧ path.getLast? = some c.current ∧ path.Nodup ∧
      (path.map g.ranked.path).IsChain g.DependsOn ∧
      (∀ file ∈ path, g.ranked.path c.start ≤ g.ranked.path file) ∧
      (∀ file, c.before.visits file ↔ file ∈ path) ∧
      path.length ≤ min g.nodeCount (max 1 q.greatest) ∧
      c.depth = path.length ∧
      c.left + (path.length - 1) = q.greatest ∧
      (path.length - 1) + 2 ≤ g.nodeCount + 1 ∧
      c.after = Search.extend g.ranked q c.start c.left c.current c.before ∧
      c.after.path = c.before.path ∧ c.after.onPath = c.before.onPath ∧
      c.before.found.toList <+: c.after.found.toList ∧
      c.after.found.size ≤ max q.limit c.before.found.size) ∧
    g.cycles q = (g.ranked.traced q).1.found.toList.map (·.map g.ranked.path) := by
  intro g
  have hg : g.Coherent := coherent_writeAll_empty writes
  have hr := hg.orderly_ranked
  refine ⟨fun c hc => ?_, by rw [Ranked.found_traced]; rfl⟩
  intro path
  have hcall := hr.inOrder_traced q c hc
  have h := hcall.underway
  have hmem : ∀ {file}, file ∈ path ↔ file ∈ c.before.path := List.mem_reverse
  have hlength : path.length = c.before.path.length := List.length_reverse
  have hle := h.length_le
  rw [size_files_ranked] at hle
  have hpos : 0 < c.before.path.length :=
    List.length_pos_of_mem (List.mem_of_mem_head? h.last)
  have hdepth := h.length_eq
  have hleft := h.left_eq
  refine ⟨?_, ?_, List.nodup_reverse.mpr h.nodup, ?_, fun file hfile => ?_, fun file => ?_,
    hlength ▸ hle, by omega, by omega, by omega, hcall.after_eq, hcall.leaves hr⟩
  · rw [List.head?_reverse, h.first]
  · rw [List.getLast?_reverse, h.last]
  · rw [List.isChain_map]
    exact h.follows.imp fun a b hab => (hg.mem_next_ranked.mp hab).2.2
  · have hfile := hmem.mp hfile
    rcases (h.start_le file hfile).eq_or_lt with heq | hlt
    · rw [heq]
    · exact (path_ranked_lt (h.lt_size file hfile) hlt).le
  · rw [hmem]
    exact h.marked.visits_iff file

end RepoGraph

end DepGraph
