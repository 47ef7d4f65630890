import DepGraph.Batch.Basic
import DepGraph.Proofs.Graph.Coherent
import DepGraph.Question

/-!
# Times do not show

Every edge remembers when it was written, and no question asks about it. Here the times are
taken off a graph (`DepGraph.RepoGraph.timeless`). Writing does not notice: what is known about
an edge apart from its time never depends on times, so a graph that was written without times
is the graph that was written with them, less the times
(`DepGraph.RepoGraph.timeless_writeAll`). Neither does asking
(`DepGraph.Question.about_timeless`). Two graphs that are equal without their times are
therefore the same to everyone who asks, however they are written to.
-/

namespace DepGraph

/-- The beginning of 1970. -/
def Instant.epoch : Instant := ⟨0, 0⟩

/-- The details of an edge without its time, or rather with one that is always the same. -/
def EdgeDetail.timeless (d : EdgeDetail) : EdgeDetail := { d with updatedAt := .epoch }

/-- An edge without its time. -/
def Edge.timeless (e : Edge) : Edge := { e with updatedAt := .epoch }

/-- Without their times the edges of a batch are the same whenever it is written. -/
theorem Accepted.timeless_writes (b : Accepted) (now : Instant) :
    (b.writes now).map Edge.timeless = b.writes .epoch := by
  rw [writes, List.map_map]
  rfl

namespace RepoGraph

/-- **A graph without its times.** -/
def timeless (g : RepoGraph) : RepoGraph := { g with details := g.details.map EdgeDetail.timeless }

/-! ### Writing -/

theorem timeless_enterFile (g : RepoGraph) (path : String) :
    g.timeless.enterFile path = ((g.enterFile path).1.timeless, (g.enterFile path).2) := by
  have hfiles : g.timeless.files = g.files := rfl
  rw [enterFile, enterFile, hfiles]
  split <;> rfl

theorem timeless_writeLink (g : RepoGraph) (link : Link) (detail : EdgeDetail) :
    (g.timeless.writeLink link detail.timeless).1 = (g.writeLink link detail).1.timeless := by
  have hlinks : g.timeless.links = g.links := rfl
  rw [writeLink, writeLink, hlinks]
  split
  · next number _ =>
    have hmodify : (g.details.map EdgeDetail.timeless).modify number (overwrite · detail.timeless) =
        (g.details.modify number (overwrite · detail)).map EdgeDetail.timeless := by
      refine Array.ext_getElem? fun i => ?_
      rw [Array.getElem?_modify, Array.getElem?_map, Array.getElem?_map, Array.getElem?_modify]
      split
      · rw [Option.map_map, Option.map_map]
        rfl
      · rfl
    rw [timeless, timeless]
    dsimp only
    rw [hmodify]
  · rw [timeless, timeless]
    dsimp only
    rw [Array.map_push]

theorem timeless_upsert (g : RepoGraph) (e : Edge) :
    (g.timeless.upsert e.timeless).1 = (g.upsert e).1.timeless := by
  have hsource : g.timeless.enterFile e.timeless.source =
      ((g.enterFile e.source).1.timeless, (g.enterFile e.source).2) :=
    timeless_enterFile g e.source
  have htarget : (g.enterFile e.source).1.timeless.enterFile e.timeless.target =
      (((g.enterFile e.source).1.enterFile e.target).1.timeless,
        ((g.enterFile e.source).1.enterFile e.target).2) :=
    timeless_enterFile _ e.target
  rw [upsert, hsource]
  dsimp only
  rw [htarget]
  exact timeless_writeLink _ (g.linkOf e) e.detail

/-- **Writing does not look at times.** -/
theorem timeless_writeAll (g : RepoGraph) (writes : List Edge) :
    (g.writeAll writes).timeless = g.timeless.writeAll (writes.map Edge.timeless) := by
  induction writes generalizing g with
  | nil => rfl
  | cons e writes ih =>
    rw [writeAll, List.foldl_cons, List.map_cons, writeAll, List.foldl_cons, timeless_upsert]
    exact ih (g.upsert e).1

/-! ### Asking -/

theorem edge?_timeless (g : RepoGraph) (number : Nat) :
    g.timeless.edge? number = (g.edge? number).map Edge.timeless := by
  have hdetail : g.timeless.details[number]? = g.details[number]?.map EdgeDetail.timeless :=
    Array.getElem?_map
  have hlink : g.timeless.links = g.links := rfl
  rw [edge?, edge?, hdetail, hlink]
  rcases g.links.get? number with _ | link
  · rfl
  · rcases g.details[number]? with _ | detail <;> rfl

theorem edges_timeless (g : RepoGraph) : g.timeless.edges = g.edges.map Edge.timeless := by
  rw [edges, edges, List.map_filterMap]
  exact List.filterMap_congr fun number _ => edge?_timeless g number

/-- A listing leaves the times out. -/
theorem listing_timeless (g : RepoGraph) (cap : Nat) : g.timeless.listing cap = g.listing cap := by
  rw [listing, listing, edges_timeless, ← List.map_take, List.map_map]
  rfl

end RepoGraph

/-- A wave goes along the same edges. -/
theorem Wave.run_timeless (g : RepoGraph) (maxDepth rounds : Nat) (w : Wave) :
    w.run g.timeless maxDepth rounds = w.run g maxDepth rounds := by
  induction rounds generalizing w with
  | zero => rfl
  | succ rounds ih => exact ih (w.step g maxDepth)

theorem RepoGraph.impact_timeless (g : RepoGraph) (path : String) (maxDepth : Nat) :
    g.timeless.impact path maxDepth = g.impact path maxDepth := by
  have hfiles : g.timeless.files = g.files := rfl
  rw [impact, impact, hfiles]
  split
  · rfl
  · rw [Wave.run_timeless]
    rfl

/-- **No question asks for times.** -/
theorem Question.about_timeless (q : Question) (limits : QueryLimits) (g : RepoGraph) :
    q.about limits g.timeless = q.about limits g := by
  cases q with
  | edges => rw [about, about, RepoGraph.edgeListing, RepoGraph.edgeListing,
      RepoGraph.listing_timeless]
  | impact path depth => rw [about, about, RepoGraph.impactReport, RepoGraph.impactReport,
      RepoGraph.impact_timeless]
  | cycles => rfl
  | hotspots => rfl

end DepGraph
