import DepGraph.Batch.Apply
import DepGraph.Batch.Validation
import Mathlib.Logic.Basic

/-!
# What is in an accepted batch

Checking a batch changes nothing about it: an accepted batch names the repository and the run
that were given, and has one edge for each of the descriptors
(`DepGraph.Batch.validate_eq_ok`), from the source that was given to the target that was given
(`DepGraph.Batch.reports_iff`). Writing it into a graph is writing its edges, the counts on
the side apart (`DepGraph.Accepted.fst_apply`).
-/

namespace DepGraph

namespace Descriptor

/-- **What passes as a required text** is there and says something, and is not changed. -/
theorem required_eq_ok_iff (field : String) {value : Option String} {text : String} :
    required field value = .ok text ↔ value = some text ∧ ¬isBlank text := by
  cases value with
  | none => exact iff_of_false nofun fun h => nomatch h.1
  | some given =>
    change (if isBlank given then Except.error field else .ok given) = .ok text ↔ _
    rw [Option.some.injEq]
    split
    · next hblank =>
      refine iff_of_false nofun ?_
      rintro ⟨rfl, hsays⟩
      exact hsays hblank
    · next hsays =>
      rw [Except.ok.injEq]
      constructor
      · rintro rfl
        exact ⟨rfl, hsays⟩
      · exact And.left

/-- **A descriptor that passes the check** has its source, its target and its type, and none of
them is blank; its weight is a number. The edge has what the descriptor has. -/
theorem check_eq_ok_iff {d : Descriptor} {e : AcceptedEdge} :
    d.check = .ok e ↔
      (d.sourcePath = some e.source ∧ ¬isBlank e.source) ∧
      (d.targetPath = some e.target ∧ ¬isBlank e.target) ∧
      (d.depType = some e.type ∧ ¬isBlank e.type) ∧
      d.weight.getD defaultWeight = e.weight ∧ e.weight.isFinite = true := by
  rw [← required_eq_ok_iff "sourcePath", ← required_eq_ok_iff "targetPath",
    ← required_eq_ok_iff "depType", check]
  rcases required "sourcePath" d.sourcePath with _ | source
  · exact iff_of_false nofun fun h => nomatch h.1
  rcases required "targetPath" d.targetPath with _ | target
  · exact iff_of_false nofun fun h => nomatch h.2.1
  rcases required "depType" d.depType with _ | type
  · exact iff_of_false nofun fun h => nomatch h.2.2.1
  obtain ⟨source', target', type', weight'⟩ := e
  change (if (d.weight.getD defaultWeight).isFinite then
    Except.ok (AcceptedEdge.mk source target type (d.weight.getD defaultWeight))
    else .error "weight") = _ ↔ _
  simp only [Except.ok.injEq]
  split
  · next hfinite =>
    rw [Except.ok.injEq, AcceptedEdge.mk.injEq]
    constructor
    · rintro ⟨rfl, rfl, rfl, rfl⟩
      exact ⟨rfl, rfl, rfl, rfl, hfinite⟩
    · rintro ⟨rfl, rfl, rfl, rfl, -⟩
      exact ⟨rfl, rfl, rfl, rfl⟩
  · next hspecial =>
    refine iff_of_false nofun ?_
    rintro ⟨-, -, -, rfl, hfinite⟩
    exact hspecial hfinite

/-- A descriptor that passes the check leads from the source that was given to the target that
was given. -/
theorem check_eq_ok {d : Descriptor} {e : AcceptedEdge} (h : d.check = .ok e) :
    d.sourcePath = some e.source ∧ d.targetPath = some e.target ∧ d.depType = some e.type := by
  obtain ⟨⟨hsource, -⟩, ⟨htarget, -⟩, ⟨htype, -⟩, -⟩ := check_eq_ok_iff.mp h
  exact ⟨hsource, htarget, htype⟩

/-- **Descriptors are checked one by one.** -/
theorem map_check_of_checkAll {index : Nat} {descriptors : List Descriptor}
    {edges : List AcceptedEdge} (h : checkAll index descriptors = .ok edges) :
    descriptors.map check = edges.map .ok := by
  induction descriptors generalizing index edges with
  | nil =>
    obtain rfl : [] = edges := Except.ok.inj h
    rfl
  | cons d rest ih =>
    rw [checkAll] at h
    split at h
    · cases h
    · next e he =>
      rcases hrest : checkAll (index + 1) rest with _ | restEdges
      · rw [hrest] at h
        cases h
      · rw [hrest] at h
        obtain rfl := Except.ok.inj h
        rw [List.map_cons, List.map_cons, he, ih hrest]

end Descriptor

/-- **A batch is accepted** if it names a repository and a run and all its descriptors pass the
check. -/
theorem Batch.validate_eq_ok_iff {batch : Batch} {b : Accepted} :
    batch.validate = .ok b ↔
      ¬isBlank batch.repoId ∧ ¬isBlank batch.analysisId ∧
        ∃ edges, Descriptor.checkAll 0 batch.edges = .ok edges ∧
          b = ⟨batch.repoId, batch.analysisId, edges⟩ := by
  rw [validate, check]
  split
  · next hblank => exact iff_of_false nofun fun h => h.1 hblank
  split
  · next hblank => exact iff_of_false nofun fun h => h.2.1 hblank
  next hrepo hrun =>
  rcases Descriptor.checkAll 0 batch.edges with e | edges
  · refine iff_of_false nofun ?_
    rintro ⟨-, -, edges, hedges, -⟩
    cases hedges
  · constructor
    · intro h
      exact ⟨hrepo, hrun, edges, rfl, (Except.ok.inj h).symm⟩
    · rintro ⟨-, -, edges', hedges, rfl⟩
      cases hedges
      rfl

/-- What an accepted batch consists of. -/
theorem Batch.exists_checkAll {batch : Batch} {b : Accepted} (h : batch.validate = .ok b) :
    ∃ edges, Descriptor.checkAll 0 batch.edges = .ok edges ∧
      b = ⟨batch.repoId, batch.analysisId, edges⟩ :=
  (validate_eq_ok_iff.mp h).2.2

/-- **An accepted batch is the batch that was given**: the repository and the run are the same,
and there is an edge for each descriptor. -/
theorem Batch.validate_eq_ok {batch : Batch} {b : Accepted} (h : batch.validate = .ok b) :
    b.repoId = batch.repoId ∧ b.analysisId = batch.analysisId ∧
      b.edges.length = batch.edges.length := by
  obtain ⟨edges, hedges, rfl⟩ := exists_checkAll h
  refine ⟨rfl, rfl, ?_⟩
  have hlength := congrArg List.length (Descriptor.map_check_of_checkAll hedges)
  rw [List.length_map, List.length_map] at hlength
  exact hlength.symm

/-- An accepted batch has edges exactly if the batch that was given has descriptors. -/
theorem Batch.edges_eq_nil_iff {batch : Batch} {b : Accepted} (h : batch.validate = .ok b) :
    b.edges = [] ↔ batch.edges = [] := by
  rw [← List.length_eq_zero_iff, (validate_eq_ok h).2.2, List.length_eq_zero_iff]

/-- **A batch reports a dependence** if one of its descriptors, of whatever type, leads from the
one file to the other. -/
def Batch.Reports (batch : Batch) (a b : String) : Prop :=
  ∃ d ∈ batch.edges, d.sourcePath = some a ∧ d.targetPath = some b

/-- An accepted batch reports a dependence if one of its edges leads from the one file to the
other. -/
def Accepted.Reports (batch : Accepted) (a b : String) : Prop :=
  ∃ e ∈ batch.edges, e.source = a ∧ e.target = b

/-- **Checking a batch changes nothing about the dependences that it reports.** -/
theorem Batch.reports_iff {batch : Batch} {accepted : Accepted}
    (h : batch.validate = .ok accepted) {a b : String} :
    accepted.Reports a b ↔ batch.Reports a b := by
  obtain ⟨edges, hedges, rfl⟩ := exists_checkAll h
  have hchecked : batch.edges.map Descriptor.check = edges.map .ok :=
    Descriptor.map_check_of_checkAll hedges
  constructor
  · rintro ⟨e, he, rfl, rfl⟩
    obtain ⟨d, hd, hcheck⟩ := List.mem_map.mp (hchecked ▸ List.mem_map_of_mem he)
    obtain ⟨hsource, htarget, -⟩ := Descriptor.check_eq_ok hcheck
    exact ⟨d, hd, hsource, htarget⟩
  · rintro ⟨d, hd, hsource, htarget⟩
    obtain ⟨e, he, hcheck⟩ := List.mem_map.mp (hchecked ▸ List.mem_map_of_mem hd)
    obtain ⟨hsource', htarget', -⟩ := Descriptor.check_eq_ok hcheck.symm
    exact ⟨e, he, Option.some.inj (hsource'.symm.trans hsource),
      Option.some.inj (htarget'.symm.trans htarget)⟩

/-- Counting on the side makes no difference to what is written. -/
theorem RepoGraph.fst_foldl_countedWrite (edges : List Edge) (state : RepoGraph × ApplyStats) :
    (edges.foldl countedWrite state).1 = state.1.writeAll edges := by
  induction edges generalizing state with
  | nil => rfl
  | cons e edges ih =>
    have hwrite : (countedWrite state e).1 = (state.1.upsert e).1 := by rw [countedWrite]
    rw [List.foldl_cons, ih, hwrite, writeAll, writeAll, List.foldl_cons]

/-- **Writing a batch is writing its edges** in their order. -/
theorem Accepted.fst_apply (b : Accepted) (now : Instant) (g : RepoGraph) :
    (b.apply now g).1 = g.writeAll (b.writes now) := by
  rw [apply, RepoGraph.fst_foldl_countedWrite]

end DepGraph
