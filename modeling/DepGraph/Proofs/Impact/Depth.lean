import DepGraph.Proofs.Structural

/-!
# Impacts and the depth that is asked for

Whoever asks for an impact may ask for any depth, or for none, and the limits have the last word:
the depth that is searched lies between one and the greatest depth that is allowed
(`DepGraph.QueryLimits.clampDepth_eq`). Asking for more never means that less is searched.

What is found within a lesser depth is found within a greater one, too, in the same order and before
all else, since nearer files come first. So the answer for the lesser depth is the beginning of the
answer for the greater one, and it ends where the distances get too large
(`DepGraph.Store.impact_deepens`).
-/

namespace DepGraph

/-! ### The depth that is searched -/

namespace QueryLimits

/-- The depth that is searched: the one that was asked for or else the default, brought into the
range. A depth that is negative is as good as none at all. -/
theorem clampDepth_eq (l : QueryLimits) (requested : Option Int) :
    l.clampDepth requested =
      max 1 (min (requested.elim l.defaultImpactDepth Int.toNat) (max l.maxImpactDepth 1)) := by
  cases requested with
  | none => rfl
  | some depth =>
    rw [clampDepth, Option.elim_some]
    split <;> omega

/-- Asking for more does not mean that less is searched. -/
theorem clampDepth_mono (l : QueryLimits) {shallow deep : Int} (h : shallow ≤ deep) :
    l.clampDepth (some shallow) ≤ l.clampDepth (some deep) := by
  rw [clampDepth_eq, clampDepth_eq, Option.elim_some, Option.elim_some]
  omega

/-- Without a depth the default is asked for. -/
theorem clampDepth_none (l : QueryLimits) :
    l.clampDepth none = l.clampDepth (some l.defaultImpactDepth) := by
  rw [clampDepth_eq, clampDepth_eq]
  rfl

end QueryLimits

/-! ### Beginnings -/

/-- If nothing has some property after something that lacks it, then what has the property is a
beginning of the list. -/
theorem filter_isPrefix {α : Type} {p : α → Bool} {l : List α}
    (h : l.Pairwise fun a b => p b = true → p a = true) : l.filter p <+: l := by
  induction l with
  | nil => exact List.prefix_rfl
  | cons a l ih =>
    obtain ⟨ha, hl⟩ := List.pairwise_cons.mp h
    by_cases hp : p a = true
    · rw [List.filter_cons_of_pos hp]
      exact List.cons_prefix_cons.mpr ⟨rfl, ih hl⟩
    · have hnone : (a :: l).filter p = [] :=
        List.filter_eq_nil_iff.mpr (List.forall_mem_cons.mpr ⟨hp, fun b hb hpb => hp (ha b hb hpb)⟩)
      rw [hnone]
      exact List.nil_prefix

namespace RepoGraph

/-- Without files there is no impact. -/
theorem impact_empty (path : String) (maxDepth : Nat) : empty.impact path maxDepth = [] := by
  have hunknown : empty.files.number? path = none :=
    Roster.number?_eq_none_iff.mpr List.not_mem_nil
  rw [impact, hunknown]

namespace Coherent

variable {g : RepoGraph}

/-- **A shallower impact is cut out of a deeper one** by the distance. -/
theorem impact_eq_filter (h : g.Coherent) (path : String) {shallow deep : Nat}
    (hle : shallow ≤ deep) :
    g.impact path shallow = (g.impact path deep).filter fun f => f.distance ≤ shallow := by
  refine eq_of_ascends (h.pairwise_impact path shallow)
    ((h.pairwise_impact path deep).filter _) ?_
  rintro ⟨other, distance⟩
  rw [List.mem_filter, h.mem_impact_iff, h.mem_impact_iff, decide_eq_true_eq]
  constructor
  · rintro ⟨hne, hdepth, hdistance⟩
    exact ⟨⟨hne, hdepth.trans hle, hdistance⟩, hdepth⟩
  · rintro ⟨⟨hne, -, hdistance⟩, hdepth⟩
    exact ⟨hne, hdepth, hdistance⟩

/-- **A shallower impact is the beginning of a deeper one**: nearer files come first. -/
theorem impact_isPrefix (h : g.Coherent) (path : String) {shallow deep : Nat}
    (hle : shallow ≤ deep) : g.impact path shallow <+: g.impact path deep := by
  rw [h.impact_eq_filter path hle]
  refine filter_isPrefix ((h.pairwise_impact path deep).imp fun {a b} hab hb => ?_)
  rw [decide_eq_true_eq] at hb ⊢
  rcases hab with hlt | ⟨heq, -⟩
  · exact hlt.le.trans hb
  · exact heq.trans_le hb

end Coherent

end RepoGraph

/-! ### Answers -/

namespace Store

/-- **The answer about an impact**, whether or not the repository exists: one that does not exist has
the impacts of a graph without files. -/
theorem impact_eq (s : Store) (repo path : String) (depth : Option Int) :
    s.impact repo path depth =
      .ofFiles path (s.limits.clampDepth depth)
        (((s.graph? repo).getD .empty).impact path (s.limits.clampDepth depth)) := by
  rw [impact]
  rcases s.graph? repo with _ | g
  · rw [Option.getD_none, RepoGraph.impact_empty]
  · rfl

/-- The total of an answer is the number of its files. -/
theorem totalImpact_impact (s : Store) (repo path : String) (depth : Option Int) :
    (s.impact repo path depth).totalImpact = (s.impact repo path depth).affectedFiles.length := by
  rw [impact_eq]
  rfl

section After

variable (limits : QueryLimits) (history : List (Instant × Operation)) (repo path : String)

/-- What is searched is decided by the limits. -/
theorem maxDepth_impact (depth : Option Int) :
    ((after limits history).impact repo path depth).maxDepth = limits.clampDepth depth := by
  rw [impact_eq, limits_after]
  rfl

/-- The files of an answer are the impact that the graph has within the depth that is searched. -/
theorem affectedFiles_impact (depth : Option Int) :
    ((after limits history).impact repo path depth).affectedFiles =
      (((after limits history).graph? repo).getD .empty).impact path (limits.clampDepth depth) := by
  rw [impact_eq, limits_after]
  rfl

end After

/-- **A deeper impact goes on where a shallower one ends.** After every history, under any limits,
and whatever is asked about: if one depth is not greater than another, the depth that is searched
for it is not greater either, and its answer is the beginning of the other one, up to the distance
that was searched. What is searched always lies between one and the greatest depth allowed, is the
depth that was asked for if this lies there, and without a depth it is what the default makes of it.
The total is the number of files, and none of them is further away than was searched. -/
theorem impact_deepens (limits : QueryLimits) (history : List (Instant × Operation))
    (repo path : String) {d₁ d₂ : Int} (hle : d₁ ≤ d₂) :
    let s := after limits history
    let shallow := s.impact repo path (some d₁)
    let deep := s.impact repo path (some d₂)
    shallow.maxDepth ≤ deep.maxDepth ∧
    shallow.affectedFiles <+: deep.affectedFiles ∧
    (shallow.affectedFiles =
      deep.affectedFiles.filter fun f => f.distance ≤ shallow.maxDepth) ∧
    (∀ depth, let report := s.impact repo path depth
      1 ≤ report.maxDepth ∧ report.maxDepth ≤ max 1 limits.maxImpactDepth ∧
      report.totalImpact = report.affectedFiles.length ∧
      ∀ f ∈ report.affectedFiles, f.distance ≤ report.maxDepth) ∧
    (∀ depth : Int, 1 ≤ depth → depth ≤ (max 1 limits.maxImpactDepth : Nat) →
      (s.impact repo path (some depth)).maxDepth = depth) ∧
    s.impact repo path none = s.impact repo path (some limits.defaultImpactDepth) := by
  intro s shallow deep
  have h := coherent_graph_after limits repo history
  have hmono := limits.clampDepth_mono hle
  refine ⟨?_, ?_, ?_, fun depth => ⟨?_, ?_, ?_, fun f hf => ?_⟩, fun depth hpos hdepth => ?_, ?_⟩
  · rw [maxDepth_impact, maxDepth_impact]
    exact hmono
  · rw [affectedFiles_impact, affectedFiles_impact]
    exact h.impact_isPrefix path hmono
  · rw [affectedFiles_impact, affectedFiles_impact, maxDepth_impact]
    exact h.impact_eq_filter path hmono
  · rw [maxDepth_impact, limits.clampDepth_eq]
    omega
  · rw [maxDepth_impact, limits.clampDepth_eq]
    omega
  · rw [impact_eq]
    rfl
  · rw [affectedFiles_impact] at hf
    rw [maxDepth_impact]
    exact (h.mem_impact_iff.mp hf).2.1
  · rw [maxDepth_impact, limits.clampDepth_eq, Option.elim_some]
    omega
  · rw [impact_eq, impact_eq, limits_after, limits.clampDepth_none]

/-- The least and the greatest depth that can be asked for, about the first file of a chain. -/
theorem impact_deepens_extremes :
    let batch : Batch := ⟨"repo", "run", [⟨some "a", some "b", some "import", none⟩,
      ⟨some "b", some "c", some "import", none⟩]⟩
    let s := after { maxImpactDepth := 2 } [(⟨0, 0⟩, .ingest batch)]
    let shallow := s.impact "repo" "a" (some (-9223372036854775808))
    let deep := s.impact "repo" "a" (some 9223372036854775807)
    (-9223372036854775808 : Int) ≤ 9223372036854775807 ∧
      shallow.maxDepth = 1 ∧ deep.maxDepth = 2 ∧ ⟨"b", 1⟩ ∈ shallow.affectedFiles ∧
      shallow.affectedFiles <+: deep.affectedFiles ∧
      shallow.affectedFiles = deep.affectedFiles.filter fun f => f.distance ≤ shallow.maxDepth := by
  have hvalid : Batch.validate ⟨"repo", "run", [⟨some "a", some "b", some "import", none⟩,
      ⟨some "b", some "c", some "import", none⟩]⟩ = .ok ⟨"repo", "run",
        [⟨"a", "b", "import", defaultWeight⟩, ⟨"b", "c", "import", defaultWeight⟩]⟩ := rfl
  intro batch s shallow deep
  have hle : (-9223372036854775808 : Int) ≤ 9223372036854775807 := by decide
  obtain ⟨-, hprefix, hfilter, -⟩ :=
    impact_deepens { maxImpactDepth := 2 } [(⟨0, 0⟩, .ingest batch)] "repo" "a" hle
  have hdepends : ((s.graph? "repo").getD .empty).DependsOn "a" "b" :=
    (dependsOn_after_iff _).mpr ⟨_, mem_contributions_iff.mpr
      ⟨⟨0, 0⟩, batch, .head _, hvalid, rfl, List.cons_ne_nil _ _⟩, _, .head _, rfl, rfl⟩
  have hmem : ⟨"b", 1⟩ ∈ ((s.graph? "repo").getD .empty).impact "a" 1 :=
    (coherent_graph_after ..).mem_impact_iff.mpr ⟨by decide, Nat.le_refl 1,
      RepoGraph.IsDistance.one_iff.mpr ⟨by decide, hdepends⟩⟩
  have hfound : ⟨"b", 1⟩ ∈ shallow.affectedFiles := by
    rw [affectedFiles_impact]
    exact hmem
  exact ⟨hle, maxDepth_impact .., maxDepth_impact .., hfound, hprefix, hfilter⟩

end Store

end DepGraph
