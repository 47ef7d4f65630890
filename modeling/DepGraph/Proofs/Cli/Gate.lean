import DepGraph.Proofs.Cli.Loading
import DepGraph.Proofs.Cycles.Enumeration
import DepGraph.Proofs.Structural

/-!
# Failing on cycles

The program can be made to fail if there are cycles, which is what a build relies on. It then
fails exactly if there is one of two to six files among the dependences that the batches report
about the repository (`DepGraph.Cli.fails_iff_hasCycle`). Four things have to work together.
The configuration must not ask for no cycles at all; the batches must all have been written, and
each to its own repository; the search must find some cycle if there is one, which it does as
soon as one is wanted (`DepGraph.RepoGraph.Coherent.cycles_ne_nil_iff`); and the program must
look at what the report says.

A file that depends on itself is no reason to fail, and neither is a cycle that can only be
closed across repositories.
-/

namespace DepGraph

/-! ### Cycles of a relation -/

/-- **There is a cycle**, with a number of files in a range: the files are distinct, and each
depends on the next, all the way round. -/
def HasCycle (dependsOn : String → String → Prop) (least greatest : Nat) : Prop :=
  ∃ c : Cycle String, c.Nodup ∧ c.Chain dependsOn ∧ least ≤ c.length ∧ c.length ≤ greatest

/-- On a cycle of at least two files some file depends on another. -/
theorem HasCycle.exists_ne {dependsOn : String → String → Prop} {greatest : Nat}
    (h : HasCycle dependsOn 2 greatest) : ∃ a b, a ≠ b ∧ dependsOn a b := by
  obtain ⟨c, hnodup, hchain, hleast, -⟩ := h
  obtain ⟨l, rfl⟩ : ∃ l : List String, (l : Cycle String) = c := Quotient.exists_rep c
  match l with
  | [] => exact absurd hleast (by simp)
  | [_] => exact absurd hleast (by simp)
  | a :: b :: rest =>
    refine ⟨a, b, ?_, (List.isChain_cons_cons.mp hchain).1⟩
    rintro rfl
    exact (List.nodup_cons.mp hnodup).1 (List.mem_cons_self ..)

theorem RepoGraph.exists_isCycle_iff {g : RepoGraph} {least greatest : Nat} (hleast : 0 < least) :
    (∃ c, g.IsCycle least greatest c) ↔ HasCycle g.DependsOn least greatest := by
  constructor
  · rintro ⟨c, hc⟩
    exact ⟨c, hc.nodup, hc.chain, hc.least_le, hc.le_greatest⟩
  · rintro ⟨c, hnodup, hchain, hle, hge⟩
    refine ⟨c, ?_, hnodup, hchain, hle, hge⟩
    rintro rfl
    exact absurd (Nat.lt_of_lt_of_le hleast hle) (Nat.lt_irrefl 0)

namespace Store

/-- **Some cycle is reported exactly if there is one**, provided that any are wanted. -/
theorem cycles_after_pos_iff {limits : QueryLimits} (hlimit : 0 < limits.maxCycles)
    (repo : String) (history : List (Instant × Operation)) :
    0 < ((after limits history).cycles repo).total ↔
      HasCycle (fun a b => ∃ batch ∈ contributions repo history, batch.Reports a b) 2 6 := by
  have hask := ask_after limits repo history .cycles
  split at hask
  case isTrue hnone =>
    -- nobody has contributed anything, so that there is nothing to be on a cycle
    rw [Report.cycles.inj hask, hnone]
    refine ⟨fun hpos => absurd hpos (Nat.lt_irrefl 0), fun hcycle => ?_⟩
    obtain ⟨a, b, -, batch, hbatch, -⟩ := hcycle.exists_ne
    exact absurd hbatch List.not_mem_nil
  case isFalse =>
    have hdepends : (RepoGraph.empty.writeAll (writesTo repo history)).DependsOn =
        fun a b => ∃ batch ∈ contributions repo history, batch.Reports a b := by
      funext a b
      rw [← getD_graph?_after limits, dependsOn_after_iff]
    have hcoherent := RepoGraph.coherent_writeAll_empty (writesTo repo history)
    rw [Report.cycles.inj hask, ← hdepends, ← RepoGraph.exists_isCycle_iff (by decide)]
    exact List.length_pos_iff.trans (hcoherent.cycles_ne_nil_iff (q := limits.cycleQuery) hlimit)

end Store

namespace Cli

/-! ### Failing -/

/-- **The program fails if it was told to and there is a cycle to report**; nothing else makes
it fail once there is a report. -/
theorem Command.fails_output_iff (c : Command) (s : Store)
    (loaded : List (String × IngestReport)) :
    c.fails (c.output s loaded) ↔ ∃ repo, c = .cycles repo true ∧ 0 < (s.cycles repo).total := by
  cases c with
  | cycles repo failOnCycles =>
    cases failOnCycles with
    | true =>
      constructor
      · intro hpos
        exact ⟨repo, rfl, of_decide_eq_true hpos⟩
      · rintro ⟨_, ⟨⟩, hpos⟩
        exact decide_eq_true hpos
    | false => exact ⟨fun h => absurd h Bool.false_ne_true, fun ⟨_, h, _⟩ => nomatch h⟩
  | ingest | edges _ | impact _ _ _ | hotspots _ =>
    exact ⟨fun h => absurd h Bool.false_ne_true, fun ⟨_, h, _⟩ => nomatch h⟩

/-- **The program fails exactly if there is a cycle.** Let the configuration and all batch files
load. Then there is a report; and the program fails exactly if it was told to fail on the cycles
of some repository, and the batches that name this repository report the dependences of a cycle
of two to six files. So it does not fail if these batches report nothing but files that depend on
themselves, if there are no such batches, or if all cycles of more than one file are longer than
that. When the batches are written makes no difference. -/
theorem fails_iff_hasCycle {files : Files} {i : Invocation} {config : Config}
    {batches : List Batch} (hconfig : loadConfig files i.config = .ok config)
    (hread : i.batches.map (readBatch files) = batches.map .ok)
    (haccepted : ∀ batch ∈ batches, ∃ accepted, batch.validate = .ok accepted)
    (clock : Nat → Instant) (colours : Bool) :
    ∃ outcome, i.run files clock colours = .ok outcome ∧
      (outcome.failed ↔
        ∃ repo, i.command = .cycles repo true ∧ HasCycle (Reported batches repo) 2 6) ∧
      ∀ repo, i.command = .cycles repo true →
        ((∀ a b, Reported batches repo a b → a = b) → ¬outcome.failed) ∧
        ((∀ batch ∈ batches, batch.repoId ≠ repo) → ¬outcome.failed) ∧
        ((∀ c : Cycle String, c.Nodup → c.Chain (Reported batches repo) → 2 ≤ c.length →
          7 ≤ c.length) → ¬outcome.failed) := by
  have hlimit : 0 < config.limits.maxCycles :=
    (QueryLimits.validate_eq_ok (loadConfig_eq_ok hconfig)).1 ("max_cycles", _)
      (List.mem_cons_of_mem _ (List.mem_cons_self ..))
  refine ⟨_, Invocation.run_of_accepted hconfig hread haccepted clock colours, ?_⟩
  dsimp only
  have hcycle : ∀ repo,
      0 < ((Store.after config.limits (loading clock batches)).cycles repo).total ↔
        HasCycle (Reported batches repo) 2 6 := by
    intro repo
    have hreported : (fun a b => ∃ accepted ∈ contributions repo (loading clock batches),
        accepted.Reports a b) = Reported batches repo := by
      funext a b
      exact propext (exists_reports_loading_iff haccepted clock)
    rw [Store.cycles_after_pos_iff hlimit, hreported]
  rw [Command.fails_output_iff]
  simp only [hcycle, true_and]
  intro repo hcommand
  have hnamed : (∃ other, i.command = .cycles other true ∧
      HasCycle (Reported batches other) 2 6) → HasCycle (Reported batches repo) 2 6 := by
    rintro ⟨other, hother, h⟩
    obtain ⟨rfl, -⟩ := Command.cycles.inj (hcommand.symm.trans hother)
    exact h
  refine ⟨fun hself hfails => ?_, fun hunknown hfails => ?_, fun hlong hfails => ?_⟩
  · obtain ⟨a, b, hne, hreported⟩ := (hnamed hfails).exists_ne
    exact hne (hself a b hreported)
  · obtain ⟨a, b, -, batch, hbatch, hrepo, -⟩ := (hnamed hfails).exists_ne
    exact hunknown batch hbatch hrepo
  · obtain ⟨c, hnodup, hchain, hleast, hgreatest⟩ := hnamed hfails
    have hlength := hlong c hnodup hchain hleast
    omega

-- what is read from a file is compared with the batch that it should be
deriving instance DecidableEq for Descriptor, Batch

/-- A cycle whose two dependences are in two files, beside a batch for another repository, a
configuration that lets one cycle be reported, and a clock that goes back. -/
theorem fails_iff_hasCycle_across_files :
    let files : Files := ⟨fun path => match path with
      | "archlens.yaml" => .ok "limits:\n  max_cycles: 1\n".toUTF8
      | "one.json" =>
        .ok "[\"demo\", \"run\", [[\"a\", \"a\", \"call\"], [\"a\", \"b\", \"call\"]]]".toUTF8
      | "two.json" => .ok "[\"other\", \"run\", [[\"b\", \"a\", \"call\"]]]".toUTF8
      | "three.json" => .ok "[\"demo\", \"later\", [[\"b\", \"a\", \"import\"]]]".toUTF8
      | _ => .error .notFound⟩
    let i : Invocation :=
      ⟨["one.json", "two.json", "three.json"], some "archlens.yaml", false, 0, .cycles "demo" true⟩
    let batches : List Batch :=
      [⟨"demo", "run", [⟨some "a", some "a", some "call", none⟩,
          ⟨some "a", some "b", some "call", none⟩]⟩,
        ⟨"other", "run", [⟨some "b", some "a", some "call", none⟩]⟩,
        ⟨"demo", "later", [⟨some "b", some "a", some "import", none⟩]⟩]
    loadConfig files i.config = .ok ⟨{ maxCycles := 1 }⟩ ∧
      i.batches.map (readBatch files) = batches.map .ok ∧
      (∀ batch ∈ batches, ∃ accepted, batch.validate = .ok accepted) ∧
      ∃ outcome, i.run files (fun n => ⟨-n, 0⟩) false = .ok outcome ∧ outcome.failed := by
  intro files i batches
  have hconfig : loadConfig files i.config = .ok ⟨{ maxCycles := 1 }⟩ := by decide +kernel
  have hread : i.batches.map (readBatch files) = batches.map .ok := by decide +kernel
  have haccepted : ∀ batch ∈ batches, ∃ accepted, batch.validate = .ok accepted := by
    intro batch hbatch
    simp only [batches, List.mem_cons, List.not_mem_nil, or_false] at hbatch
    rcases hbatch with rfl | rfl | rfl <;> exact ⟨_, rfl⟩
  refine ⟨hconfig, hread, haccepted, ?_⟩
  obtain ⟨outcome, hrun, hfails, -⟩ := fails_iff_hasCycle hconfig hread haccepted _ false
  refine ⟨outcome, hrun, hfails.mpr ⟨"demo", rfl, (["a", "b"] : List String), by decide, ?_,
    by decide, by decide⟩⟩
  have hthere : Reported batches "demo" "a" "b" := ⟨_, .head _, rfl, _, .tail _ (.head _), rfl, rfl⟩
  have hback : Reported batches "demo" "b" "a" :=
    ⟨_, .tail _ (.tail _ (.head _)), rfl, _, .head _, rfl, rfl⟩
  simp [hthere, hback]

end Cli

end DepGraph
