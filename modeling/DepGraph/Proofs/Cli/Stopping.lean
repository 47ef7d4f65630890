import DepGraph.Proofs.Cli.Loading
import DepGraph.Proofs.Except

/-!
# Loading stops at the first file that is no good

A file that is given as a batch file either holds an accepted batch (`DepGraph.Cli.Holds`) or there
is something wrong with it (`DepGraph.Cli.Spoils`): it cannot be read, what is in it is not a batch,
or the batch is not accepted. Files are loaded in their order. If all are good, there is a report
for each of them; if not, the first that is not good ends it
(`DepGraph.Cli.loading_stops_at_first_failure`). The files before it stay loaded, and neither it nor
any file after it leaves a trace. A command then has no output but what is wrong with the file, even
if it asks about a repository that has been loaded. The times at which the batches are written make
no difference to what a command does (`DepGraph.Cli.Invocation.run_congr_clock`).

Which repositories exist after loading follows from what one batch does: it makes the repository
exist that it names, unless it has no edges (`DepGraph.Cli.isSome_graph?_alone_ingest`).
-/

namespace DepGraph.Cli

open Locking (inTurn Task)

variable {files : Files} {path : String}

/-! ### What is in a file -/

/-- **A file holds a batch** that is accepted. -/
structure Holds (files : Files) (path : String) (batch : Batch) : Prop where
  reads : ∃ text, files.text path = .ok text ∧ Batch.codec.ofText text = .ok batch
  accepted : ∃ accepted, batch.validate = .ok accepted

/-- A file that is good. -/
def Loads (files : Files) (path : String) : Prop := ∃ batch, Holds files path batch

/-- **What is wrong with a file.** -/
inductive Spoils (files : Files) (path : String) : BatchProblem → Prop
  | unreadable {error : FileError} (hfile : files.text path = .error error) :
    Spoils files path (.unreadable error)
  | unparsable {text : String} {category : Json.Category} (hfile : files.text path = .ok text)
    (htext : Batch.codec.ofText text = .error category) : Spoils files path (.unparsable category)
  | rejected {text : String} {batch : Batch} {error : Error} (hfile : files.text path = .ok text)
    (htext : Batch.codec.ofText text = .ok batch) (hbatch : batch.validate = .error error) :
    Spoils files path (.rejected error)

theorem readBatch_of_text {text : String} (h : files.text path = .ok text) :
    readBatch files path = (Batch.codec.ofText text).mapError .unparsable := by
  rw [readBatch, h]

theorem Holds.readBatch {batch : Batch} (h : Holds files path batch) :
    readBatch files path = .ok batch := by
  obtain ⟨text, hfile, htext⟩ := h.reads
  rw [readBatch_of_text hfile, htext]
  rfl

/-- **A file that is not good is not loaded**, and it is said what is wrong with it. -/
theorem Spoils.loadBatch {problem : BatchProblem} (h : Spoils files path problem) (s : Store)
    (now : Instant) : loadBatch files s now path = .error problem := by
  rw [Cli.loadBatch]
  cases h with
  | unreadable hfile =>
    rw [Cli.readBatch, hfile]
    rfl
  | unparsable hfile htext =>
    rw [readBatch_of_text hfile, htext]
    rfl
  | rejected hfile htext hbatch =>
    rw [readBatch_of_text hfile, htext]
    change ((s.ingest now _).mapError BatchProblem.rejected >>= _) = _
    rw [Store.ingest_of_error hbatch]
    rfl

/-- Every file is good or there is something wrong with it. -/
theorem exists_spoils (h : ¬Loads files path) : ∃ problem, Spoils files path problem := by
  rcases hfile : files.text path with error | text
  · exact ⟨_, .unreadable hfile⟩
  rcases htext : Batch.codec.ofText text with category | batch
  · exact ⟨_, .unparsable hfile htext⟩
  rcases hbatch : batch.validate with error | accepted
  · exact ⟨_, .rejected hfile htext hbatch⟩
  · exact absurd ⟨batch, ⟨text, hfile, htext⟩, accepted, hbatch⟩ h

/-! ### Loading one file after another -/

variable {clock : Nat → Instant} {s : Store} {paths : List String} {batches : List Batch}

theorem map_readBatch_of_holds (h : List.Forall₂ (Holds files) paths batches) :
    paths.map (readBatch files) = batches.map .ok := by
  rw [← List.forall₂_eq_eq_eq, List.forall₂_map_left_iff, List.forall₂_map_right_iff]
  exact h.imp fun _ _ hbatch => hbatch.readBatch

theorem accepted_of_holds (h : List.Forall₂ (Holds files) paths batches) :
    ∀ batch ∈ batches, ∃ accepted, batch.validate = .ok accepted :=
  ((List.forall₂_and_left _ _).mp (h.flip.imp fun _ _ hbatch => ⟨hbatch.accepted, hbatch⟩)).1

/-- Files that are good hold batches. -/
theorem exists_holds (h : ∀ path ∈ paths, Loads files path) :
    ∃ batches, List.Forall₂ (Holds files) paths batches := by
  obtain ⟨batches, hholds, -⟩ := exists_forall₂ fun path hpath =>
    (h path hpath).imp fun _ hbatch => ⟨hbatch, hbatch.accepted⟩
  exact ⟨batches, hholds⟩

/-- **Loading stops at a file that is not good.** -/
theorem loadBatches_of_spoils (h : List.Forall₂ (Holds files) paths batches)
    {problem : BatchProblem} (hspoils : Spoils files path problem) (clock : Nat → Instant)
    (s : Store) (others : List String) :
    loadBatches files clock s (paths ++ path :: others) =
      (afterLoading clock s batches, .error (.batch path problem)) := by
  rw [loadBatches_append (map_readBatch_of_holds h) (accepted_of_holds h), loadBatches,
    hspoils.loadBatch]
  rfl

/-- **If not all files are good, then there is a first one that is not**, and loading stops there,
whatever the clock shows and whatever is in the store. -/
theorem exists_loadBatches_eq_error (h : ¬∀ path ∈ paths, Loads files path) :
    ∃ index path problem batches, FirstFailing (Loads files) paths index path ∧
      Spoils files path problem ∧ List.Forall₂ (Holds files) (paths.take index) batches ∧
      ∀ clock s, loadBatches files clock s paths =
        (afterLoading clock s batches, .error (.batch path problem)) := by
  obtain ⟨index, path, hfirst⟩ := exists_firstFailing h
  obtain ⟨problem, hspoils⟩ := exists_spoils hfirst.fails
  obtain ⟨batches, hholds⟩ := exists_holds hfirst.forall_mem_take
  refine ⟨index, path, problem, batches, hfirst, hspoils, hholds, fun clock s => ?_⟩
  rw [hfirst.eq_append]
  exact loadBatches_of_spoils hholds hspoils clock s _

/-! ### Repositories -/

/-- A batch makes the repository exist that it names, unless it has no edges. -/
theorem isSome_graph?_alone_ingest {now : Instant} {batch : Batch} {accepted : Accepted}
    (hbatch : batch.validate = .ok accepted) {repo : String} :
    (((Task.ingest batch).alone now s).1.graph? repo).isSome ↔
      (s.graph? repo).isSome ∨ (batch.repoId = repo ∧ batch.edges ≠ []) := by
  have hgraph := Operation.graph?_alone (.ingest batch) now s repo
  rw [Operation.task] at hgraph
  rw [hgraph]
  rcases hcontribution : (Operation.ingest batch).contribution? repo with _ | b
  · refine ⟨.inl, ?_⟩
    rintro (h | ⟨hrepo, hedges⟩)
    · exact h
    · rw [Operation.contribution?_eq_some_iff.mpr ⟨batch, rfl, hbatch, hrepo, hedges⟩]
        at hcontribution
      cases hcontribution
  · obtain ⟨_, heq, -, hrepo, hedges⟩ := Operation.contribution?_eq_some_iff.mp hcontribution
    obtain rfl := Operation.ingest.inj heq
    exact iff_of_true rfl (.inr ⟨hrepo, hedges⟩)

/-- **The repositories that exist after loading.** -/
theorem isSome_graph?_afterLoading
    (haccepted : ∀ batch ∈ batches, ∃ accepted, batch.validate = .ok accepted) {repo : String} :
    ((afterLoading clock s batches).graph? repo).isSome ↔
      (s.graph? repo).isSome ∨ ∃ batch ∈ batches, batch.repoId = repo ∧ batch.edges ≠ [] := by
  induction batches generalizing clock s with
  | nil => simp [afterLoading, inTurn]
  | cons batch batches ih =>
    obtain ⟨⟨accepted, hbatch⟩, haccepted⟩ := List.forall_mem_cons.mp haccepted
    rw [afterLoading_cons, ih haccepted, isSome_graph?_alone_ingest hbatch,
      List.exists_mem_cons_iff, or_assoc]

/-! ### Commands -/

/-- A command whose batch files do not all load has no output. -/
theorem Invocation.run_of_failure {i : Invocation} {path : String} {problem : BatchProblem}
    (h : ∀ s, ∃ s', loadBatches files clock s i.batches = (s', .error (.batch path problem)))
    (colours : Bool) :
    i.run files clock colours = .error (match loadConfig files i.config with
      | .error problem => .config problem
      | .ok _ => .batch path problem) := by
  rw [run]
  rcases loadConfig files i.config with configProblem | config
  · rfl
  · obtain ⟨s', hs'⟩ := h (.empty config.limits)
    dsimp only [Except.mapError, bind, Except.bind]
    rw [hs']

/-- **The clock shows in nothing that is put out.** A command does the same whatever the times are
at which the batches are written. -/
theorem Invocation.run_congr_clock (i : Invocation) (files : Files) (clock clock' : Nat → Instant)
    (colours : Bool) : i.run files clock colours = i.run files clock' colours := by
  by_cases hloads : ∀ path ∈ i.batches, Loads files path
  case pos =>
    obtain ⟨batches, hholds⟩ := exists_holds hloads
    have hread := map_readBatch_of_holds hholds
    have haccepted := accepted_of_holds hholds
    rcases hconfig : loadConfig files i.config with problem | config
    · rw [run, run, hconfig]
      rfl
    · have hasks : ∀ repo question,
          (Store.after config.limits (loading clock batches)).ask repo question =
            (Store.after config.limits (loading clock' batches)).ask repo question := by
        intro repo question
        refine Store.ask_after_congr ?_ question
        rw [contributions_loading, contributions_loading]
      rw [run_of_accepted hconfig hread haccepted, run_of_accepted hconfig hread haccepted,
        i.command.output_congr hasks]
  case neg =>
    obtain ⟨_, path, problem, batches, -, -, -, hloaded⟩ := exists_loadBatches_eq_error hloads
    rw [run_of_failure (fun s => ⟨_, hloaded clock s⟩), run_of_failure fun s => ⟨_, hloaded clock' s⟩]

/-- **Loading stops at the first file that is not good.** If all files are good, then what is in
them has been ingested, each batch at the time that the clock shows for its file, and there is a
report for each of them. Otherwise there is a first one that is not. What is in the files before it
has been ingested and nothing else, so no repository exists that did not exist before and that none
of them names. All that is said is what is wrong with the file. -/
theorem loading_stops_at_first_failure (files : Files) (clock : Nat → Instant) (s : Store)
    (paths : List String) :
    ((∀ path ∈ paths, Loads files path) → ∃ batches,
      List.Forall₂ (Holds files) paths batches ∧
      loadBatches files clock s paths = (afterLoading clock s batches,
        .ok (batches.map fun batch => (batch.repoId, .ofCount batch.edges.length)))) ∧
    ((¬∀ path ∈ paths, Loads files path) → ∃ index path problem batches,
      FirstFailing (Loads files) paths index path ∧
      Spoils files path problem ∧
      List.Forall₂ (Holds files) (paths.take index) batches ∧
      loadBatches files clock s paths =
        (afterLoading clock s batches, .error (.batch path problem)) ∧
      (∀ repo, ((afterLoading clock s batches).graph? repo).isSome ↔
        (s.graph? repo).isSome ∨ ∃ batch ∈ batches, batch.repoId = repo ∧ batch.edges ≠ []) ∧
      ∀ (i : Invocation) (colours : Bool), i.batches = paths →
        i.run files clock colours = .error (match loadConfig files i.config with
          | .error problem => .config problem
          | .ok _ => .batch path problem)) := by
  constructor
  · intro hloads
    obtain ⟨batches, hholds⟩ := exists_holds hloads
    exact ⟨batches, hholds, loadBatches_of_accepted (map_readBatch_of_holds hholds)
      (accepted_of_holds hholds) clock s⟩
  · intro hfails
    obtain ⟨index, path, problem, batches, hfirst, hspoils, hholds, hloaded⟩ :=
      exists_loadBatches_eq_error hfails
    refine ⟨index, path, problem, batches, hfirst, hspoils, hholds, hloaded clock s,
      fun repo => isSome_graph?_afterLoading (accepted_of_holds hholds), ?_⟩
    rintro i colours rfl
    exact Invocation.run_of_failure (fun s => ⟨_, hloaded clock s⟩) colours

end DepGraph.Cli
