import DepGraph.Cli.Run
import DepGraph.Proofs.Config.Limits
import DepGraph.Proofs.Isolation

/-!
# What a command works on

Before a command gets to say anything its configuration has been checked and its batch files
have been loaded. A configuration that loads is a sensible one, whether it was read or is the
default (`DepGraph.Cli.loadConfig_eq_ok`). Loading batch files that hold accepted batches is
ingesting these batches one after the other, each at its own time, whatever other files come after
them (`DepGraph.Cli.loadBatches_append`), and the reports say how many descriptors each of them has
(`DepGraph.Cli.loadBatches_of_accepted`). The command then works on the store after
this history (`DepGraph.Cli.Invocation.run_of_accepted`).
-/

namespace DepGraph

open Locking (inTurn Task)

namespace Cli

variable {files : Files}

/-- **A configuration that loads has been checked**, and so has the default one. -/
theorem loadConfig_eq_ok {path : Option String} {config : Config}
    (h : loadConfig files path = .ok config) : config.limits.validate = .ok () := by
  cases path with
  | none =>
    obtain rfl := Except.ok.inj h
    rfl
  | some path =>
    rw [loadConfig] at h
    split at h
    · cases h
    · next text _ =>
      rcases hread : Config.ofText text with e | read
      · rw [hread] at h
        cases h
      · rw [hread] at h
        obtain rfl := Except.ok.inj h
        exact Config.ofText_eq_ok hread

/-! ### Batch files -/

theorem loadBatch_of_accepted {path : String} {batch : Batch} {accepted : Accepted}
    (hread : readBatch files path = .ok batch) (hvalid : batch.validate = .ok accepted) (s : Store)
    (now : Instant) :
    loadBatch files s now path =
      .ok (s.applyBatch now accepted, batch.repoId, .ofCount batch.edges.length) := by
  rw [loadBatch, hread, ← (Batch.validate_eq_ok hvalid).2.2]
  change ((s.ingest now batch).mapError BatchProblem.rejected >>= _) = _
  rw [Store.ingest_of_ok hvalid]
  rfl

/-- **The store after batches have been ingested** one after the other, each at its own time. -/
def afterLoading (clock : Nat → Instant) (s : Store) (batches : List Batch) : Store :=
  (inTurn s (batches.mapIdx fun n batch => (clock n, .ingest batch))).1

theorem afterLoading_cons (clock : Nat → Instant) (s : Store) (batch : Batch)
    (batches : List Batch) :
    afterLoading clock s (batch :: batches) =
      afterLoading (fun n => clock (n + 1)) ((Task.ingest batch).alone (clock 0) s).1 batches := by
  rw [afterLoading, List.mapIdx_cons]
  rfl

/-- **Batch files that hold accepted batches are ingested** one after the other, before loading goes
on with the others. -/
theorem loadBatches_append {paths : List String} {batches : List Batch}
    (hread : paths.map (readBatch files) = batches.map .ok)
    (haccepted : ∀ batch ∈ batches, ∃ accepted, batch.validate = .ok accepted)
    (clock : Nat → Instant) (s : Store) (others : List String) :
    loadBatches files clock s (paths ++ others) =
      let loaded := loadBatches files (fun n => clock (n + batches.length))
        (afterLoading clock s batches) others
      (loaded.1, loaded.2.map
        ((batches.map fun batch => (batch.repoId, .ofCount batch.edges.length)) ++ ·)) := by
  induction batches generalizing paths clock s with
  | nil =>
    obtain rfl : paths = [] := List.map_eq_nil_iff.mp hread
    change loadBatches files clock s others = ((loadBatches files clock s others).1,
      (loadBatches files clock s others).2.map id)
    rw [Except.map_id]
    rfl
  | cons batch batches ih =>
    obtain ⟨path, paths, rfl, hpath, hpaths⟩ := List.map_eq_cons_iff.mp hread
    obtain ⟨⟨accepted, hvalid⟩, haccepted⟩ := List.forall_mem_cons.mp haccepted
    rw [List.cons_append, loadBatches, loadBatch_of_accepted hpath hvalid]
    dsimp only
    rw [ih hpaths haccepted, afterLoading_cons, Task.alone, Store.ingest_of_ok hvalid]
    dsimp only
    -- the clock has been read for the first batch, and then once for each of the others
    change _ = ((loadBatches files (fun n => clock (n + batches.length + 1)) _ others).1, _)
    generalize loadBatches files _ _ others = loaded
    rcases loaded with ⟨s', _ | reports⟩ <;> rfl

/-- **Loading batch files is ingesting what is in them**, one after the other. -/
theorem loadBatches_of_accepted {paths : List String} {batches : List Batch}
    (hread : paths.map (readBatch files) = batches.map .ok)
    (haccepted : ∀ batch ∈ batches, ∃ accepted, batch.validate = .ok accepted)
    (clock : Nat → Instant) (s : Store) :
    loadBatches files clock s paths =
      (afterLoading clock s batches,
        .ok (batches.map fun batch => (batch.repoId, .ofCount batch.edges.length))) := by
  have hloaded := loadBatches_append hread haccepted clock s []
  rw [List.append_nil] at hloaded
  rw [hloaded, loadBatches]
  dsimp only [Except.map]
  rw [List.append_nil]

/-! ### Loading as a history -/

/-- The history of a store into which batches have been loaded. -/
def loading (clock : Nat → Instant) (batches : List Batch) : List (Instant × Operation) :=
  batches.mapIdx fun n batch => (clock n, .ingest batch)

theorem after_loading (limits : QueryLimits) (clock : Nat → Instant) (batches : List Batch) :
    Store.after limits (loading clock batches) = afterLoading clock (.empty limits) batches := by
  rw [Store.after, loading, afterLoading, List.mapIdx_eq_zipIdx_map, List.mapIdx_eq_zipIdx_map,
    List.map_map]
  rfl

/-- **Loaded batches contribute what is in them**, whatever the clock shows. -/
theorem contributions_loading (repo : String) (clock : Nat → Instant) (batches : List Batch) :
    contributions repo (loading clock batches) =
      batches.filterMap fun batch => (Operation.ingest batch).contribution? repo := by
  conv_rhs => rw [← List.zipIdx_map_fst 0 batches, List.filterMap_map]
  rw [contributions, loading, List.mapIdx_eq_zipIdx_map, List.filterMap_map]
  rfl

/-! ### Commands -/

/-- All that a command says about a store is what the store answers. -/
theorem Command.output_congr {s s' : Store}
    (h : ∀ repo question, s.ask repo question = s'.ask repo question) (c : Command)
    (loaded : List (String × IngestReport)) : c.output s loaded = c.output s' loaded := by
  cases c with
  | ingest => rfl
  | edges _ | impact _ _ _ | cycles _ _ | hotspots _ => rw [output, output, h]

/-- **A command whose configuration and batch files load** is carried out on the store after the
batches have been ingested. -/
theorem Invocation.run_of_accepted {i : Invocation} {config : Config} {batches : List Batch}
    (hconfig : loadConfig files i.config = .ok config)
    (hread : i.batches.map (readBatch files) = batches.map .ok)
    (haccepted : ∀ batch ∈ batches, ∃ accepted, batch.validate = .ok accepted)
    (clock : Nat → Instant) (colours : Bool) :
    let output := i.command.output (.after config.limits (loading clock batches))
      (batches.map fun batch => (batch.repoId, .ofCount batch.edges.length))
    i.run files clock colours = .ok ⟨i.command.fails output, output.text i.json colours⟩ := by
  intro output
  rw [run, hconfig]
  dsimp only [Except.mapError, bind, Except.bind]
  rw [loadBatches_of_accepted hread haccepted, ← after_loading]
  rfl

/-! ### Reported dependences -/

/-- **What batches report about a repository**: the dependences in those of them that name it. -/
def Reported (batches : List Batch) (repo a b : String) : Prop :=
  ∃ batch ∈ batches, batch.repoId = repo ∧ batch.Reports a b

/-- What loaded batches report is what is contributed to the repositories. -/
theorem exists_reports_loading_iff {batches : List Batch}
    (haccepted : ∀ batch ∈ batches, ∃ accepted, batch.validate = .ok accepted)
    (clock : Nat → Instant) {repo a b : String} :
    (∃ accepted ∈ contributions repo (loading clock batches), accepted.Reports a b) ↔
      Reported batches repo a b := by
  rw [contributions_loading]
  constructor
  · rintro ⟨accepted, hmem, hreports⟩
    obtain ⟨batch, hbatch, hcontribution⟩ := List.mem_filterMap.mp hmem
    obtain ⟨_, heq, hvalid, hrepo, -⟩ := Operation.contribution?_eq_some_iff.mp hcontribution
    obtain rfl := Operation.ingest.inj heq
    exact ⟨batch, hbatch, hrepo, (Batch.reports_iff hvalid).mp hreports⟩
  · rintro ⟨batch, hbatch, hrepo, hreports⟩
    obtain ⟨accepted, hvalid⟩ := haccepted batch hbatch
    have hedges : batch.edges ≠ [] := by
      obtain ⟨d, hd, -⟩ := hreports
      exact List.ne_nil_of_mem hd
    have hcontribution : (Operation.ingest batch).contribution? repo = some accepted :=
      Operation.contribution?_eq_some_iff.mpr ⟨batch, rfl, hvalid, hrepo, hedges⟩
    exact ⟨accepted, List.mem_filterMap.mpr ⟨batch, hbatch, hcontribution⟩,
      (Batch.reports_iff hvalid).mpr hreports⟩

end Cli

end DepGraph
