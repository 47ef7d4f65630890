import DepGraph.Proofs.Locking.Precedence
import DepGraph.Proofs.Structural
import Mathlib.Data.Set.Card

/-!
# Abandoning work leaves no trace

A task that waits for a lock may be abandoned at any moment. As long as nobody takes a lock to
write without having anything to write, this is safe: whatever exists has edges, and every
repository is there because of a batch that was completed
(`DepGraph.Locking.abandonment_leaves_no_trace`). The reason is that an ingest never makes a
repository exist without writing to it in the same breath. Where there is no repository it does
not wait at all, and what it waits for has been there before it.

The store of such a record is the store after a *history* in the sense of
`DepGraph.Store.after`: the operations that were completed, in the order of their completion
(`DepGraph.Locking.Record.Serial.store_eq_after`). Holds to read are not among them, since they
change nothing.

When a task is abandoned, others that waited behind it may be served. None of these writes
anything (`DepGraph.Locking.Machine.Settled.store_drop`): what waits in a settled machine waits
for a repository on which a lock is held, and there nobody is let in to write.
-/

namespace DepGraph

namespace Store

/-- **No repository is empty**, after whatever history. -/
theorem edges_ne_nil_of_graph?_after {limits : QueryLimits} {repo : String}
    {history : List (Instant × Operation)} {g : RepoGraph}
    (h : (after limits history).graph? repo = some g) : g.edges ≠ [] := by
  have hexists : ((after limits history).graph? repo).isSome := by
    rw [h]
    rfl
  obtain ⟨a, b, hreports⟩ := exists_reports ((isSome_graph?_after limits repo history).mp hexists)
  obtain ⟨e, he, -⟩ := (dependsOn_after_iff limits).mpr hreports
  rw [h] at he
  exact List.ne_nil_of_mem he

end Store

namespace Locking

variable {ι : Type}

/-! ### Histories of tasks -/

/-- The operation that a task is; a hold is none. -/
def Task.operation? : Task → Option Operation
  | ingest batch => some (.ingest batch)
  | ask repo question => some (.ask repo question)
  | count => some .count
  | hold _ _ => none

/-- The operations among tasks, each with its time. -/
def operationsAmong (tasks : List (Instant × Task)) : List (Instant × Operation) :=
  tasks.filterMap fun e => e.2.operation?.map fun op => (e.1, op)

theorem operationsAmong_concat (tasks : List (Instant × Task)) (now : Instant) (task : Task) :
    operationsAmong (tasks ++ [(now, task)]) =
      operationsAmong tasks ++ (task.operation?.map fun op => (now, op)).toList := by
  rw [operationsAmong, operationsAmong, List.filterMap_append]
  rcases h : task.operation? with _ | op <;> simp [h]

/-- **Tasks done in turn are a history**, unless one of them is a hold to write, which makes its
repository exist. -/
theorem fst_inTurn_eq_after (limits : QueryLimits) {tasks : List (Instant × Task)}
    (h : ∀ e ∈ tasks, ∀ repo, e.2 ≠ .hold repo .exclusive) :
    (inTurn (.empty limits) tasks).1 = Store.after limits (operationsAmong tasks) := by
  induction tasks using List.reverseRecOn with
  | nil => rfl
  | append_singleton tasks e ih =>
    obtain ⟨now, task⟩ := e
    obtain ⟨htasks, htask⟩ := List.forall_mem_append.mp h
    have htask := List.forall_mem_singleton.mp htask
    rw [inTurn_concat, operationsAmong_concat, ih htasks]
    cases task with
    | ingest batch => exact (Store.after_concat limits _ now (.ingest batch)).symm
    | ask repo question => exact (Store.after_concat limits _ now (.ask repo question)).symm
    | count => exact (Store.after_concat limits _ now .count).symm
    | hold repo mode =>
      cases mode with
      | shared => rw [Task.operation?, Option.map_none, Option.toList_none, List.append_nil]; rfl
      | exclusive => exact absurd rfl (htask repo)

/-- **A completed task wrote to a repository** if it ingested an accepted batch that names the
repository and has edges. -/
def Completion.WroteTo (c : Completion ι) (repo : String) : Prop :=
  ∃ batch b, c.task = .ingest batch ∧ batch.validate = .ok b ∧ batch.repoId = repo ∧
    batch.edges ≠ []

/-- What the completed tasks wrote is what the history of their operations contributes. -/
theorem exists_wroteTo_iff {done : List (Completion ι)} {repo : String} :
    (∃ c ∈ done, c.WroteTo repo) ↔
      contributions repo (operationsAmong (done.map (·.entry))) ≠ [] := by
  constructor
  · rintro ⟨c, hc, batch, b, htask, hvalid, hrepo, hedges⟩
    have hmem : (c.time, .ingest batch) ∈ operationsAmong (done.map (·.entry)) := by
      refine List.mem_filterMap.mpr ⟨c.entry, List.mem_map_of_mem hc, ?_⟩
      rw [Completion.entry, htask]
      rfl
    exact List.ne_nil_of_mem (mem_contributions_iff.mpr ⟨c.time, batch, hmem, hvalid, hrepo, hedges⟩)
  · intro hne
    obtain ⟨b, hb⟩ := List.exists_mem_of_ne_nil _ hne
    obtain ⟨now, batch, hmem, hvalid, hrepo, hedges⟩ := mem_contributions_iff.mp hb
    obtain ⟨e, he, hop⟩ := List.mem_filterMap.mp hmem
    obtain ⟨c, hc, rfl⟩ := List.mem_map.mp he
    refine ⟨c, hc, batch, b, ?_, hvalid, hrepo, hedges⟩
    cases htask : c.task with
    | ingest given =>
      rw [Completion.entry, htask] at hop
      obtain ⟨-, rfl⟩ : c.time = now ∧ given = batch := by simpa [Task.operation?] using hop
      rfl
    | ask _ _ | count | hold _ _ =>
      rw [Completion.entry, htask] at hop
      simp [Task.operation?] at hop

/-! ### Records without holds to write -/

/-- **Nobody takes a lock to write just to hold it.** -/
def WithoutWriteHolds (started : List (ι × Task)) : Prop :=
  ∀ x ∈ started, ∀ repo, x.2 ≠ .hold repo .exclusive

namespace Record

variable {limits : QueryLimits} {r : Record ι}

/-- **The store is the one after the history of completed operations.** -/
theorem Serial.store_eq_after (h : r.Serial limits) (hwithout : WithoutWriteHolds r.started) :
    r.machine.store = Store.after limits (operationsAmong (r.completed.map (·.entry))) := by
  have htasks : ∀ e ∈ r.completed.map (·.entry), ∀ repo, e.2 ≠ .hold repo .exclusive := by
    intro e he
    obtain ⟨c, hc, rfl⟩ := List.mem_map.mp he
    exact hwithout c.origin (h.mem_started hc)
  rw [← fst_inTurn_eq_after limits htasks, h.outcome]

/-- **A repository exists exactly if some completed task wrote to it.** -/
theorem Serial.isSome_graph?_iff (h : r.Serial limits) (hwithout : WithoutWriteHolds r.started)
    {repo : String} :
    (r.machine.store.graph? repo).isSome ↔ ∃ c ∈ r.completed, c.WroteTo repo := by
  rw [h.store_eq_after hwithout, Store.isSome_graph?_after, exists_wroteTo_iff]

/-- **An ingest does not wait for a repository that does not exist.** -/
theorem happen_ingest_of_absent [DecidableEq ι] {batch : Batch}
    (habsent : r.machine.store.graph? batch.repoId = none) (now : Instant) (id : ι) :
    let (s, result) := (Task.ingest batch).alone now r.machine.store
    r.happen now (.step (.start id (.ingest batch))) =
      { r with
        machine := { r.machine with store := s }
        started := r.started ++ [(id, .ingest batch)]
        completed := r.completed ++ [⟨id, .ingest batch, now, result⟩] } := by
  dsimp only
  rw [happen]
  rcases r.machine.arrive_cases now id (.ingest batch) with harrive | ⟨repo, htask, -⟩ |
    ⟨repo, work, ⟨hdraws, hexists⟩, -⟩
  · dsimp only
    rw [harrive]
  · cases htask
  · obtain ⟨rfl⟩ : batch.repoId = repo := by
      cases hdraws with
      | ingest hb _ => exact (Batch.validate_eq_ok hb).1.symm
    dsimp only at hexists
    rw [habsent] at hexists
    cases hexists

end Record

/-! ### Dropping what waits -/

namespace Machine

variable {m : Machine ι}

/-- Serving a ticket that is not for writing leaves the store alone. -/
theorem store_serve {t : Ticket ι} (h : ∀ batch, t.work ≠ .write batch) (now : Instant) :
    (m.serve now t).1.store = m.store := by
  rw [serve]
  rcases hwork : t.work with batch | question | mode
  · exact absurd hwork (h batch)
  · rfl
  · rfl

/-- **Nobody writes to a repository while a lock is held on it**: passing along a line of
tickets for such repositories leaves the store alone. -/
theorem store_pass (now : Instant) {line : List (Ticket ι)}
    (h : ∀ t ∈ line, ∃ hold ∈ m.holds, hold.repo = t.repo) :
    (m.pass now line).1.store = m.store := by
  induction line generalizing m with
  | nil => rfl
  | cons t line ih =>
    obtain ⟨⟨hold, hmem, hrepo⟩, hline⟩ := List.forall_mem_cons.mp h
    rw [pass]
    by_cases hblocks : m.blocks t
    · rw [if_pos hblocks]
      exact ih hline
    · rw [if_neg hblocks]
      have hserve : (m.serve now t).1.store = m.store := by
        refine store_serve (fun batch hwork => hblocks ?_) now
        rw [blocks_iff]
        refine Or.inl ⟨hold, hmem, Hold.blocks_iff.mpr ⟨hrepo, ?_⟩⟩
        rw [hwork]
        exact Mode.excludes_exclusive _
      refine (ih fun t' ht' => ?_).trans hserve
      obtain ⟨hold', hmem', hrepo'⟩ := hline t' ht'
      exact ⟨hold', m.mem_holds_serve hmem' now t, hrepo'⟩

/-- What waits in a settled machine waits for a repository on which a lock is held. -/
theorem Settled.exists_hold_repo (h : m.Settled) {t : Ticket ι} (ht : t ∈ m.pending) :
    ∃ hold ∈ m.holds, hold.repo = t.repo := by
  by_contra hfree
  push Not at hfree
  exact h.repo_ne hfree t ht rfl

/-- **Dropping tasks that wait writes nothing**, although others may be served then. -/
theorem Settled.store_drop [DecidableEq ι] (h : m.Settled) {id : ι}
    (hholds : ∀ hold ∈ m.holds, hold.id ≠ id) (now : Instant) :
    (m.step now (.drop id)).1.store = m.store := by
  have hkept : (m.forget id).holds = m.holds :=
    List.filter_eq_self.mpr fun hold hmem => decide_eq_true (hholds hold hmem)
  refine store_pass now fun t ht => ?_
  dsimp only
  rw [hkept]
  exact h.exists_hold_repo (List.mem_of_mem_filter ht)

end Machine

/-- **Abandoning work leaves no trace, and no repository is ever empty.** Let tasks be started,
polled, released and abandoned in whatever way, but nobody take a lock to write just to hold it.
Then at every moment

* every repository has edges;
* an ingest into a repository that does not exist is completed as soon as it is started, as if
  nobody else were there, and does not join the line;
* there are as many repositories as completed tasks have written to;
* dropping a task changes no repository; and if everything has been served that could be, and it
  is not a lock that is let go of, then no repository is changed either by serving what can be
  served afterwards. -/
theorem abandonment_leaves_no_trace [DecidableEq ι] (limits : QueryLimits)
    (events : List (Instant × Event ι))
    (hwithout : WithoutWriteHolds (startsAmong (stepsAmong events))) :
    let r := Record.ofEvents limits events
    (∀ repo g, r.machine.store.graph? repo = some g → g.edges ≠ []) ∧
    (∀ now id batch, r.machine.store.graph? batch.repoId = none →
      let r' := r.happen now (.step (.start id (.ingest batch)))
      let (s, result) := (Task.ingest batch).alone now r.machine.store
      r'.completed = r.completed ++ [⟨id, .ingest batch, now, result⟩] ∧
        r'.machine = { r.machine with store := s }) ∧
    r.machine.store.repositoryCount = {repo | ∃ c ∈ r.completed, c.WroteTo repo}.ncard ∧
    ∀ now id,
      (r.happen now (.step (.drop id))).machine.store = r.machine.store ∧
      (r.machine.Settled → (∀ hold ∈ r.machine.holds, hold.id ≠ id) →
        (r.step now (.drop id)).machine.store = r.machine.store) := by
  intro r
  have hserial : r.Serial limits := Record.serial_ofEvents limits events
  have hstarted : WithoutWriteHolds r.started := by
    have heq : r.started = startsAmong (stepsAmong events) := Record.started_after _ events
    rw [heq]
    exact hwithout
  refine ⟨fun repo g hg => ?_, fun now id batch habsent => ?_, ?_, fun now id => ⟨rfl, ?_⟩⟩
  · rw [hserial.store_eq_after hstarted] at hg
    exact Store.edges_ne_nil_of_graph?_after hg
  · have hhappen := Record.happen_ingest_of_absent habsent now id
    dsimp only at hhappen ⊢
    rw [hhappen]
    exact ⟨rfl, rfl⟩
  · rw [Store.repositoryCount_eq_ncard]
    exact congrArg Set.ncard (Set.ext fun repo => hserial.isSome_graph?_iff hstarted)
  · intro hsettled hholds
    rw [(Record.step_eq now (.drop id) r).1]
    exact hsettled.store_drop hholds now

/-- An ingest that waits behind a reader is dropped. -/
theorem abandonment_leaves_no_trace_of_waiting :
    let batch : Batch := ⟨"demo", "run", [⟨some "a", some "b", some "import", none⟩]⟩
    let now : Instant := ⟨0, 0⟩
    let events : List (Instant × Event Nat) :=
      [(now, .step (.start 0 (.ingest batch))), (now, .step (.start 1 (.hold "demo" .shared))),
        (now, .poll 0), (now, .step (.start 2 (.ingest batch)))]
    let r := Record.ofEvents {} events
    WithoutWriteHolds (startsAmong (stepsAmong events)) ∧
      r.machine.pending.map (·.id) = [2] ∧ r.machine.Settled ∧
      (∀ hold ∈ r.machine.holds, hold.id ≠ 2) ∧
      (r.step now (.drop 2)).machine.store = r.machine.store := by
  intro batch now events r
  obtain ⟨b, hvalid⟩ : ∃ b, batch.validate = .ok b := by
    dsimp only [batch]
    exact ⟨_, rfl⟩
  have hrepo : b.repoId = "demo" := (Batch.validate_eq_ok hvalid).1
  have hedges : b.edges ≠ [] := by
    rw [ne_eq, Batch.edges_eq_nil_iff hvalid]
    exact List.cons_ne_nil _ _
  have hempty : (Store.empty {}).graph? "demo" = none := by simp [Store.empty, Store.graph?]
  have hmachine : r.machine.holds = [⟨1, "demo", .shared⟩] ∧
      r.machine.pending = [⟨2, .ingest batch, "demo", .write b⟩] := by
    simp [r, events, Record.ofEvents, Record.after, Record.happen, Machine.arrive, hvalid,
      Machine.initial, hempty, hrepo, hedges, Store.graph?_setGraph, Machine.enqueue, Machine.poll,
      Machine.grants, Machine.serve]
  obtain ⟨hholds, hpending⟩ := hmachine
  have hwithout : WithoutWriteHolds (startsAmong (stepsAmong events)) := by
    simp [WithoutWriteHolds, events, stepsAmong, startsAmong]
  have hsettled : r.machine.Settled := by
    intro older t younger hline
    obtain ⟨rfl, rfl, rfl⟩ : older = [] ∧ t = ⟨2, .ingest batch, "demo", .write b⟩ ∧
        younger = [] := by simpa [hpending, List.cons_eq_append_iff] using hline
    simp [Machine.blocks, hholds, Hold.blocks, Work.mode, Mode.excludes]
  have hkept : ∀ hold ∈ r.machine.holds, hold.id ≠ 2 := by simp [hholds]
  obtain ⟨-, -, -, hdrop⟩ := abandonment_leaves_no_trace {} events hwithout
  have hr : Record.ofEvents {} events = r := rfl
  rw [hr] at hdrop
  exact ⟨hwithout, by rw [hpending]; rfl, hsettled, hkept, (hdrop now 2).2 hsettled hkept⟩

end Locking

end DepGraph
