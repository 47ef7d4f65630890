import DepGraph.Proofs.Locking.Interleaving

/-!
# Runs are serializable

A run of the machine is one of the interleavings: between its steps there are polls, each of
a ticket that is not blocked (`DepGraph.Locking.Record.exists_events_run`). All records being
serial, a run is what its completed tasks do in turn.
-/

namespace DepGraph

namespace Locking

variable {ι : Type}

namespace Machine

/-! ### Serving the line, poll by poll -/

/-- Work is done without regard to the line. -/
theorem serve_with_pending (m : Machine ι) (line : List (Ticket ι)) (now : Instant)
    (t : Ticket ι) :
    { m with pending := line }.serve now t =
      ({ (m.serve now t).1 with pending := line }, (m.serve now t).2) := by
  rw [serve, serve]
  split <;> rfl

/-- A ticket that is not blocked is given its lock. -/
theorem grants_of_not_blocks {m : Machine ι} {t : Ticket ι} (line : List (Ticket ι))
    (h : ¬m.blocks t) : { m with pending := line }.grants m.pending t := by
  rw [blocks_iff, not_or] at h
  obtain ⟨hholds, hpending⟩ := h
  refine grants_iff.mpr ⟨fun hold hmem hblocks => hholds ⟨hold, hmem, hblocks⟩, ?_⟩
  intro older hmem hprecludes
  exact hpending ⟨older, hmem, (Ticket.precludes_iff.mp hprecludes).1⟩

variable [DecidableEq ι]

/-- **Passing along a line is polling**, once for each ticket that is served. -/
theorem exists_events_pass (now : Instant) (line : List (Ticket ι)) (m : Machine ι)
    (r : Record ι) (hr : r.machine = { m with pending := m.pending ++ line }) :
    ∃ events, stepsAmong events = [] ∧
      r.after events =
        { r with
          machine := (m.pass now line).1
          completed := r.completed ++ (m.pass now line).2 } := by
  induction line generalizing m r with
  | nil =>
    refine ⟨[], rfl, ?_⟩
    rw [List.append_nil] at hr
    obtain rfl : r.machine = m := hr
    rw [pass, List.append_nil]
    rfl
  | cons t line ih =>
    rw [pass]
    by_cases h : m.blocks t
    · rw [if_pos h]
      refine ih { m with pending := m.pending ++ [t] } r ?_
      rw [hr, List.append_assoc]
      rfl
    · rw [if_neg h]
      have hgrants : r.machine.grants m.pending t := by
        rw [hr]
        exact grants_of_not_blocks _ h
      -- the poll of the ticket serves it, and leaves the line without it
      let served : Record ι :=
        { r with
          machine := { (m.serve now t).1 with pending := m.pending ++ line }
          completed := r.completed ++ [⟨t.id, t.task, now, (m.serve now t).2⟩] }
      have hpoll : r.happen now (.poll m.pending.length) = served := by
        rw [Record.happen, poll_of_grants (by rw [hr]) hgrants now, hr]
        dsimp only
        rw [serve_with_pending]
      obtain ⟨events, hsteps, hafter⟩ := ih (m.serve now t).1 served (by rw [pending_serve])
      refine ⟨(now, .poll m.pending.length) :: events, hsteps, ?_⟩
      rw [Record.after, List.foldl_cons, hpoll]
      refine hafter.trans ?_
      dsimp only
      rw [List.append_assoc]
      rfl

/-- Settling is polling. -/
theorem exists_events_settle (now : Instant) (r : Record ι) :
    ∃ events, stepsAmong events = [] ∧
      r.after events =
        { r with
          machine := (r.machine.settle now).1
          completed := r.completed ++ (r.machine.settle now).2 } :=
  exists_events_pass now r.machine.pending { r.machine with pending := [] } r rfl

/-! ### Steps and runs -/

end Machine

namespace Record

variable [DecidableEq ι]

/-- **A step of a record**: it happens, and then every ticket is served that can be. -/
def step (r : Record ι) (now : Instant) (s : Step ι) : Record ι :=
  let r := r.happen now (.step s)
  { r with
    machine := (r.machine.settle now).1
    completed := r.completed ++ (r.machine.settle now).2 }

/-- What a record becomes when the machine runs on. -/
def run (r : Record ι) (steps : List (Instant × Step ι)) : Record ι :=
  steps.foldl (fun r e => r.step e.1 e.2) r

theorem run_append (r : Record ι) (steps more : List (Instant × Step ι)) :
    r.run (steps ++ more) = (r.run steps).run more :=
  List.foldl_append

/-- A step of a record is what happens, followed by polls. -/
theorem exists_events_step (now : Instant) (s : Step ι) (r : Record ι) :
    ∃ events, stepsAmong events = [(now, s)] ∧ r.after events = r.step now s := by
  obtain ⟨events, hsteps, hafter⟩ := Machine.exists_events_settle now (r.happen now (.step s))
  refine ⟨(now, .step s) :: events, ?_, hafter⟩
  change (now, s) :: stepsAmong events = _
  rw [hsteps]

/-- **A run of a record is an interleaving** of its steps with polls. -/
theorem exists_events_run (steps : List (Instant × Step ι)) (r : Record ι) :
    ∃ events, stepsAmong events = steps ∧ r.after events = r.run steps := by
  induction steps generalizing r with
  | nil => exact ⟨[], rfl, rfl⟩
  | cons first steps ih =>
    obtain ⟨now, s⟩ := first
    obtain ⟨events, hsteps, hafter⟩ := exists_events_step now s r
    obtain ⟨more, hmore, hafter'⟩ := ih (r.step now s)
    refine ⟨events ++ more, ?_, ?_⟩
    · rw [stepsAmong_append, hsteps, hmore]
      rfl
    · rw [after_append, hafter]
      exact hafter'

/-- The step of a record is a step of its machine. -/
theorem step_eq (now : Instant) (s : Step ι) (r : Record ι) :
    (r.step now s).machine = (r.machine.step now s).1 ∧
      (r.step now s).completed = r.completed ++ (r.machine.step now s).2 := by
  cases s with
  | start id task =>
    rw [step, Machine.step, happen]
    dsimp only
    rcases r.machine.arrive now id task with ⟨m, _ | result⟩
    · exact ⟨rfl, rfl⟩
    · exact ⟨rfl, List.append_assoc _ _ _⟩
  | drop id => exact ⟨rfl, rfl⟩

/-- The run of a record is a run of its machine. -/
theorem run_eq (steps : List (Instant × Step ι)) (r : Record ι) :
    (r.run steps).machine = (r.machine.run steps).1 ∧
      (r.run steps).completed = r.completed ++ (r.machine.run steps).2 := by
  induction steps generalizing r with
  | nil => exact ⟨rfl, (List.append_nil _).symm⟩
  | cons first steps ih =>
    obtain ⟨now, s⟩ := first
    obtain ⟨hmachine, hcompleted⟩ := step_eq now s r
    obtain ⟨hmachine', hcompleted'⟩ := ih (r.step now s)
    rw [hmachine] at hmachine' hcompleted'
    refine ⟨hmachine', hcompleted'.trans ?_⟩
    rw [hcompleted, List.append_assoc]
    rfl

end Record

/-- **A run of the machine is an interleaving** of its steps with polls. -/
theorem Machine.exists_events_run [DecidableEq ι] (steps : List (Instant × Step ι))
    (r : Record ι) :
    ∃ events, stepsAmong events = steps ∧
      (r.after events).machine = (r.machine.run steps).1 ∧
      (r.after events).completed = r.completed ++ (r.machine.run steps).2 := by
  obtain ⟨events, hsteps, hafter⟩ := r.exists_events_run steps
  rw [← (r.run_eq steps).1, ← (r.run_eq steps).2, ← hafter]
  exact ⟨events, hsteps, rfl, rfl⟩

/-! ### Serializability -/

/-- **Whatever is done concurrently is serializable in the order of completion.** However
tasks are started, polled, released and abandoned, at every moment the results of the
completed tasks and the graphs of all repositories are those of doing the completed tasks in
turn, each on its own, beginning with an empty store. Every task that was started has been
completed once, or waits, or was abandoned, and those that were abandoned have been dropped.
The runs of the machine are of this kind, and so the same is true of them. -/
theorem serializable [DecidableEq ι] (limits : QueryLimits) :
    (∀ events : List (Instant × Event ι),
        let r := Record.ofEvents limits events
        r.Serial limits ∧ r.started = startsAmong (stepsAmong events) ∧
          ∀ t ∈ r.abandoned, ∃ now, (now, .drop t.id) ∈ stepsAmong events) ∧
      ∀ steps : List (Instant × Step ι),
        let (m, done) := (Machine.initial limits).run steps
        (∃ events, stepsAmong events = steps ∧
          (Record.ofEvents limits events).machine = m ∧
          (Record.ofEvents limits events).completed = done) ∧
        inTurn (.empty limits) (done.map (·.entry)) = (m.store, done.map (·.result)) := by
  refine ⟨fun events => ⟨Record.serial_ofEvents limits events, Record.started_after _ events,
    fun t ht => (Record.mem_abandoned_after ht).resolve_left List.not_mem_nil⟩,
    fun steps => ?_⟩
  obtain ⟨events, hsteps, hmachine, hcompleted⟩ :=
    Machine.exists_events_run steps { machine := .initial limits }
  refine ⟨⟨events, hsteps, hmachine, hcompleted⟩, ?_⟩
  have houtcome := (Record.serial_ofEvents limits events).outcome
  rw [Record.ofEvents, hmachine, hcompleted] at houtcome
  exact houtcome

end Locking

end DepGraph
