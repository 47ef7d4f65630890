import DepGraph.Proofs.Locking.Alone
import Mathlib.Data.List.Perm.Basic

/-!
# Interleavings are serializable

A step of a machine ends with serving everything that can be served. Here the machine is
looked at more closely: tasks are polled one at a time, in any order and as often as one
likes, and between two polls anything else may happen
(`DepGraph.Locking.Event`). A single poll is not interrupted: a task that has been given its
lock does its work and lets go before anyone else has a turn. A *record* is a machine with
its past, that is, with the tasks that were started on it, completed and abandoned
(`DepGraph.Locking.Record`).

What the records have in common is `DepGraph.Locking.Record.Serial`: the store and all
results are those of the completed tasks done in turn, the tickets are due, and every task
that was started is accounted for exactly once. It is preserved by whatever happens
(`DepGraph.Locking.Record.Serial.happen`).
-/

namespace DepGraph

namespace Locking

variable {ι : Type}

/-! ### One thing at a time -/

/-- What can happen to a machine, one thing at a time. -/
inductive Event (ι : Type)
  /-- A task is started or dropped. -/
  | step (step : Step ι)
  /-- The task in some place of the line is polled. -/
  | poll (place : Nat)

/-- The steps that are taken, without the polls. -/
def stepsAmong (events : List (Instant × Event ι)) : List (Instant × Step ι) :=
  events.filterMap fun
    | (now, .step s) => some (now, s)
    | (_, .poll _) => none

/-- The tasks that are started. -/
def startsAmong (steps : List (Instant × Step ι)) : List (ι × Task) :=
  steps.filterMap fun
    | (_, .start id task) => some (id, task)
    | (_, .drop _) => none

theorem stepsAmong_append (events more : List (Instant × Event ι)) :
    stepsAmong (events ++ more) = stepsAmong events ++ stepsAmong more :=
  List.filterMap_append

theorem startsAmong_append (steps more : List (Instant × Step ι)) :
    startsAmong (steps ++ more) = startsAmong steps ++ startsAmong more :=
  List.filterMap_append

/-- Whether a ticket keeps a younger one from being served. -/
def Ticket.precludes (older t : Ticket ι) : Bool :=
  older.repo = t.repo && older.work.mode.excludes t.work.mode

theorem Ticket.precludes_iff {older t : Ticket ι} :
    older.precludes t ↔ older.repo = t.repo ∧ older.work.mode.excludes t.work.mode := by
  rw [precludes, Bool.and_eq_true, decide_eq_true_eq]

theorem Hold.blocks_iff {hold : Hold ι} {t : Ticket ι} :
    hold.blocks t ↔ hold.repo = t.repo ∧ hold.mode.excludes t.work.mode := by
  rw [blocks, Bool.and_eq_true, decide_eq_true_eq]

namespace Machine

theorem blocks_iff {m : Machine ι} {t : Ticket ι} :
    m.blocks t ↔ (∃ hold ∈ m.holds, hold.blocks t) ∨ ∃ older ∈ m.pending, older.repo = t.repo := by
  rw [blocks, Bool.or_eq_true, List.any_eq_true, List.any_eq_true]
  simp only [decide_eq_true_eq]

/-- Whether a ticket is given its lock, first come first served: nobody holds a lock that
excludes it, and none of the older tickets needs one that does. -/
def grants (m : Machine ι) (older : List (Ticket ι)) (t : Ticket ι) : Bool :=
  !(m.holds.any (·.blocks t) || older.any (·.precludes t))

theorem grants_iff {m : Machine ι} {older : List (Ticket ι)} {t : Ticket ι} :
    m.grants older t ↔ (∀ hold ∈ m.holds, ¬hold.blocks t) ∧ ∀ o ∈ older, ¬o.precludes t := by
  rw [grants, Bool.not_eq_true', Bool.or_eq_false_iff, List.any_eq_false, List.any_eq_false]

/-- Poll the task in some place of the line. If it is given its lock it does its work. -/
def poll (m : Machine ι) (now : Instant) (place : Nat) : Machine ι × Option (Completion ι) :=
  match m.pending[place]? with
  | none => (m, none)
  | some t =>
    if m.grants (m.pending.take place) t then
      let (m, result) := { m with pending := m.pending.eraseIdx place }.serve now t
      (m, some ⟨t.id, t.task, now, result⟩)
    else (m, none)

end Machine

/-- **A machine with its past.** -/
structure Record (ι : Type) where
  machine : Machine ι
  started : List (ι × Task) := []
  /-- The tasks that were completed, in the order of their completion. -/
  completed : List (Completion ι) := []
  /-- The tickets that were dropped before they were served. -/
  abandoned : List (Ticket ι) := []

/-- What was done, and when. -/
def Completion.entry (c : Completion ι) : Instant × Task := (c.time, c.task)

/-- What was started. -/
def Completion.origin (c : Completion ι) : ι × Task := (c.id, c.task)

/-- What was started. -/
def Ticket.origin (t : Ticket ι) : ι × Task := (t.id, t.task)

namespace Record

section Happen

variable [DecidableEq ι]

/-- **Something happens.** -/
def happen (r : Record ι) (now : Instant) : Event ι → Record ι
  | .step (.start id task) =>
    let r := { r with started := r.started ++ [(id, task)] }
    match r.machine.arrive now id task with
    | (m, some result) =>
      { r with machine := m, completed := r.completed ++ [⟨id, task, now, result⟩] }
    | (m, none) => { r with machine := m }
  | .step (.drop id) =>
    { r with
      machine := r.machine.forget id
      abandoned := r.abandoned ++ r.machine.pending.filter fun t => t.id = id }
  | .poll place =>
    match r.machine.poll now place with
    | (m, some c) => { r with machine := m, completed := r.completed ++ [c] }
    | (m, none) => { r with machine := m }

/-- What a record becomes when one thing happens after the other. -/
def after (r : Record ι) (events : List (Instant × Event ι)) : Record ι :=
  events.foldl (fun r e => r.happen e.1 e.2) r

/-- **The record of all that happened** to a machine that was new. -/
def ofEvents (limits : QueryLimits) (events : List (Instant × Event ι)) : Record ι :=
  after { machine := .initial limits } events

theorem after_append (r : Record ι) (events more : List (Instant × Event ι)) :
    r.after (events ++ more) = (r.after events).after more :=
  List.foldl_append

theorem started_happen (r : Record ι) (now : Instant) (e : Event ι) :
    (r.happen now e).started = r.started ++ startsAmong (stepsAmong [(now, e)]) := by
  cases e with
  | step s =>
    cases s with
    | start id task =>
      rw [happen]
      dsimp only
      rcases r.machine.arrive now id task with ⟨m, _ | result⟩ <;> rfl
    | drop id => exact (List.append_nil _).symm
  | poll place =>
    rw [happen]
    rcases r.machine.poll now place with ⟨m, _ | c⟩ <;> exact (List.append_nil _).symm

/-- The tasks that were started are those that the steps start. -/
theorem started_after (r : Record ι) (events : List (Instant × Event ι)) :
    (r.after events).started = r.started ++ startsAmong (stepsAmong events) := by
  induction events generalizing r with
  | nil => exact (List.append_nil _).symm
  | cons first events ih =>
    change ((r.happen first.1 first.2).after events).started = _
    rw [ih, started_happen, List.append_assoc, ← startsAmong_append, ← stepsAmong_append]
    rfl

/-- Whatever is abandoned is dropped while it waits. -/
theorem mem_abandoned_happen {r : Record ι} {now : Instant} {e : Event ι} {t : Ticket ι}
    (h : t ∈ (r.happen now e).abandoned) :
    t ∈ r.abandoned ∨ e = .step (.drop t.id) ∧ t ∈ r.machine.pending := by
  cases e with
  | step s =>
    cases s with
    | start id task =>
      rw [happen] at h
      dsimp only at h
      rcases harrive : r.machine.arrive now id task with ⟨m, _ | result⟩ <;>
        rw [harrive] at h <;> exact Or.inl h
    | drop id =>
      rcases List.mem_append.mp h with hmem | hmem
      · exact Or.inl hmem
      · obtain ⟨hwaits, hid⟩ := List.mem_filter.mp hmem
        obtain rfl : t.id = id := by simpa using hid
        exact Or.inr ⟨rfl, hwaits⟩
  | poll place =>
    rw [happen] at h
    rcases hpoll : r.machine.poll now place with ⟨m, _ | c⟩ <;>
      rw [hpoll] at h <;> exact Or.inl h

/-- Nothing is abandoned unless it is dropped. -/
theorem mem_abandoned_after {r : Record ι} {events : List (Instant × Event ι)} {t : Ticket ι}
    (h : t ∈ (r.after events).abandoned) :
    t ∈ r.abandoned ∨ ∃ now, (now, .drop t.id) ∈ stepsAmong events := by
  induction events generalizing r with
  | nil => exact Or.inl h
  | cons first events ih =>
    obtain ⟨now, e⟩ := first
    have hsplit : stepsAmong ((now, e) :: events) = stepsAmong [(now, e)] ++ stepsAmong events :=
      stepsAmong_append [(now, e)] events
    rw [hsplit]
    rcases ih (r := r.happen now e) h with hmem | ⟨time, htime⟩
    · rcases mem_abandoned_happen hmem with hmem | ⟨rfl, -⟩
      · exact Or.inl hmem
      · exact Or.inr ⟨now, List.mem_cons_self ..⟩
    · exact Or.inr ⟨time, List.mem_append_right _ htime⟩

end Happen

/-! ### What is true of every record -/

/-- Where the next of many accounts is entered makes no difference. -/
theorem perm_concat_middle {α : Type} {started done rest : List α} (x : α)
    (h : started.Perm (done ++ rest)) : (started ++ [x]).Perm (done ++ x :: rest) :=
  (List.perm_append_singleton x started).trans ((h.cons x).trans List.perm_middle.symm)

/-- **A serial record**: it could have come about by doing the completed tasks in turn, each
on its own. -/
structure Serial (limits : QueryLimits) (r : Record ι) : Prop where
  /-- The store and the results are those of the completed tasks, done in the order of their
  completion. -/
  outcome : inTurn (.empty limits) (r.completed.map (·.entry)) =
    (r.machine.store, r.completed.map (·.result))
  /-- The tickets are due. -/
  due : ∀ t ∈ r.machine.pending, t.Due r.machine.store
  /-- Every task that was started is completed, waits or is abandoned: one of these, and
  once. -/
  accounted : r.started.Perm (r.completed.map (·.origin) ++
    (r.machine.pending.map (·.origin) ++ r.abandoned.map (·.origin)))

variable {limits : QueryLimits} {r : Record ι}

theorem serial_initial (limits : QueryLimits) :
    Serial (ι := ι) limits { machine := .initial limits } :=
  ⟨rfl, fun _ ht => absurd ht List.not_mem_nil, .nil⟩

/-- Completing a task as if nobody else were there prolongs the turn. -/
theorem Serial.outcome_complete (h : r.Serial limits) (now : Instant) (id : ι) (task : Task) :
    let c : Completion ι := ⟨id, task, now, (task.alone now r.machine.store).2⟩
    inTurn (.empty limits) ((r.completed ++ [c]).map (·.entry)) =
      ((task.alone now r.machine.store).1, (r.completed ++ [c]).map (·.result)) := by
  intro c
  rw [List.map_append, List.map_append]
  change inTurn _ (_ ++ [(now, task)]) = (_, _ ++ [(task.alone now r.machine.store).2])
  rw [inTurn_concat, h.outcome]

end Record

namespace Machine

/-- A poll finds the place empty or the ticket blocked, and nothing happens; or the ticket
leaves the line and is served. -/
theorem poll_cases (m : Machine ι) (now : Instant) (place : Nat) :
    m.poll now place = (m, none) ∨
      ∃ older t younger, m.pending = older ++ t :: younger ∧ m.grants older t ∧
        m.poll now place =
          (({ m with pending := older ++ younger }.serve now t).1,
            some ⟨t.id, t.task, now, ({ m with pending := older ++ younger }.serve now t).2⟩) := by
  rw [poll]
  split
  · exact Or.inl rfl
  · next t ht =>
    obtain ⟨hplace, ht⟩ := List.getElem?_eq_some_iff.mp ht
    by_cases hgrants : m.grants (m.pending.take place) t
    · refine Or.inr ⟨m.pending.take place, t, m.pending.drop (place + 1), ?_, hgrants, ?_⟩
      · rw [← ht, ← List.drop_eq_getElem_cons hplace, List.take_append_drop]
      · rw [if_pos hgrants, List.eraseIdx_eq_take_drop_succ]
    · rw [if_neg hgrants]
      exact Or.inl rfl

/-- Polling a ticket that is given its lock serves it. -/
theorem poll_of_grants {m : Machine ι} {older younger : List (Ticket ι)} {t : Ticket ι}
    (hpending : m.pending = older ++ t :: younger) (hgrants : m.grants older t) (now : Instant) :
    m.poll now older.length =
      (({ m with pending := older ++ younger }.serve now t).1,
        some ⟨t.id, t.task, now, ({ m with pending := older ++ younger }.serve now t).2⟩) := by
  have hplace : m.pending[older.length]? = some t := by
    rw [hpending, List.getElem?_append_right (Nat.le_refl _), Nat.sub_self]
    rfl
  have htake : m.pending.take older.length = older := by
    rw [hpending, List.take_left]
  have herase : m.pending.eraseIdx older.length = older ++ younger := by
    rw [hpending, List.eraseIdx_append_of_length_le (Nat.le_refl _), Nat.sub_self]
    rfl
  rw [poll, hplace]
  dsimp only
  rw [htake, herase, if_pos hgrants]

end Machine

namespace Record

variable {limits : QueryLimits} {r : Record ι} [DecidableEq ι]

/-! ### What happens keeps a record serial -/

/-- A task arrives. -/
theorem Serial.start (h : r.Serial limits) (now : Instant) (id : ι) (task : Task) :
    (r.happen now (.step (.start id task))).Serial limits := by
  let c : Completion ι := ⟨id, task, now, (task.alone now r.machine.store).2⟩
  have hdone : (r.started ++ [(id, task)]).Perm ((r.completed ++ [c]).map (·.origin) ++
      (r.machine.pending.map (·.origin) ++ r.abandoned.map (·.origin))) := by
    rw [List.map_append, List.append_assoc]
    exact perm_concat_middle (id, task) h.accounted
  rw [happen]
  rcases r.machine.arrive_cases now id task with harrive | ⟨repo, -, -, harrive⟩ |
    ⟨repo, work, hdue, harrive⟩ <;> dsimp only <;> rw [harrive]
  · exact ⟨h.outcome_complete now id task, fun t ht => (h.due t ht).alone now task, hdone⟩
  · exact ⟨h.outcome_complete now id task, fun t ht => (h.due t ht).alone now task, hdone⟩
  · refine ⟨h.outcome, fun t ht => ?_, ?_⟩
    · rcases List.mem_append.mp ht with ht | ht
      · exact h.due t ht
      · rw [List.mem_singleton.mp ht]
        exact hdue
    · have hperm := h.accounted
      rw [← List.append_assoc] at hperm
      let t : Ticket ι := ⟨id, task, repo, work⟩
      change (r.started ++ [(id, task)]).Perm (r.completed.map (·.origin) ++
        ((r.machine.pending ++ [t]).map (·.origin) ++ r.abandoned.map (·.origin)))
      rw [List.map_append, List.append_assoc, ← List.append_assoc]
      exact perm_concat_middle (id, task) hperm

/-- A lock is let go of, or tickets are dropped. -/
theorem Serial.drop (h : r.Serial limits) (now : Instant) (id : ι) :
    (r.happen now (.step (.drop id))).Serial limits := by
  refine ⟨h.outcome, fun t ht => h.due t (List.mem_of_mem_filter ht), ?_⟩
  let kept := r.machine.pending.filter fun t => t.id ≠ id
  let dropped := r.machine.pending.filter fun t => t.id = id
  have hsplit : r.machine.pending.Perm (kept ++ dropped) := by
    have hperm := List.filter_append_perm (fun t => decide (t.id = id)) r.machine.pending
    have hkept : kept = r.machine.pending.filter fun t => !decide (t.id = id) :=
      List.filter_congr fun t _ => decide_not
    rw [← hkept] at hperm
    exact hperm.symm.trans List.perm_append_comm
  refine h.accounted.trans (List.Perm.append_left _ ?_)
  change (r.machine.pending.map (·.origin) ++ r.abandoned.map (·.origin)).Perm
    (kept.map (·.origin) ++ (r.abandoned ++ dropped).map (·.origin))
  rw [← List.map_append, ← List.map_append]
  refine List.Perm.map _ ((hsplit.append_right _).trans ?_)
  rw [List.append_assoc]
  exact List.Perm.append_left _ List.perm_append_comm

/-- A task is polled. -/
theorem Serial.poll (h : r.Serial limits) (now : Instant) (place : Nat) :
    (r.happen now (.poll place)).Serial limits := by
  rw [happen]
  rcases r.machine.poll_cases now place with hpoll | ⟨older, t, younger, hpending, -, hpoll⟩
  · rw [hpoll]
    exact h
  · rw [hpoll]
    dsimp only
    -- without its ticket the line is shorter, but the store is the same
    let m : Machine ι := { r.machine with pending := older ++ younger }
    have hdue : t.Due m.store := h.due t (by rw [hpending]; simp)
    obtain ⟨hstore, hresult⟩ := Prod.ext_iff.mp (Machine.serve_of_due hdue now)
    dsimp only at hstore hresult
    refine ⟨?_, fun t' ht' => ?_, ?_⟩
    · dsimp only
      rw [hstore, hresult]
      exact h.outcome_complete now t.id t.task
    · dsimp only at ht' ⊢
      rw [Machine.pending_serve] at ht'
      rw [hstore]
      refine Ticket.Due.alone (h.due t' ?_) now t.task
      rw [hpending]
      exact List.mem_append.mpr ((List.mem_append.mp ht').imp_right (List.mem_cons_of_mem t))
    · dsimp only
      rw [Machine.pending_serve, List.map_append]
      refine h.accounted.trans ?_
      rw [hpending]
      simp only [List.map_append, List.map_cons, List.append_assoc]
      exact List.Perm.append_left _ List.perm_middle

/-- **Whatever happens to a serial record, it stays serial.** -/
theorem Serial.happen (h : r.Serial limits) (now : Instant) (e : Event ι) :
    (r.happen now e).Serial limits := by
  cases e with
  | step s =>
    cases s with
    | start id task => exact h.start now id task
    | drop id => exact h.drop now id
  | poll place => exact h.poll now place

/-- **Every record is serial.** -/
theorem serial_ofEvents (limits : QueryLimits) (events : List (Instant × Event ι)) :
    (ofEvents limits events).Serial limits := by
  suffices ∀ r : Record ι, r.Serial limits → (r.after events).Serial limits from
    this _ (serial_initial limits)
  induction events with
  | nil => exact fun _ h => h
  | cons e events ih => exact fun r h => ih _ (h.happen e.1 e.2)

end Record

end Locking

end DepGraph
