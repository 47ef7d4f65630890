import DepGraph.Proofs.Locking.Serializable
import Mathlib.Data.List.Pairwise

/-!
# Who holds a lock, and who waits for one

Two things are true of a machine at any moment, in whatever order tasks are polled: locks that
exclude each other are not held together, and what is locked exists
(`DepGraph.Locking.Machine.Guarded`). A new lock can only break this in two ways. If it is
given to a ticket, nobody holds a lock that blocks the ticket; if it is taken by a task that
creates its repository, nobody can hold another lock on it, because there was nothing to lock.

A machine that has served all that it can is *settled*
(`DepGraph.Locking.Machine.Settled`): whatever waits has something to wait for, a lock that is
held or an older ticket for the same repository. Along the line, from the oldest ticket of a
repository on, this comes down to a lock that is held
(`DepGraph.Locking.Machine.Settled.exists_hold`), so nothing waits for a repository on which no
lock is held, and polling a settled machine has no effect
(`DepGraph.Locking.Machine.Settled.poll_eq`). One pass along the line is enough to settle a
machine, since serving a ticket never takes a lock away and so never unblocks a ticket that
was passed.
-/

namespace DepGraph

namespace Locking

variable {ι : Type}

/-- Something in a list with an element at its end is that element or comes before it. -/
theorem eq_or_exists_of_concat_eq {α : Type} {as before after : List α} {a c : α}
    (h : as ++ [a] = before ++ c :: after) :
    as = before ∧ a = c ∨ ∃ rest, after = rest ++ [a] ∧ as = before ++ c :: rest := by
  rcases List.eq_nil_or_concat after with rfl | ⟨rest, last, rfl⟩
  · obtain ⟨has, hlast⟩ := List.append_inj' h rfl
    exact Or.inl ⟨has, List.singleton_inj.mp hlast⟩
  · rw [List.concat_eq_append] at h ⊢
    rw [← List.cons_append, ← List.append_assoc] at h
    obtain ⟨has, hlast⟩ := List.append_inj' h rfl
    exact Or.inr ⟨rest, by rw [hlast], has⟩

/-! ### Locks that are held -/

theorem Mode.excludes_exclusive (a : Mode) : a.excludes .exclusive := by cases a <;> rfl

theorem Mode.exclusive_excludes (a : Mode) : Mode.exclusive.excludes a := rfl

/-- Two locks that do not exclude each other are shared, so what excludes the one excludes the
other. -/
theorem Mode.excludes_of_excludes {a b c : Mode} (hab : a.excludes b) (hbc : b.excludes c = false) :
    a.excludes c := by
  cases a <;> cases b <;> cases c <;> simp_all [excludes]

/-- Whether two locks may be held together. -/
def Hold.Compatible (h h' : Hold ι) : Prop := h.repo = h'.repo → h.mode.excludes h'.mode = false

/-- **A machine whose locks are in order.** -/
structure Machine.Guarded (m : Machine ι) : Prop where
  /-- The locks that are held may be held together. -/
  compatible : m.holds.Pairwise Hold.Compatible
  /-- What is locked exists. -/
  exists_graph : ∀ h ∈ m.holds, (m.store.graph? h.repo).isSome

namespace Machine

variable {m : Machine ι}

theorem guarded_initial (limits : QueryLimits) : (initial limits : Machine ι).Guarded :=
  ⟨.nil, fun _ h => absurd h List.not_mem_nil⟩

/-- A ticket that is served takes the lock that it is for, or none. -/
theorem holds_serve (m : Machine ι) (now : Instant) (t : Ticket ι) :
    (m.serve now t).1.holds = m.holds ∨
      (m.serve now t).1.holds = m.holds ++ [⟨t.id, t.repo, t.work.mode⟩] := by
  rw [serve]
  rcases t.work with batch | question | mode
  · exact Or.inl rfl
  · exact Or.inl rfl
  · exact Or.inr rfl

/-- Serving a ticket takes no lock away. -/
theorem mem_holds_serve (m : Machine ι) {h : Hold ι} (hmem : h ∈ m.holds) (now : Instant)
    (t : Ticket ι) : h ∈ (m.serve now t).1.holds := by
  rcases m.holds_serve now t with heq | heq <;> rw [heq]
  · exact hmem
  · exact List.mem_append_left _ hmem

namespace Guarded

/-- Locks that are let go of leave the others in order. -/
theorem of_sublist {m' : Machine ι} (h : m.Guarded) (hholds : m'.holds.Sublist m.holds)
    (hstore : m'.store = m.store) : m'.Guarded :=
  ⟨h.compatible.sublist hholds, fun hold hmem => by
    rw [hstore]
    exact h.exists_graph hold (hholds.subset hmem)⟩

/-- Whatever a task does to the store, what is locked goes on existing. -/
theorem isSome_graph?_alone (h : m.Guarded) (now : Instant) (task : Task) {hold : Hold ι}
    (hmem : hold ∈ m.holds) : ((task.alone now m.store).1.graph? hold.repo).isSome :=
  task.isSome_graph?_alone (h.exists_graph hold hmem)

/-- **Another lock**, on a repository that exists, is in order if nobody holds one that it
excludes. -/
theorem concat (h : m.Guarded) {m' : Machine ι} {hold : Hold ι}
    (hholds : m'.holds = m.holds ++ [hold])
    (hcompatible : ∀ other ∈ m.holds, other.Compatible hold)
    (hexists : ∀ other ∈ m'.holds, (m'.store.graph? other.repo).isSome) : m'.Guarded := by
  refine ⟨?_, hexists⟩
  rw [hholds, List.pairwise_append]
  refine ⟨h.compatible, List.pairwise_singleton .., fun other hother new hnew => ?_⟩
  rw [List.mem_singleton.mp hnew]
  exact hcompatible other hother

/-- **The arrival of a task** keeps the locks in order. -/
theorem arrive (h : m.Guarded) (now : Instant) (id : ι) (task : Task) :
    (m.arrive now id task).1.Guarded := by
  rcases m.arrive_cases now id task with harrive | ⟨repo, htask, habsent, harrive⟩ |
    ⟨repo, work, -, harrive⟩ <;> rw [harrive]
  · exact ⟨h.compatible, fun hold hmem => h.isSome_graph?_alone now task hmem⟩
  · refine h.concat rfl (fun other hother hrepo => ?_) fun other hother => ?_
    -- the repository did not exist, so that nobody held a lock on it
    · have hexists := h.exists_graph other hother
      rw [hrepo, habsent] at hexists
      cases hexists
    · rcases List.mem_append.mp hother with hmem | hmem
      · exact h.isSome_graph?_alone now task hmem
      · rw [List.mem_singleton.mp hmem, htask]
        change ((m.store.create repo).graph? repo).isSome
        rw [Store.create_of_absent habsent, Store.graph?_setGraph, if_pos rfl]
        rfl
  · exact ⟨h.compatible, h.exists_graph⟩

/-- **Serving a ticket** that is due and that no lock blocks keeps the locks in order. -/
theorem serve (h : m.Guarded) {t : Ticket ι} (hdue : t.Due m.store)
    (hfree : ∀ hold ∈ m.holds, ¬hold.blocks t) (now : Instant) :
    (m.serve now t).1.Guarded := by
  have hstore : (m.serve now t).1.store = (t.task.alone now m.store).1 :=
    congrArg Prod.fst (serve_of_due hdue now)
  have hexists : ∀ hold ∈ m.holds, ((m.serve now t).1.store.graph? hold.repo).isSome := by
    intro hold hmem
    rw [hstore]
    exact h.isSome_graph?_alone now t.task hmem
  rcases m.holds_serve now t with hholds | hholds
  · refine ⟨?_, ?_⟩ <;> rw [hholds]
    · exact h.compatible
    · exact hexists
  · refine h.concat hholds (fun other hother hrepo => ?_) fun other hother => ?_
    · rw [← Bool.not_eq_true]
      exact fun hexcludes => hfree other hother (Hold.blocks_iff.mpr ⟨hrepo, hexcludes⟩)
    · rw [hholds] at hother
      rcases List.mem_append.mp hother with hmem | hmem
      · exact hexists other hmem
      · rw [List.mem_singleton.mp hmem, hstore]
        exact t.task.isSome_graph?_alone hdue.exists_graph

/-- **Whoever holds a lock to write holds it alone.** -/
theorem repo_ne (h : m.Guarded) {before after : List (Hold ι)} {hold : Hold ι}
    (hholds : m.holds = before ++ hold :: after) (hmode : hold.mode = .exclusive) :
    ∀ other ∈ before ++ after, other.repo ≠ hold.repo := by
  have hcompatible := h.compatible
  rw [hholds, List.pairwise_append, List.pairwise_cons] at hcompatible
  obtain ⟨-, ⟨hafter, -⟩, hbefore⟩ := hcompatible
  intro other hother hrepo
  rcases List.mem_append.mp hother with hmem | hmem
  · have hexcludes := hbefore other hmem hold (List.mem_cons_self ..) hrepo
    rw [hmode, Mode.excludes_exclusive] at hexcludes
    cases hexcludes
  · have hexcludes := hafter other hmem hrepo.symm
    rw [hmode, Mode.exclusive_excludes] at hexcludes
    cases hexcludes

end Guarded

end Machine

namespace Record

variable [DecidableEq ι] {limits : QueryLimits} {r : Record ι}

/-- **Whatever happens, the locks stay in order.** -/
theorem Serial.guarded_happen (hserial : r.Serial limits) (h : r.machine.Guarded)
    (now : Instant) (e : Event ι) : (r.happen now e).machine.Guarded := by
  cases e with
  | step s =>
    cases s with
    | start id task =>
      have harrive := h.arrive now id task
      rw [Record.happen]
      dsimp only
      rcases hcase : r.machine.arrive now id task with ⟨m, _ | result⟩ <;>
        rw [hcase] at harrive <;> exact harrive
    | drop id => exact h.of_sublist List.filter_sublist rfl
  | poll place =>
    rw [Record.happen]
    rcases r.machine.poll_cases now place with hpoll | ⟨older, t, younger, hpending, hgrants, hpoll⟩
    · rw [hpoll]
      exact h
    · rw [hpoll]
      let m : Machine ι := { r.machine with pending := older ++ younger }
      have hm : m.Guarded := ⟨h.compatible, h.exists_graph⟩
      refine hm.serve (hserial.due t (by rw [hpending]; simp)) (fun hold hmem => ?_) now
      exact (Machine.grants_iff.mp hgrants).1 hold hmem

theorem guarded_ofEvents (limits : QueryLimits) (events : List (Instant × Event ι)) :
    (ofEvents limits events).machine.Guarded := by
  suffices ∀ r : Record ι, r.Serial limits → r.machine.Guarded → (r.after events).machine.Guarded
    from this _ (serial_initial limits) (Machine.guarded_initial limits)
  induction events with
  | nil => exact fun _ _ h => h
  | cons e events ih =>
    intro r hserial h
    exact ih (r.happen e.1 e.2) (hserial.happen e.1 e.2) (hserial.guarded_happen h e.1 e.2)

end Record

/-! ### Tickets that wait -/

namespace Machine

variable {m : Machine ι}

/-- **A settled machine**: every ticket is blocked by a lock that is held or by an older
ticket. -/
def Settled (m : Machine ι) : Prop :=
  ∀ older t younger, m.pending = older ++ t :: younger → { m with pending := older }.blocks t

theorem settled_of_nil (h : m.pending = []) : m.Settled := by
  intro older t younger hpending
  rw [h] at hpending
  simp at hpending

/-- A ticket that is blocked when it is its turn joins those that wait. -/
theorem Settled.concat (h : m.Settled) {t : Ticket ι} (hblocks : m.blocks t) :
    { m with pending := m.pending ++ [t] }.Settled := by
  intro older t' younger hpending
  rcases eq_or_exists_of_concat_eq hpending with ⟨rfl, rfl⟩ | ⟨rest, -, hpending⟩
  · exact hblocks
  · exact h older t' rest hpending

/-- Serving a ticket leaves those that wait where they are, and blocked. -/
theorem Settled.serve (h : m.Settled) (now : Instant) (t : Ticket ι) :
    (m.serve now t).1.Settled := by
  intro older t' younger hpending
  rw [pending_serve] at hpending
  have hblocks := h older t' younger hpending
  rw [blocks_iff] at hblocks ⊢
  rcases hblocks with ⟨hold, hmem, hhold⟩ | holder
  · exact Or.inl ⟨hold, m.mem_holds_serve hmem now t, hhold⟩
  · exact Or.inr holder

theorem Settled.pass (h : m.Settled) (now : Instant) (line : List (Ticket ι)) :
    (m.pass now line).1.Settled := by
  induction line generalizing m with
  | nil => exact h
  | cons t line ih =>
    rw [Machine.pass]
    by_cases hblocks : m.blocks t
    · rw [if_pos hblocks]
      exact ih (h.concat hblocks)
    · rw [if_neg hblocks]
      exact ih (h.serve now t)

/-- **One pass along the line settles a machine.** -/
theorem settled_settle (m : Machine ι) (now : Instant) : (m.settle now).1.Settled :=
  (settled_of_nil (m := { m with pending := [] }) rfl).pass now m.pending

theorem settled_initial (limits : QueryLimits) : (initial limits : Machine ι).Settled :=
  settled_of_nil rfl

theorem settled_step [DecidableEq ι] (m : Machine ι) (now : Instant) (s : Step ι) :
    (m.step now s).1.Settled := by
  cases s with
  | start id task => exact settled_settle _ now
  | drop id => exact settled_settle _ now

/-- **A machine is settled after every run.** -/
theorem Settled.run [DecidableEq ι] (h : m.Settled) (steps : List (Instant × Step ι)) :
    (m.run steps).1.Settled := by
  induction steps generalizing m with
  | nil => exact h
  | cons first steps ih => exact ih (settled_step m first.1 first.2)

/-- **The oldest ticket for a repository waits for a lock that is held.** -/
theorem Settled.exists_hold (h : m.Settled) {older younger : List (Ticket ι)} {t : Ticket ι}
    (hpending : m.pending = older ++ t :: younger) (holdest : ∀ o ∈ older, o.repo ≠ t.repo) :
    ∃ hold ∈ m.holds, hold.blocks t := by
  have hblocks := h older t younger hpending
  rw [blocks_iff] at hblocks
  exact hblocks.resolve_right fun ⟨o, ho, hrepo⟩ => holdest o ho hrepo

/-- Among the tickets up to some ticket there is an oldest one for its repository. -/
theorem exists_oldest {older younger : List (Ticket ι)} {t : Ticket ι}
    (hpending : m.pending = older ++ t :: younger) :
    ∃ first o rest, m.pending = first ++ o :: rest ∧ o.repo = t.repo ∧
      (∀ other ∈ first, other.repo ≠ o.repo) ∧ (o = t ∨ o ∈ older) := by
  rcases hfind : older.find? (fun o => o.repo = t.repo) with _ | o
  · refine ⟨older, t, younger, hpending, rfl, fun other hother => ?_, Or.inl rfl⟩
    simpa using List.find?_eq_none.mp hfind other hother
  · obtain ⟨hrepo, first, rest, holder, hfirst⟩ := List.find?_eq_some_iff_append.mp hfind
    have hrepo : o.repo = t.repo := by simpa using hrepo
    refine ⟨first, o, rest ++ t :: younger, by rw [hpending, holder]; simp, hrepo,
      fun other hother => ?_, Or.inr (by rw [holder]; simp)⟩
    rw [hrepo]
    simpa using hfirst other hother

/-- **Nothing waits for a repository on which no lock is held.** -/
theorem Settled.repo_ne (h : m.Settled) {repo : String}
    (hfree : ∀ hold ∈ m.holds, hold.repo ≠ repo) : ∀ t ∈ m.pending, t.repo ≠ repo := by
  rintro t ht rfl
  obtain ⟨older, younger, hpending⟩ := List.append_of_mem ht
  obtain ⟨first, o, rest, hsplit, hrepo, holdest, -⟩ := exists_oldest hpending
  obtain ⟨hold, hmem, hblocks⟩ := h.exists_hold hsplit holdest
  exact hfree hold hmem ((Hold.blocks_iff.mp hblocks).1.trans hrepo)

/-- A ticket that waits in a settled machine is not given its lock, however often it is
polled. -/
theorem Settled.not_grants (h : m.Settled) {older younger : List (Ticket ι)} {t : Ticket ι}
    (hpending : m.pending = older ++ t :: younger) : ¬m.grants older t := by
  obtain ⟨first, o, rest, hsplit, hrepo, holdest, ho⟩ := exists_oldest hpending
  obtain ⟨hold, hmem, hblocks⟩ := h.exists_hold hsplit holdest
  rw [grants_iff]
  rintro ⟨hholds, holder⟩
  rcases ho with rfl | ho
  -- the ticket itself is the oldest one
  · exact hholds hold hmem hblocks
  -- the oldest one does not preclude the ticket, so that what blocks it blocks the ticket too
  · obtain ⟨hsame, hexcludes⟩ := Hold.blocks_iff.mp hblocks
    have hshared : o.work.mode.excludes t.work.mode = false := by
      rw [← Bool.not_eq_true]
      exact fun hmode => holder o ho (Ticket.precludes_iff.mpr ⟨hrepo, hmode⟩)
    refine hholds hold hmem (Hold.blocks_iff.mpr ⟨hsame.trans hrepo, ?_⟩)
    exact Mode.excludes_of_excludes hexcludes hshared

/-- **Polling a settled machine has no effect.** -/
theorem Settled.poll_eq (h : m.Settled) (now : Instant) (place : Nat) :
    m.poll now place = (m, none) := by
  rcases m.poll_cases now place with hpoll | ⟨older, t, younger, hpending, hgrants, -⟩
  · exact hpoll
  · exact absurd hgrants (h.not_grants hpending)

end Machine

end Locking

end DepGraph
