import DepGraph.Proofs.Locking.Discipline
import Mathlib.Data.List.Induction

/-!
# First come, first served

Of two tasks that exclude each other, the one that was started first gets its lock first,
unless it is abandoned. The reason is in the line: tickets stand in it in the order in which
their tasks were started, whatever is served or dropped in between, and a ticket is not given
its lock while an older one that excludes it still waits. A task that draws no ticket does not
overtake either. It would have to find no repository, and then nothing can be waiting for it.

Tasks are told apart by the names under which they were started. A name may be given again, but
what is said here of two tasks is said of names that were given once
(`DepGraph.Locking.StartedBefore`).
-/

namespace DepGraph

namespace Locking

variable {ι : Type}

/-! ### Two tasks, one before the other -/

/-- **One task was started before another**, and their names were given to no other task. -/
def StartedBefore (started : List (ι × Task)) (x y : ι × Task) : Prop :=
  ∃ earlier between later, started = earlier ++ x :: (between ++ y :: later) ∧ x.1 ≠ y.1 ∧
    ∀ z ∈ earlier ++ between ++ later, z.1 ≠ x.1 ∧ z.1 ≠ y.1

namespace StartedBefore

variable {started : List (ι × Task)} {x y z : ι × Task}

theorem mem_left (h : StartedBefore started x y) : x ∈ started := by
  obtain ⟨earlier, between, later, rfl, -⟩ := h
  simp

theorem name_ne (h : StartedBefore started x y) : x.1 ≠ y.1 := by
  obtain ⟨-, -, -, -, hne, -⟩ := h
  exact hne

/-- The last task to be started is the later one of the two or neither of them. -/
theorem of_concat (h : StartedBefore (started ++ [z]) x y) :
    StartedBefore started x y ∧ z.1 ≠ y.1 ∨ z = y ∧ x ∈ started ∧ y ∉ started := by
  obtain ⟨earlier, between, later, heq, hne, hnames⟩ := h
  rw [← List.cons_append, ← List.append_assoc] at heq
  rcases eq_or_exists_of_concat_eq heq with ⟨rfl, rfl⟩ | ⟨rest, rfl, rfl⟩
  · refine Or.inr ⟨rfl, by simp, fun hmem => ?_⟩
    rcases List.mem_append.mp hmem with hmem | hmem
    · exact (hnames z (by simp [hmem])).2 rfl
    · rcases List.mem_cons.mp hmem with rfl | hmem
      · exact hne rfl
      · exact (hnames z (by simp [hmem])).2 rfl
  · refine Or.inl ⟨⟨earlier, between, rest, by simp, hne, fun w hw => hnames w ?_⟩,
      (hnames z (by simp)).2⟩
    rw [← List.append_assoc]
    exact List.mem_append_left _ hw

/-- A task that was started in the beginning, if it is the later one, was started after the
other. -/
theorem of_append {more : List (ι × Task)} (h : StartedBefore (started ++ more) x y)
    (hy : y ∈ started) : StartedBefore started x y := by
  induction more using List.reverseRecOn with
  | nil => rwa [List.append_nil] at h
  | append_singleton more z ih =>
    rw [← List.append_assoc] at h
    rcases h.of_concat with ⟨h, -⟩ | ⟨-, -, hnot⟩
    · exact ih h
    · exact absurd (List.mem_append_left more hy) hnot

/-- They were not started the other way round. -/
theorem not_sublist (h : StartedBefore started x y) : ¬[y, x].Sublist started := by
  classical
  obtain ⟨earlier, between, later, rfl, hne, hnames⟩ := h
  intro hsub
  -- once all other names are struck out, the two are left in the order in which they were started
  let named : ι × Task → Bool := fun z => z.1 = x.1 ∨ z.1 = y.1
  have hothers : ∀ l ⊆ earlier ++ between ++ later, l.filter named = [] := by
    intro l hl
    rw [List.filter_eq_nil_iff]
    intro z hz
    simpa [named] using hnames z (hl hz)
  have hstarted : (earlier ++ x :: (between ++ y :: later)).filter named = [x, y] := by
    rw [List.filter_append, List.filter_cons_of_pos (by simp [named]), List.filter_append,
      List.filter_cons_of_pos (by simp [named]), hothers earlier (by simp),
      hothers between (by simp), hothers later (by simp)]
    rfl
  have hpair : [y, x].filter named = [y, x] := by simp [named]
  have hfilter := hsub.filter named
  rw [hstarted, hpair] at hfilter
  obtain ⟨hyx, -⟩ := List.cons.inj (hfilter.eq_of_length rfl)
  exact hne (congrArg Prod.fst hyx.symm)

end StartedBefore

/-! ### What can happen to a record -/

/-- A task needs one lock, for one purpose. -/
theorem Task.Draws.unique {task : Task} {repo repo' : String} {work work' : Work}
    (h : task.Draws repo work) (h' : task.Draws repo' work') : repo = repo' ∧ work = work' := by
  cases h with
  | ingest hb hedges =>
    cases h' with
    | ingest hb' hedges' =>
      obtain rfl := Except.ok.inj (hb.symm.trans hb')
      exact ⟨rfl, rfl⟩
  | ask repo question => cases h'; exact ⟨rfl, rfl⟩
  | hold repo mode => cases h'; exact ⟨rfl, rfl⟩

/-- A task that needs a lock on a repository that exists waits for it. -/
theorem Task.Draws.arrive_eq {task : Task} {repo : String} {work : Work}
    (h : task.Draws repo work) {m : Machine ι} (hexists : (m.store.graph? repo).isSome)
    (now : Instant) (id : ι) : m.arrive now id task = (m.enqueue id task repo work, none) := by
  obtain ⟨g, hg⟩ := Option.isSome_iff_exists.mp hexists
  cases h with
  | ingest hb hedges =>
    rw [Machine.arrive, hb]
    dsimp only
    rw [if_neg hedges, hg]
  | ask repo question => rw [Machine.arrive, hg]
  | hold repo mode => simp only [Machine.arrive, hg]

namespace Record

/-- **What an event does to the past and to the line**: a task is completed when it arrives,
and there was nothing that it could have waited for; or a task joins the line; or nothing is
started or completed, and some of the tickets may leave the line; or a ticket out of the line is
given its lock and its task is completed. -/
inductive Happening (r r' : Record ι) (now : Instant) : Prop
  | completes (id : ι) (task : Task) (result : Result)
      (absent : ∀ repo work, task.Draws repo work → r.machine.store.graph? repo = none)
      (started : r'.started = r.started ++ [(id, task)])
      (completed : r'.completed = r.completed ++ [⟨id, task, now, result⟩])
      (pending : r'.machine.pending = r.machine.pending)
      (abandoned : r'.abandoned = r.abandoned)
  | joins (t : Ticket ι)
      (started : r'.started = r.started ++ [t.origin])
      (completed : r'.completed = r.completed)
      (pending : r'.machine.pending = r.machine.pending ++ [t])
      (abandoned : r'.abandoned = r.abandoned)
  | leaves
      (started : r'.started = r.started)
      (completed : r'.completed = r.completed)
      (pending : r'.machine.pending.Sublist r.machine.pending)
      (abandoned : ∀ t ∈ r.abandoned, t ∈ r'.abandoned)
  | serves (older : List (Ticket ι)) (t : Ticket ι) (younger : List (Ticket ι)) (result : Result)
      (line : r.machine.pending = older ++ t :: younger)
      (grants : r.machine.grants older t)
      (started : r'.started = r.started)
      (completed : r'.completed = r.completed ++ [⟨t.id, t.task, now, result⟩])
      (pending : r'.machine.pending = older ++ younger)
      (abandoned : r'.abandoned = r.abandoned)

theorem happening [DecidableEq ι] (r : Record ι) (now : Instant) (e : Event ι) :
    r.Happening (r.happen now e) now := by
  cases e with
  | step s =>
    cases s with
    | start id task =>
      have habsent : ∀ {m result}, r.machine.arrive now id task = (m, some result) →
          ∀ repo work, task.Draws repo work → r.machine.store.graph? repo = none := by
        intro m result harrive repo work hdraws
        by_contra hexists
        rw [hdraws.arrive_eq (Option.isSome_iff_ne_none.mpr hexists)] at harrive
        cases (Prod.ext_iff.mp harrive).2
      rw [happen]
      dsimp only
      rcases r.machine.arrive_cases now id task with harrive | ⟨repo, -, -, harrive⟩ |
        ⟨repo, work, -, harrive⟩
      · have habsent := habsent harrive
        rw [harrive]
        exact .completes id task _ habsent rfl rfl rfl rfl
      · have habsent := habsent harrive
        rw [harrive]
        exact .completes id task _ habsent rfl rfl rfl rfl
      · rw [harrive]
        exact .joins ⟨id, task, repo, work⟩ rfl rfl rfl rfl
    | drop id =>
      exact .leaves rfl rfl List.filter_sublist fun t ht => List.mem_append_left _ ht
  | poll place =>
    rw [happen]
    rcases r.machine.poll_cases now place with hpoll | ⟨older, t, younger, hpending, hgrants, hpoll⟩
    · rw [hpoll]
      exact .leaves rfl rfl (List.Sublist.refl _) fun _ ht => ht
    · rw [hpoll]
      exact .serves older t younger _ hpending hgrants rfl rfl (Machine.pending_serve ..) rfl

/-! ### Nobody overtakes -/

/-- **A record in which nobody was overtaken.** -/
structure InOrder (r : Record ι) : Prop where
  /-- Tickets stand in the order in which their tasks were started. -/
  line : (r.machine.pending.map (·.origin)).Sublist r.started
  /-- When a task is completed that excludes one that was started before it, then this has been
  completed, or it was abandoned. -/
  precedence : ∀ {x y : ι × Task} {repo : String} {work work' : Work},
    StartedBefore r.started x y → x.2.Draws repo work → y.2.Draws repo work' →
      work.mode.excludes work'.mode →
        ∀ before c after, r.completed = before ++ c :: after → c.origin = y →
          (∃ c' ∈ before, c'.origin = x) ∨ ∃ t ∈ r.abandoned, t.origin = x

variable {limits : QueryLimits} {r : Record ι}

/-- What was completed was started. -/
theorem Serial.mem_started (h : r.Serial limits) {c : Completion ι} (hc : c ∈ r.completed) :
    c.origin ∈ r.started :=
  h.accounted.symm.subset (List.mem_append_left _ (List.mem_map_of_mem hc))

/-- A task that was started is completed, waits or is abandoned. -/
theorem Serial.cases_of_mem_started (h : r.Serial limits) {x : ι × Task} (hx : x ∈ r.started) :
    (∃ c ∈ r.completed, c.origin = x) ∨ (∃ t ∈ r.machine.pending, t.origin = x) ∨
      ∃ t ∈ r.abandoned, t.origin = x := by
  have hmem := h.accounted.subset hx
  rw [List.mem_append, List.mem_append] at hmem
  simpa only [List.mem_map] using hmem

theorem inOrder_initial (limits : QueryLimits) :
    InOrder (ι := ι) { machine := .initial limits } where
  line := List.Sublist.refl _
  precedence _ _ _ _ before c after hcompleted _ := by simp at hcompleted

theorem InOrder.line_happen (h : r.InOrder) {r' : Record ι} {now : Instant}
    (hr' : r.Happening r' now) : (r'.machine.pending.map (·.origin)).Sublist r'.started := by
  cases hr' with
  | completes id task result absent started completed pending abandoned =>
    rw [started, pending]
    exact h.line.trans (List.sublist_append_left _ _)
  | joins t started completed pending abandoned =>
    rw [started, pending, List.map_append]
    exact h.line.append (List.Sublist.refl _)
  | leaves started completed pending abandoned =>
    rw [started]
    exact (pending.map _).trans h.line
  | serves older t younger result line grants started completed pending abandoned =>
    rw [started, pending]
    refine List.Sublist.trans (List.Sublist.map _ ?_) (line ▸ h.line)
    exact (List.Sublist.refl _).append (List.sublist_cons_self _ _)

/-- A ticket that waits is for what its task needs, and its repository exists. -/
theorem Serial.of_draws (h : r.Serial limits) {t : Ticket ι} (ht : t ∈ r.machine.pending)
    {repo : String} {work : Work} (hdraws : t.task.Draws repo work) :
    t.repo = repo ∧ t.work = work ∧ (r.machine.store.graph? repo).isSome := by
  obtain ⟨hdue, hexists⟩ := h.due t ht
  obtain ⟨rfl, rfl⟩ := hdue.unique hdraws
  exact ⟨rfl, rfl, hexists⟩

section Precedence

variable {x y : ι × Task} {repo : String} {work work' : Work}

/-- What was not overtaken when a task was completed is not overtaken later. -/
theorem InOrder.precedence_append (h : r.InOrder) (hserial : r.Serial limits)
    {more : List (ι × Task)} (hbefore : StartedBefore (r.started ++ more) x y)
    (hx : x.2.Draws repo work) (hy : y.2.Draws repo work')
    (hexcludes : work.mode.excludes work'.mode) {before after : List (Completion ι)}
    {c : Completion ι}
    (hcompleted : r.completed = before ++ c :: after) (hc : c.origin = y) :
    (∃ c' ∈ before, c'.origin = x) ∨ ∃ t ∈ r.abandoned, t.origin = x := by
  have hmem : c ∈ r.completed := by simp [hcompleted]
  have hstarted : y ∈ r.started := hc ▸ hserial.mem_started hmem
  exact h.precedence (hbefore.of_append hstarted) hx hy hexcludes before c after hcompleted hc

/-- **A task that is completed on arrival overtakes nobody**: whoever waits for a repository
waits for one that exists. -/
theorem Serial.precedence_completes (hserial : r.Serial limits) (hx : x.2.Draws repo work)
    (hstarted : x ∈ r.started) (habsent : r.machine.store.graph? repo = none) :
    (∃ c ∈ r.completed, c.origin = x) ∨ ∃ t ∈ r.abandoned, t.origin = x := by
  rcases hserial.cases_of_mem_started hstarted with hcompleted | ⟨t, ht, rfl⟩ | habandoned
  · exact Or.inl hcompleted
  · have hexists := (hserial.of_draws ht hx).2.2
    rw [habsent] at hexists
    cases hexists
  · exact Or.inr habandoned

/-- **A ticket that is given its lock overtakes nobody**: an older one would have kept it from
being served, and one that was started earlier cannot be younger. -/
theorem InOrder.precedence_serves (h : r.InOrder) (hserial : r.Serial limits)
    {older younger : List (Ticket ι)} {t : Ticket ι}
    (hline : r.machine.pending = older ++ t :: younger) (hgrants : r.machine.grants older t)
    (hbefore : StartedBefore r.started x t.origin) (hx : x.2.Draws repo work)
    (ht : t.task.Draws repo work') (hexcludes : work.mode.excludes work'.mode) :
    (∃ c ∈ r.completed, c.origin = x) ∨ ∃ t ∈ r.abandoned, t.origin = x := by
  rcases hserial.cases_of_mem_started hbefore.mem_left with hcompleted | ⟨other, hother, rfl⟩ |
    habandoned
  · exact Or.inl hcompleted
  · exfalso
    obtain ⟨hrepo, hwork, -⟩ := hserial.of_draws hother hx
    obtain ⟨hrepo', hwork', -⟩ := hserial.of_draws (hline ▸ by simp) ht
    rw [hline] at hother
    rcases List.mem_append.mp hother with holder | hyounger
    -- the other one is older and precludes the ticket
    · refine (Machine.grants_iff.mp hgrants).2 other holder (Ticket.precludes_iff.mpr ⟨?_, ?_⟩)
      · rw [hrepo, hrepo']
      · rw [hwork, hwork']
        exact hexcludes
    · rcases List.mem_cons.mp hyounger with rfl | hyounger
      · exact hbefore.name_ne rfl
      -- the other one is younger, although it was started before
      · refine hbefore.not_sublist (List.Sublist.trans ?_ h.line)
        rw [hline, List.map_append, List.map_cons]
        refine List.Sublist.trans ?_ (List.sublist_append_right _ _)
        exact (List.singleton_sublist.mpr (List.mem_map_of_mem hyounger)).cons_cons _
  · exact Or.inr habandoned

/-- **Whatever happens, nobody is overtaken.** -/
theorem InOrder.happen (h : r.InOrder) (hserial : r.Serial limits) {r' : Record ι}
    {now : Instant} (hr' : r.Happening r' now) : r'.InOrder := by
  refine ⟨h.line_happen hr', ?_⟩
  intro x y repo work work' hbefore hx hy hexcludes before c after hcompleted hc
  cases hr' with
  | completes id task result absent started completed pending abandoned =>
    rw [started] at hbefore
    rw [completed] at hcompleted
    rw [abandoned]
    rcases eq_or_exists_of_concat_eq hcompleted with ⟨rfl, rfl⟩ | ⟨rest, -, hcompleted⟩
    -- what is completed is the later one of the two tasks
    · obtain rfl : (id, task) = y := hc
      rcases hbefore.of_concat with ⟨-, hne⟩ | ⟨-, hmem, -⟩
      · exact absurd rfl hne
      · exact hserial.precedence_completes hx hmem (absent repo work' hy)
    · exact h.precedence_append hserial hbefore hx hy hexcludes hcompleted hc
  | joins t started completed pending abandoned =>
    rw [started] at hbefore
    rw [completed] at hcompleted
    rw [abandoned]
    exact h.precedence_append hserial hbefore hx hy hexcludes hcompleted hc
  | leaves started completed pending abandoned =>
    rw [started] at hbefore
    rw [completed] at hcompleted
    refine (h.precedence hbefore hx hy hexcludes before c after hcompleted hc).imp_right ?_
    exact fun ⟨t, ht, hx⟩ => ⟨t, abandoned t ht, hx⟩
  | serves older t younger result line grants started completed pending abandoned =>
    rw [started] at hbefore
    rw [completed] at hcompleted
    rw [abandoned]
    rcases eq_or_exists_of_concat_eq hcompleted with ⟨rfl, rfl⟩ | ⟨rest, -, hcompleted⟩
    · obtain rfl : t.origin = y := hc
      exact h.precedence_serves hserial line grants hbefore hx hy hexcludes
    · exact h.precedence hbefore hx hy hexcludes before c rest hcompleted hc

end Precedence

/-- **Nobody is overtaken in any record.** -/
theorem inOrder_ofEvents [DecidableEq ι] (limits : QueryLimits)
    (events : List (Instant × Event ι)) : (ofEvents limits events).InOrder := by
  suffices ∀ r : Record ι, r.Serial limits → r.InOrder → (r.after events).InOrder from
    this _ (serial_initial limits) (inOrder_initial limits)
  induction events with
  | nil => exact fun _ _ h => h
  | cons e events ih =>
    intro r hserial h
    exact ih (r.happen e.1 e.2) (hserial.happen e.1 e.2) (h.happen hserial (r.happening e.1 e.2))

/-! ### Runs -/

variable [DecidableEq ι]

/-- The record of a run of a machine that was new. -/
def ofSteps (limits : QueryLimits) (steps : List (Instant × Step ι)) : Record ι :=
  run { machine := .initial limits } steps

theorem ofSteps_concat (limits : QueryLimits) (steps : List (Instant × Step ι)) (now : Instant)
    (s : Step ι) : ofSteps limits (steps ++ [(now, s)]) = (ofSteps limits steps).step now s :=
  run_append _ steps [(now, s)]

/-- The record of a run is one of those in which nobody is overtaken. -/
theorem exists_ofEvents_eq (limits : QueryLimits) (steps : List (Instant × Step ι)) :
    ∃ events, stepsAmong events = steps ∧ ofEvents limits events = ofSteps limits steps :=
  exists_events_run steps { machine := .initial limits }

theorem serial_ofSteps (limits : QueryLimits) (steps : List (Instant × Step ι)) :
    (ofSteps limits steps).Serial limits := by
  obtain ⟨events, -, heq⟩ := exists_ofEvents_eq limits steps
  rw [← heq]
  exact serial_ofEvents limits events

theorem inOrder_ofSteps (limits : QueryLimits) (steps : List (Instant × Step ι)) :
    (ofSteps limits steps).InOrder := by
  obtain ⟨events, -, heq⟩ := exists_ofEvents_eq limits steps
  rw [← heq]
  exact inOrder_ofEvents limits events

theorem started_ofSteps (limits : QueryLimits) (steps : List (Instant × Step ι)) :
    (ofSteps limits steps).started = startsAmong steps := by
  obtain ⟨events, hsteps, heq⟩ := exists_ofEvents_eq limits steps
  rw [← heq, ofEvents, started_after, hsteps]
  rfl

/-- What was completed stays completed. -/
theorem completed_prefix (limits : QueryLimits) (steps more : List (Instant × Step ι)) :
    (ofSteps limits steps).completed <+: (ofSteps limits (steps ++ more)).completed := by
  rw [ofSteps, ofSteps, run_append, (run_eq more _).2]
  exact List.prefix_append _ _

/-- **Whoever is abandoned was dropped while waiting.** -/
theorem exists_drop_of_mem_abandoned {limits : QueryLimits} {steps : List (Instant × Step ι)}
    {t : Ticket ι} (h : t ∈ (ofSteps limits steps).abandoned) :
    ∃ earlier now later, steps = earlier ++ (now, .drop t.id) :: later ∧
      t ∈ (ofSteps limits earlier).machine.pending := by
  induction steps using List.reverseRecOn with
  | nil => exact absurd h List.not_mem_nil
  | append_singleton steps e ih =>
    obtain ⟨now, s⟩ := e
    rw [ofSteps_concat] at h
    rcases mem_abandoned_happen h with hmem | ⟨hdrop, hmem⟩
    · obtain ⟨earlier, time, later, rfl, hpending⟩ := ih hmem
      exact ⟨earlier, time, later ++ [(now, s)], by simp, hpending⟩
    · obtain rfl : s = .drop t.id := Event.step.inj hdrop
      exact ⟨steps, now, [], rfl, hmem⟩

/-- **Nobody is overtaken in a run.** When a task is completed that excludes one that was
started before it, then this has been completed before, or it was dropped before while it
waited. -/
theorem precedence_ofSteps {limits : QueryLimits} {steps : List (Instant × Step ι)}
    {x y : ι × Task} {repo : String} {work work' : Work}
    (hbefore : StartedBefore (startsAmong steps) x y) (hx : x.2.Draws repo work)
    (hy : y.2.Draws repo work') (hexcludes : work.mode.excludes work'.mode)
    {before after : List (Completion ι)} {c : Completion ι}
    (hcompleted : (ofSteps limits steps).completed = before ++ c :: after) (hc : c.origin = y) :
    (∃ c' ∈ before, c'.origin = x) ∨
      ∃ earlier now later, steps = earlier ++ (now, .drop x.1) :: later ∧
        (∃ t ∈ (ofSteps limits earlier).machine.pending, t.origin = x) ∧
        (ofSteps limits earlier).completed <+: before := by
  induction steps using List.reverseRecOn generalizing after with
  | nil => exact absurd hcompleted.symm (by simp [ofSteps, run])
  | append_singleton steps e ih =>
    by_cases hlength : before.length < (ofSteps limits steps).completed.length
    -- the later task had been completed before the last step
    · have hprefix : before ++ [c] <+: (ofSteps limits steps).completed := by
        have hsteps := completed_prefix limits steps [e]
        have hlast : before ++ [c] <+: (ofSteps limits (steps ++ [e])).completed :=
          ⟨after, by rw [hcompleted, List.append_assoc]; rfl⟩
        refine List.prefix_of_prefix_length_le hlast hsteps ?_
        rw [List.length_append, List.length_singleton]
        exact hlength
      obtain ⟨rest, hrest⟩ := hprefix
      rw [List.append_assoc] at hrest
      have hmem : c ∈ (ofSteps limits steps).completed := by simp [← hrest]
      have hstarted : y ∈ startsAmong steps := by
        rw [← started_ofSteps limits, ← hc]
        exact (serial_ofSteps limits steps).mem_started hmem
      rw [startsAmong_append] at hbefore
      rcases ih (hbefore.of_append hstarted) hrest.symm with hdone |
        ⟨earlier, now, later, rfl, hdrop⟩
      · exact Or.inl hdone
      · exact Or.inr ⟨earlier, now, later ++ [e], by simp, hdrop⟩
    -- the last step completed it, and whoever had been dropped was dropped before this step, or
    -- by this step and so before anything was completed
    · have hprefix : (ofSteps limits steps).completed <+: before := by
        have hsteps := completed_prefix limits steps [e]
        rw [hcompleted] at hsteps
        exact List.prefix_of_prefix_length_le hsteps (List.prefix_append ..) (by omega)
      have hstarted := hbefore
      rw [← started_ofSteps limits] at hstarted
      rcases (inOrder_ofSteps limits (steps ++ [e])).precedence hstarted hx hy hexcludes before c
        after hcompleted hc with hdone | ⟨t, ht, rfl⟩
      · exact Or.inl hdone
      · obtain ⟨earlier, now, later, hsplit, hpending⟩ := exists_drop_of_mem_abandoned ht
        refine Or.inr ⟨earlier, now, later, hsplit, ⟨t, hpending, rfl⟩, ?_⟩
        refine List.IsPrefix.trans ?_ hprefix
        rcases eq_or_exists_of_concat_eq hsplit with ⟨rfl, -⟩ | ⟨rest, -, rfl⟩
        · exact List.prefix_rfl
        · exact completed_prefix limits earlier _

end Record

/-! ### The discipline -/

/-- **The locks are given out in order, and nobody is stuck.** After every run of the machine

* whoever holds a lock to write is the only one to hold a lock on the repository;
* the oldest ticket for a repository is blocked by a lock that is held on it, so if none is held
  nothing waits for the repository, and polling what waits has no effect;
* if a task was completed that excludes one that was started before it, then the latter was
  completed before, or it was dropped before, while it waited. -/
theorem lock_discipline [DecidableEq ι] (limits : QueryLimits) (steps : List (Instant × Step ι)) :
    let (m, done) := (Machine.initial limits).run steps
    (∀ before hold after, m.holds = before ++ hold :: after → hold.mode = .exclusive →
      ∀ other ∈ before ++ after, other.repo ≠ hold.repo) ∧
    ((∀ older t younger, m.pending = older ++ t :: younger → (∀ o ∈ older, o.repo ≠ t.repo) →
        ∃ hold ∈ m.holds, hold.repo = t.repo ∧ hold.mode.excludes t.work.mode) ∧
      (∀ repo, (∀ hold ∈ m.holds, hold.repo ≠ repo) → ∀ t ∈ m.pending, t.repo ≠ repo) ∧
      ∀ now place, m.poll now place = (m, none)) ∧
    ∀ (x y : ι × Task) repo work work', StartedBefore (startsAmong steps) x y →
      x.2.Draws repo work → y.2.Draws repo work' → work.mode.excludes work'.mode →
        ∀ before c after, done = before ++ c :: after → c.origin = y →
          (∃ c' ∈ before, c'.origin = x) ∨
            ∃ earlier now later, steps = earlier ++ (now, .drop x.1) :: later ∧
              let (m', done') := (Machine.initial limits).run earlier
              (∃ t ∈ m'.pending, t.origin = x) ∧ done' <+: before := by
  have hrun : ∀ steps : List (Instant × Step ι),
      (Record.ofSteps limits steps).machine = ((Machine.initial limits).run steps).1 ∧
        (Record.ofSteps limits steps).completed = ((Machine.initial limits).run steps).2 :=
    fun steps => Record.run_eq steps _
  have hguarded : ((Machine.initial limits).run steps).1.Guarded := by
    obtain ⟨events, -, heq⟩ := Record.exists_ofEvents_eq limits steps
    rw [← (hrun steps).1, ← heq]
    exact Record.guarded_ofEvents limits events
  have hsettled := (Machine.settled_initial limits).run steps
  refine ⟨fun before hold after => hguarded.repo_ne,
    ⟨fun older t younger hpending holdest => ?_, fun repo => hsettled.repo_ne, hsettled.poll_eq⟩,
    fun x y repo work work' hbefore hx hy hexcludes before c after hdone hc => ?_⟩
  · obtain ⟨hold, hmem, hblocks⟩ := hsettled.exists_hold hpending holdest
    exact ⟨hold, hmem, Hold.blocks_iff.mp hblocks⟩
  · rw [← (hrun steps).2] at hdone
    rcases Record.precedence_ofSteps hbefore hx hy hexcludes hdone hc with hdone |
      ⟨earlier, now, later, hsteps, hdropped⟩
    · exact Or.inl hdone
    · refine Or.inr ⟨earlier, now, later, hsteps, ?_⟩
      rw [(hrun earlier).1, (hrun earlier).2] at hdropped
      exact hdropped

end Locking

end DepGraph
