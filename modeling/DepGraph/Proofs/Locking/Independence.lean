import DepGraph.Proofs.Batch
import DepGraph.Proofs.Locking.Discipline
import Mathlib.Data.List.Forall2

/-!
# Repositories do not wait for one another

Every repository has a lock of its own, but the machine is one for all: there is one line of
tickets and one store, which grows as tasks of any kind create repositories. Still, deleting
from a run all steps that concern other repositories makes no difference to a repository
(`DepGraph.Locking.repositories_independent`): the same tasks wait for it after every step, and
the others are completed in the same order, at the same times and with the same results. The one
exception is counting, which concerns no repository and is about all of them.

The two runs are compared step by step. What a repository has of a machine is its *share*
(`DepGraph.Locking.Machine.IsShare`): its graph, its locks and its tickets. A step that concerns
another repository leaves the share as it is, and any other step does to the share what it does
to the machine. The former is not obvious, because every step ends with serving whatever can be
served, no matter for whom. But a line is served share by share
(`DepGraph.Locking.Machine.IsShare.pass`), and where nothing but the share is left there is
nobody to serve, since the step before has served everybody
(`DepGraph.Locking.Machine.Settled.settle_eq`).

Dropping concerns a repository through the tasks that were started under the name that is
dropped. So tickets and locks have to belong to tasks that were started, and to be for the
repositories that these concern (`DepGraph.Locking.Machine.Located`).
-/

namespace DepGraph

namespace Locking

variable {ι : Type} {repo : String}

/-! ### What a task concerns -/

/-- **The repository that a task concerns.** Counting concerns none. -/
def Task.repo? : Task → Option String
  | ingest batch => some batch.repoId
  | ask repo _ => some repo
  | count => none
  | hold repo _ => some repo

/-- Whether a task concerns another repository. -/
def Task.elsewhere (repo : String) (task : Task) : Bool :=
  task.repo?.any (· ≠ repo)

/-- **Whether a step concerns another repository**: a task that does is started, or all tasks that
were started under the name that is dropped do, and there are some. -/
def Step.elsewhere [DecidableEq ι] (repo : String) (started : List (ι × Task)) : Step ι → Bool
  | .start _ task => task.elsewhere repo
  | .drop id =>
    let named := started.filter fun x => x.1 = id
    !named.isEmpty && named.all fun x => x.2.elsewhere repo

/-- A task takes its lock on the repository that it concerns. -/
theorem Task.Draws.repo?_eq {task : Task} {work : Work} (h : task.Draws repo work) :
    task.repo? = some repo := by
  cases h with
  | ingest hb _ => exact congrArg some (Batch.validate_eq_ok hb).1.symm
  | ask _ _ => rfl
  | hold _ _ => rfl

theorem Task.elsewhere_of_repo? {task : Task} {other : String} (h : task.repo? = some other) :
    task.elsewhere repo ↔ other ≠ repo := by
  rw [elsewhere, h, Option.any_some, decide_eq_true_eq]

theorem Task.elsewhere_iff {task : Task} :
    task.elsewhere repo ↔ ∃ other, task.repo? = some other ∧ other ≠ repo := by
  rw [elsewhere, Option.any_eq_true]
  simp only [decide_eq_true_eq]

/-- A task that does not concern another repository concerns this one, or counts. -/
theorem Task.repo?_of_not_elsewhere {task : Task} (h : ¬task.elsewhere repo) :
    task = .count ∨ task.repo? = some repo := by
  rw [elsewhere_iff] at h
  cases task with
  | count => exact Or.inl rfl
  | ingest batch => exact Or.inr (congrArg some (not_not.mp fun hne => h ⟨_, rfl, hne⟩))
  | ask other _ => exact Or.inr (congrArg some (not_not.mp fun hne => h ⟨_, rfl, hne⟩))
  | hold other _ => exact Or.inr (congrArg some (not_not.mp fun hne => h ⟨_, rfl, hne⟩))

/-- **What concerns another repository leaves the graph alone**, and the limits. -/
theorem Task.alone_elsewhere {task : Task} (h : task.elsewhere repo) (now : Instant) (s : Store) :
    (task.alone now s).1.graph? repo = s.graph? repo ∧
      (task.alone now s).1.limits = s.limits := by
  have hset : ∀ other g, other ≠ repo → (s.setGraph other g).graph? repo = s.graph? repo :=
    fun other g hne => by rw [Store.graph?_setGraph, if_neg hne]
  obtain ⟨other, hother, hne⟩ := elsewhere_iff.mp h
  cases task with
  | ingest batch =>
    obtain rfl := Option.some.inj hother
    rcases hb : batch.validate with e | b
    · rw [alone, Store.ingest_of_error hb]
      exact ⟨rfl, rfl⟩
    · rw [alone, Store.ingest_of_ok hb]
      by_cases hedges : b.edges.isEmpty
      · rw [Store.applyBatch_of_isEmpty hedges]
        exact ⟨rfl, rfl⟩
      · rw [Store.applyBatch_of_not_isEmpty hedges]
        exact ⟨hset _ _ ((Batch.validate_eq_ok hb).1 ▸ hne), rfl⟩
  | ask _ _ => exact ⟨rfl, rfl⟩
  | count => exact ⟨rfl, rfl⟩
  | hold other mode =>
    obtain rfl := Option.some.inj hother
    cases mode with
    | shared => exact ⟨rfl, rfl⟩
    | exclusive =>
      change (s.create other).graph? repo = s.graph? repo ∧ (s.create other).limits = s.limits
      cases hg : s.graph? other with
      | some g =>
        rw [Store.create_of_graph? (by rw [hg]; rfl)]
        exact ⟨rfl, rfl⟩
      | none =>
        rw [Store.create_of_absent hg]
        exact ⟨hset _ _ hne, rfl⟩

namespace Machine

/-! ### Whose tickets and locks there are -/

/-- **Tickets and locks belong to tasks** that were started, and are for the repositories that
these concern. -/
structure Located (started : List (ι × Task)) (m : Machine ι) : Prop where
  pending : ∀ t ∈ m.pending, t.origin ∈ started ∧ t.task.repo? = some t.repo
  holds : ∀ hold ∈ m.holds, ∃ task, (hold.id, task) ∈ started ∧ task.repo? = some hold.repo

namespace Located

variable {started : List (ι × Task)} {m : Machine ι}

theorem serve (h : m.Located started) {t : Ticket ι}
    (ht : t.origin ∈ started ∧ t.task.repo? = some t.repo) (now : Instant) :
    (m.serve now t).1.Located started := by
  refine ⟨?_, ?_⟩
  · rw [pending_serve]
    exact h.pending
  · rcases m.holds_serve now t with hholds | hholds <;> rw [hholds]
    · exact h.holds
    · exact List.forall_mem_append.mpr ⟨h.holds, List.forall_mem_singleton.mpr ⟨t.task, ht⟩⟩

theorem wait (h : m.Located started) {t : Ticket ι}
    (ht : t.origin ∈ started ∧ t.task.repo? = some t.repo) :
    { m with pending := m.pending ++ [t] }.Located started :=
  ⟨List.forall_mem_append.mpr ⟨h.pending, List.forall_mem_singleton.mpr ht⟩, h.holds⟩

theorem pass (h : m.Located started) (now : Instant) {line : List (Ticket ι)}
    (hline : ∀ t ∈ line, t.origin ∈ started ∧ t.task.repo? = some t.repo) :
    (m.pass now line).1.Located started := by
  induction line generalizing m with
  | nil => exact h
  | cons t line ih =>
    obtain ⟨ht, hline⟩ := List.forall_mem_cons.mp hline
    rw [Machine.pass]
    by_cases hblocks : m.blocks t
    · rw [if_pos hblocks]
      exact ih (h.wait ht) hline
    · rw [if_neg hblocks]
      exact ih (h.serve ht now) hline

theorem settle (h : m.Located started) (now : Instant) : (m.settle now).1.Located started := by
  have hcleared : { m with pending := [] }.Located started :=
    ⟨fun _ ht => absurd ht List.not_mem_nil, h.holds⟩
  exact hcleared.pass now h.pending

theorem arrive (h : m.Located started) {id : ι} {task : Task} (htask : (id, task) ∈ started)
    (now : Instant) : (m.arrive now id task).1.Located started := by
  rcases m.arrive_cases now id task with harrive | ⟨repo, rfl, -, harrive⟩ |
    ⟨repo, work, hdue, harrive⟩ <;> rw [harrive]
  · exact ⟨h.pending, h.holds⟩
  · exact ⟨h.pending,
      List.forall_mem_append.mpr ⟨h.holds, List.forall_mem_singleton.mpr ⟨_, htask, rfl⟩⟩⟩
  · exact h.wait ⟨htask, hdue.draws.repo?_eq⟩

theorem step [DecidableEq ι] (h : m.Located started) {s : Step ι}
    (hs : ∀ id task, s = .start id task → (id, task) ∈ started) (now : Instant) :
    (m.step now s).1.Located started := by
  cases s with
  | start id task => exact (h.arrive (hs id task rfl) now).settle now
  | drop id =>
    have hforget : (m.forget id).Located started :=
      ⟨fun t ht => h.pending t (List.mem_of_mem_filter ht),
        fun hold hmem => h.holds hold (List.mem_of_mem_filter hmem)⟩
    exact hforget.settle now

end Located

/-! ### The share of a repository -/

/-- **The share of a repository in a machine**, as a machine of its own: the graph of the
repository, the locks that are held on it and the tickets that wait for it. -/
structure IsShare (repo : String) (m m' : Machine ι) : Prop where
  limits : m'.store.limits = m.store.limits
  graph : m'.store.graph? repo = m.store.graph? repo
  holds : m'.holds = m.holds.filter fun hold => hold.repo = repo
  pending : m'.pending = m.pending.filter fun t => t.repo = repo

namespace IsShare

variable {m m' : Machine ι} {t : Ticket ι}

/-- Whether a ticket has to wait is known from its share. -/
theorem blocks (h : IsShare repo m m') (ht : t.repo = repo) : m'.blocks t = m.blocks t := by
  rw [Bool.eq_iff_iff, blocks_iff, blocks_iff, h.holds, h.pending]
  refine or_congr ⟨?_, ?_⟩ ⟨?_, ?_⟩
  · rintro ⟨hold, hmem, hblocks⟩
    exact ⟨hold, List.mem_of_mem_filter hmem, hblocks⟩
  · rintro ⟨hold, hmem, hblocks⟩
    have hrepo : hold.repo = repo := (Hold.blocks_iff.mp hblocks).1.trans ht
    exact ⟨hold, List.mem_filter.mpr ⟨hmem, decide_eq_true hrepo⟩, hblocks⟩
  · rintro ⟨older, hmem, hrepo⟩
    exact ⟨older, List.mem_of_mem_filter hmem, hrepo⟩
  · rintro ⟨older, hmem, hrepo⟩
    exact ⟨older, List.mem_filter.mpr ⟨hmem, decide_eq_true (hrepo.trans ht)⟩, hrepo⟩

/-- A lock on the repository is in its share. -/
theorem hold (h : IsShare repo m m') (id : ι) (mode : Mode) :
    IsShare repo { m with holds := m.holds ++ [⟨id, repo, mode⟩] }
      { m' with holds := m'.holds ++ [⟨id, repo, mode⟩] } := by
  refine ⟨h.limits, h.graph, ?_, h.pending⟩
  dsimp only
  rw [h.holds, List.filter_append, List.filter_cons_of_pos (by simp), List.filter_nil]

/-- A lock on another repository is not in the share. -/
theorem hold_elsewhere (h : IsShare repo m m') {other : String} (hother : other ≠ repo) (id : ι)
    (mode : Mode) : IsShare repo { m with holds := m.holds ++ [⟨id, other, mode⟩] } m' := by
  refine ⟨h.limits, h.graph, ?_, h.pending⟩
  dsimp only
  rw [h.holds, List.filter_append, List.filter_cons_of_neg (by simpa using hother),
    List.filter_nil, List.append_nil]

/-- A ticket for the repository is in its share. -/
theorem wait (h : IsShare repo m m') (ht : t.repo = repo) :
    IsShare repo { m with pending := m.pending ++ [t] }
      { m' with pending := m'.pending ++ [t] } := by
  refine ⟨h.limits, h.graph, h.holds, ?_⟩
  dsimp only
  rw [h.pending, List.filter_append, List.filter_cons_of_pos (by simpa using ht), List.filter_nil]

/-- A ticket for another repository is not in the share. -/
theorem wait_elsewhere (h : IsShare repo m m') (ht : t.repo ≠ repo) :
    IsShare repo { m with pending := m.pending ++ [t] } m' := by
  refine ⟨h.limits, h.graph, h.holds, ?_⟩
  dsimp only
  rw [h.pending, List.filter_append, List.filter_cons_of_neg (by simpa using ht), List.filter_nil,
    List.append_nil]

/-- The graph of the repository is in its share. -/
theorem setGraph (h : IsShare repo m m') (g : RepoGraph) :
    IsShare repo { m with store := m.store.setGraph repo g }
      { m' with store := m'.store.setGraph repo g } := by
  refine ⟨h.limits, ?_, h.holds, h.pending⟩
  dsimp only
  rw [Store.graph?_setGraph, Store.graph?_setGraph, if_pos rfl, if_pos rfl]

/-- **Serving a ticket for the repository** does to its share what it does to the machine. -/
theorem serve (h : IsShare repo m m') (ht : t.repo = repo) (now : Instant) :
    IsShare repo (m.serve now t).1 (m'.serve now t).1 ∧
      (m'.serve now t).2 = (m.serve now t).2 := by
  obtain ⟨id, task, repo, work⟩ := t
  obtain rfl := ht
  rw [Machine.serve, Machine.serve, h.graph, h.limits]
  cases work with
  | write batch => exact ⟨h.setGraph _, rfl⟩
  | answer question => exact ⟨h, rfl⟩
  | hold mode => exact ⟨h.hold id mode, rfl⟩

/-- **Serving a ticket for another repository** leaves the share as it is. -/
theorem serve_elsewhere (h : IsShare repo m m') (ht : t.repo ≠ repo) (now : Instant) :
    IsShare repo (m.serve now t).1 m' := by
  rw [Machine.serve]
  cases t.work with
  | write batch =>
    refine ⟨h.limits, ?_, h.holds, h.pending⟩
    dsimp only
    rw [Store.graph?_setGraph, if_neg ht, h.graph]
  | answer question => exact h
  | hold mode => exact h.hold_elsewhere ht t.id mode

/-- **A line is served share by share.** -/
theorem pass (h : IsShare repo m m') (now : Instant) {line : List (Ticket ι)}
    (hline : ∀ t ∈ line, t.task.repo? = some t.repo) :
    IsShare repo (m.pass now line).1 (m'.pass now (line.filter fun t => t.repo = repo)).1 ∧
      (m'.pass now (line.filter fun t => t.repo = repo)).2 =
        (m.pass now line).2.filter fun c => !c.task.elsewhere repo := by
  induction line generalizing m m' with
  | nil => exact ⟨h, rfl⟩
  | cons t line ih =>
    obtain ⟨ht, hline⟩ := List.forall_mem_cons.mp hline
    have helsewhere : t.task.elsewhere repo ↔ t.repo ≠ repo := Task.elsewhere_of_repo? ht
    rw [Machine.pass]
    by_cases hrepo : t.repo = repo
    · rw [List.filter_cons_of_pos (by simpa using hrepo), Machine.pass, h.blocks hrepo]
      by_cases hblocks : m.blocks t
      · rw [if_pos hblocks, if_pos hblocks]
        exact ih (h.wait hrepo) hline
      · rw [if_neg hblocks, if_neg hblocks]
        obtain ⟨hserve, hresult⟩ := h.serve hrepo now
        obtain ⟨hshare, hdone⟩ := ih hserve hline
        refine ⟨hshare, ?_⟩
        dsimp only
        rw [hdone, hresult, List.filter_cons_of_pos]
        rw [Bool.not_eq_true', ← Bool.not_eq_true, helsewhere, not_not]
        exact hrepo
    · rw [List.filter_cons_of_neg (by simpa using hrepo)]
      by_cases hblocks : m.blocks t
      · rw [if_pos hblocks]
        exact ih (h.wait_elsewhere hrepo) hline
      · rw [if_neg hblocks]
        obtain ⟨hshare, hdone⟩ := ih (h.serve_elsewhere hrepo now) hline
        refine ⟨hshare, ?_⟩
        dsimp only
        rw [hdone, List.filter_cons_of_neg]
        simpa [helsewhere] using hrepo

/-- **A machine is settled share by share.** -/
theorem settle (h : IsShare repo m m') (now : Instant)
    (hpending : ∀ t ∈ m.pending, t.task.repo? = some t.repo) :
    IsShare repo (m.settle now).1 (m'.settle now).1 ∧
      (m'.settle now).2 = (m.settle now).2.filter fun c => !c.task.elsewhere repo := by
  have hcleared : IsShare repo { m with pending := [] } { m' with pending := [] } :=
    ⟨h.limits, h.graph, h.holds, rfl⟩
  rw [Machine.settle, Machine.settle, h.pending]
  exact hcleared.pass now hpending

/-- **A task that concerns the repository** does to its share what it does to the machine. -/
theorem arrive (h : IsShare repo m m') {task : Task} (htask : task.repo? = some repo)
    (now : Instant) (id : ι) :
    IsShare repo (m.arrive now id task).1 (m'.arrive now id task).1 ∧
      (m'.arrive now id task).2 = (m.arrive now id task).2 := by
  cases task with
  | ingest batch =>
    rw [Machine.arrive, Machine.arrive]
    rcases hb : batch.validate with e | b
    · exact ⟨h, rfl⟩
    · obtain rfl : b.repoId = repo :=
        (Batch.validate_eq_ok hb).1.trans (Option.some.inj htask)
      dsimp only
      by_cases hedges : b.edges.isEmpty
      · rw [if_pos hedges, if_pos hedges]
        exact ⟨h, rfl⟩
      · rw [if_neg hedges, if_neg hedges, h.graph]
        cases m.store.graph? b.repoId with
        | some g => exact ⟨h.wait rfl, rfl⟩
        | none => exact ⟨h.setGraph _, rfl⟩
  | ask other question =>
    obtain rfl := Option.some.inj htask
    rw [Machine.arrive, Machine.arrive, h.graph, h.limits]
    cases m.store.graph? other with
    | some g => exact ⟨h.wait rfl, rfl⟩
    | none => exact ⟨h, rfl⟩
  | count => cases htask
  | hold other mode =>
    obtain rfl := Option.some.inj htask
    simp only [Machine.arrive, h.graph]
    cases m.store.graph? other with
    | some g => exact ⟨h.wait rfl, rfl⟩
    | none =>
      cases mode with
      | shared => exact ⟨h, rfl⟩
      | exclusive => exact ⟨(h.setGraph .empty).hold id .exclusive, rfl⟩

/-- **A task that concerns another repository** leaves the share as it is. -/
theorem arrive_elsewhere (h : IsShare repo m m') {task : Task} (htask : task.elsewhere repo)
    (now : Instant) (id : ι) : IsShare repo (m.arrive now id task).1 m' := by
  obtain ⟨hgraph, hlimits⟩ := Task.alone_elsewhere htask now m.store
  have hstore : IsShare repo { m with store := (task.alone now m.store).1 } m' :=
    ⟨h.limits.trans hlimits.symm, h.graph.trans hgraph.symm, h.holds, h.pending⟩
  rcases m.arrive_cases now id task with harrive | ⟨other, rfl, -, harrive⟩ |
    ⟨other, work, hdue, harrive⟩ <;> rw [harrive]
  · exact hstore
  · exact hstore.hold_elsewhere ((Task.elsewhere_of_repo? rfl).mp htask) id .exclusive
  · exact h.wait_elsewhere ((Task.elsewhere_of_repo? hdue.draws.repo?_eq).mp htask)

variable [DecidableEq ι]

/-- **Forgetting a task** does to the share what it does to the machine. -/
theorem forget (h : IsShare repo m m') (id : ι) : IsShare repo (m.forget id) (m'.forget id) := by
  refine ⟨h.limits, h.graph, ?_, ?_⟩
  · rw [Machine.forget, Machine.forget, h.holds]
    exact List.filter_comm ..
  · rw [Machine.forget, Machine.forget, h.pending]
    exact List.filter_comm ..

/-- Forgetting what is not in the share leaves it as it is. -/
theorem forget_elsewhere (h : IsShare repo m m') {id : ι}
    (hholds : ∀ hold ∈ m.holds, hold.id = id → hold.repo ≠ repo)
    (hpending : ∀ t ∈ m.pending, t.id = id → t.repo ≠ repo) :
    IsShare repo (m.forget id) m' := by
  refine ⟨h.limits, h.graph, ?_, ?_⟩
  · rw [h.holds, Machine.forget, List.filter_filter]
    refine List.filter_congr fun hold hmem => ?_
    by_cases hid : hold.id = id <;> simp [hid, hholds hold hmem]
  · rw [h.pending, Machine.forget, List.filter_filter]
    refine List.filter_congr fun t hmem => ?_
    by_cases hid : t.id = id <;> simp [hid, hpending t hmem]

end IsShare

/-! ### Steps and runs -/

/-- **A settled machine has nobody to serve.** -/
theorem Settled.settle_eq {m : Machine ι} (h : m.Settled) (now : Instant) :
    m.settle now = (m, []) := by
  suffices ∀ line older, m.pending = older ++ line →
      { m with pending := older }.pass now line = (m, []) from this m.pending [] rfl
  intro line
  induction line with
  | nil =>
    intro older hpending
    obtain rfl : m.pending = older := hpending.trans (List.append_nil older)
    rfl
  | cons t line ih =>
    intro older hpending
    rw [Machine.pass, if_pos (h older t line hpending)]
    exact ih (older ++ [t]) (by rw [hpending, List.append_assoc]; rfl)

end Machine

/-- **The same completion**, save that counts may come to something else. -/
structure Completion.Alike (c c' : Completion ι) : Prop where
  id : c.id = c'.id
  task : c.task = c'.task
  time : c.time = c'.time
  result : c.task ≠ .count → c.result = c'.result

instance : Std.Refl (Completion.Alike (ι := ι)) :=
  ⟨fun _ => ⟨rfl, rfl, rfl, fun _ => rfl⟩⟩

namespace Machine

variable {m m' : Machine ι} {started : List (ι × Task)} [DecidableEq ι]

/-- What a name stands for: if dropping it concerns another repository, so does every task that
was started under it. -/
theorem elsewhere_of_drop {id : ι} (h : (Step.drop id).elsewhere repo started) {task : Task}
    (htask : (id, task) ∈ started) : task.elsewhere repo := by
  rw [Step.elsewhere, Bool.and_eq_true, List.all_eq_true] at h
  exact h.2 (id, task) (List.mem_filter.mpr ⟨htask, decide_eq_true rfl⟩)

/-- **A step that concerns another repository** leaves the share as it is, and completes nothing
else. -/
theorem IsShare.step_elsewhere (h : IsShare repo m m') (hlocated : m.Located started)
    (hsettled : m'.Settled) {s : Step ι} (hs : ∀ id task, s = .start id task → (id, task) ∈ started)
    (helsewhere : s.elsewhere repo started) (now : Instant) :
    IsShare repo (m.step now s).1 m' ∧
      ((m.step now s).2.filter fun c => !c.task.elsewhere repo) = [] := by
  cases s with
  | start id task =>
    have htask : task.elsewhere repo := helsewhere
    have harrive := h.arrive_elsewhere htask now id
    have hpending := (hlocated.arrive (hs id task rfl) now).pending
    obtain ⟨hshare, hdone⟩ := harrive.settle now fun t ht => (hpending t ht).2
    rw [hsettled.settle_eq] at hshare hdone
    refine ⟨hshare, ?_⟩
    rw [step]
    dsimp only
    rw [List.filter_append, ← hdone, List.append_nil, List.filter_eq_nil_iff]
    intro c hc
    obtain ⟨result, -, rfl⟩ := Option.map_eq_some_iff.mp (Option.mem_toList.mp hc)
    simpa using htask
  | drop id =>
    have hforget : IsShare repo (m.forget id) m' := by
      refine h.forget_elsewhere ?_ ?_
      · rintro hold hmem rfl
        obtain ⟨task, htask, hrepo⟩ := hlocated.holds hold hmem
        exact (Task.elsewhere_of_repo? hrepo).mp (elsewhere_of_drop helsewhere htask)
      · rintro t hmem rfl
        obtain ⟨htask, hrepo⟩ := hlocated.pending t hmem
        exact (Task.elsewhere_of_repo? hrepo).mp (elsewhere_of_drop helsewhere htask)
    obtain ⟨hshare, hdone⟩ := hforget.settle now fun t ht =>
      (hlocated.pending t (List.mem_of_mem_filter ht)).2
    rw [hsettled.settle_eq] at hshare hdone
    exact ⟨hshare, hdone.symm⟩

/-- **Any other step** does to the share what it does to the machine, and completes the same
tasks. -/
theorem IsShare.step (h : IsShare repo m m') (hlocated : m.Located started) {s : Step ι}
    (hs : ∀ id task, s = .start id task → (id, task) ∈ started)
    (hhere : ¬s.elsewhere repo started) (now : Instant) :
    IsShare repo (m.step now s).1 (m'.step now s).1 ∧
      List.Forall₂ Completion.Alike
        ((m.step now s).2.filter fun c => !c.task.elsewhere repo) (m'.step now s).2 := by
  cases s with
  | start id task =>
    rw [Machine.step, Machine.step]
    dsimp only
    rw [List.filter_append]
    have htask : ¬task.elsewhere repo := hhere
    rcases Task.repo?_of_not_elsewhere htask with rfl | hrepo
    · obtain ⟨hshare, hdone⟩ := h.settle now fun t ht => (hlocated.pending t ht).2
      refine ⟨hshare, List.rel_append (.cons ?_ .nil) (hdone ▸ List.forall₂_refl _)⟩
      exact ⟨rfl, rfl, rfl, fun hne => absurd rfl hne⟩
    · have hpending := (hlocated.arrive (hs id task rfl) now).pending
      obtain ⟨harrive, hresult⟩ := h.arrive hrepo now id
      obtain ⟨hshare, hdone⟩ := harrive.settle now fun t ht => (hpending t ht).2
      refine ⟨hshare, List.rel_append ?_ (hdone ▸ List.forall₂_refl _)⟩
      rw [hresult, List.filter_eq_self.mpr]
      · exact List.forall₂_refl _
      · intro c hc
        obtain ⟨result, -, rfl⟩ := Option.map_eq_some_iff.mp (Option.mem_toList.mp hc)
        simpa using htask
  | drop id =>
    obtain ⟨hshare, hdone⟩ := (h.forget id).settle now fun t ht =>
      (hlocated.pending t (List.mem_of_mem_filter ht)).2
    exact ⟨hshare, hdone ▸ List.forall₂_refl _⟩

/-- **The run without the steps that concern another repository** is the share of the whole
run. -/
theorem IsShare.run (h : IsShare repo m m') (hlocated : m.Located started) (hsettled : m'.Settled)
    {steps : List (Instant × Step ι)} (hsteps : startsAmong steps ⊆ started) :
    let kept := steps.filter fun e => !e.2.elsewhere repo started
    (m.run steps).1.Located started ∧ IsShare repo (m.run steps).1 (m'.run kept).1 ∧
      List.Forall₂ Completion.Alike
        ((m.run steps).2.filter fun c => !c.task.elsewhere repo) (m'.run kept).2 := by
  induction steps generalizing m m' with
  | nil => exact ⟨hlocated, h, .nil⟩
  | cons first steps ih =>
    obtain ⟨now, s⟩ := first
    have hsplit : startsAmong ((now, s) :: steps) = startsAmong [(now, s)] ++ startsAmong steps :=
      startsAmong_append [(now, s)] steps
    rw [hsplit] at hsteps
    obtain ⟨hfirst, hsteps⟩ := List.append_subset.mp hsteps
    have hs : ∀ id task, s = .start id task → (id, task) ∈ started := by
      rintro id task rfl
      exact hfirst (List.mem_singleton.mpr rfl)
    have hlocated' := hlocated.step hs now
    intro kept
    rw [Machine.run]
    dsimp only
    rw [List.filter_append]
    by_cases helsewhere : s.elsewhere repo started
    · obtain ⟨hstep, hdone⟩ := h.step_elsewhere hlocated hsettled hs helsewhere now
      have hkept : kept = steps.filter fun e => !e.2.elsewhere repo started :=
        List.filter_cons_of_neg (by simpa using helsewhere)
      rw [hkept, hdone]
      exact ih hstep hlocated' hsettled hsteps
    · obtain ⟨hstep, hdone⟩ := h.step hlocated hs helsewhere now
      have hkept : kept = (now, s) :: steps.filter fun e => !e.2.elsewhere repo started :=
        List.filter_cons_of_pos (by simpa using helsewhere)
      rw [hkept]
      obtain ⟨hlocated'', hshare, hmore⟩ := ih hstep hlocated' (settled_step m' now s) hsteps
      exact ⟨hlocated'', hshare, List.rel_append hdone hmore⟩

end Machine

/-- **Repositories do not wait for one another.** Take any run, and delete from it all steps that
concern repositories other than a given one. At every moment of what is left, the tasks that wait
for the repository are those that wait in the whole run, and so are the locks that are held on
it, and its graph. The tasks that have been completed until then are those that are completed in
the whole run, in their order, at the same times and with the same results, unless they count
repositories. -/
theorem repositories_independent [DecidableEq ι] (limits : QueryLimits) (repo : String)
    (earlier later : List (Instant × Step ι)) :
    let started := startsAmong (earlier ++ later)
    let (m, done) := (Machine.initial limits).run earlier
    let (m', done') :=
      (Machine.initial limits).run (earlier.filter fun e => !e.2.elsewhere repo started)
    m'.pending = (m.pending.filter fun t => !t.task.elsewhere repo) ∧
      m'.holds = (m.holds.filter fun hold => hold.repo = repo) ∧
      m'.store.graph? repo = m.store.graph? repo ∧
      List.Forall₂ Completion.Alike (done.filter fun c => !c.task.elsewhere repo) done' := by
  intro started
  have hinitial : Machine.IsShare repo (.initial limits : Machine ι) (.initial limits) :=
    ⟨rfl, rfl, rfl, rfl⟩
  have hlocated : (Machine.initial limits : Machine ι).Located started :=
    ⟨fun _ ht => absurd ht List.not_mem_nil, fun _ hmem => absurd hmem List.not_mem_nil⟩
  have hstarts : startsAmong earlier ⊆ started := by
    rw [show started = startsAmong earlier ++ startsAmong later from startsAmong_append ..]
    exact List.subset_append_left ..
  obtain ⟨hlocated, hshare, hdone⟩ :=
    hinitial.run hlocated (Machine.settled_initial limits) hstarts
  refine ⟨?_, hshare.holds, hshare.graph, hdone⟩
  rw [hshare.pending]
  refine List.filter_congr fun t ht => ?_
  have hrepo : t.task.elsewhere repo ↔ t.repo ≠ repo :=
    Task.elsewhere_of_repo? (hlocated.pending t ht).2
  rw [Bool.eq_iff_iff, Bool.not_eq_true', ← Bool.not_eq_true, hrepo, not_not, decide_eq_true_eq]

end Locking

end DepGraph
