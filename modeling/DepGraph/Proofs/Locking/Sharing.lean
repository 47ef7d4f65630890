import DepGraph.Locking.FirstWriters
import Mathlib.Data.List.Nodup
import Mathlib.Data.Option.Basic

/-!
# What writers that race have in common

What a writer can do in one step is said once (`DepGraph.Locking.Race.Move`); that a race stays
sound follows from it, one kind of step after the other.

A race is looked at through three functions of a writer's number: how far the writer has come
(`DepGraph.Locking.Race.progress?`), what it brought (`DepGraph.Locking.Race.load?`), and which
partition its repository stands for at the moment (`DepGraph.Locking.Race.target?`). A target is
never changed once it is there, because whoever creates a partition has seen under the same lock
that there is none.

What all races have in common is `DepGraph.Locking.Race.Sound`. The point of it is
`DepGraph.Locking.Race.Kept.mem_owners`: those who were given the lock of a partition are exactly
the writers that have it for their target and hold it or have finished. So nobody finishes
without having written to the partition that everybody else writes to.
-/

namespace DepGraph

namespace Locking

/-- **Whether a writer has come as far as its target allows**: it waits for its target only and
holds nothing else, and without a target it does not finish. -/
def Progress.Fits (target : Option Nat) : Progress → Prop
  | .arriving | .missing => True
  | .waiting p | .holding p => target = some p
  | .finished => target.isSome

theorem Progress.Fits.mono {q : Progress} {target target' : Option Nat} (h : q.Fits target)
    (htarget : ∀ {p}, target = some p → target' = some p) : q.Fits target' := by
  rcases q with _ | _ | p | p | _
  · trivial
  · trivial
  · exact htarget h
  · exact htarget h
  · obtain ⟨p, hp⟩ := Option.isSome_iff_exists.mp h
    exact Option.isSome_iff_exists.mpr ⟨p, htarget hp⟩

/-- How many steps a writer still has before it at most. -/
def Progress.left : Progress → Nat
  | .arriving => 4
  | .missing => 3
  | .waiting _ => 2
  | .holding _ => 1
  | .finished => 0

namespace Race

variable {r r' : Race} {i j p : Nat} {repo : String}

/-! ### Looking at a race -/

/-- How far a writer has come. -/
def progress? (r : Race) (i : Nat) : Option Progress := r.writers[i]?.map (·.progress)

/-- What a writer brought: its batch, and the time at which it writes. -/
def load? (r : Race) (i : Nat) : Option (Accepted × Instant) :=
  r.writers[i]?.map fun w => (w.batch, w.time)

/-- The partition that the repository of a writer stands for. -/
def target? (r : Race) (i : Nat) : Option Nat :=
  (r.load? i).bind fun load => r.registry[load.1.repoId]?

/-- The writers that were given the lock of a partition, in their order. -/
def ownersOf (r : Race) (p : Nat) : List Nat := (r.partitions[p]?.map (·.owners)).getD []

theorem progress?_progressTo (h : (r.progress? i).isSome) (q : Progress) (j : Nat) :
    (r.progressTo i q).progress? j = if i = j then some q else r.progress? j := by
  rw [progress?, Option.isSome_map] at h
  rw [progress?, progressTo, Array.getElem?_modify]
  split
  · next hij =>
    subst hij
    rw [Option.map_map]
    obtain ⟨w, hw⟩ := Option.isSome_iff_exists.mp h
    rw [hw]
    rfl
  · rfl

theorem load?_progressTo (q : Progress) (j : Nat) :
    (r.progressTo i q).load? j = r.load? j := by
  rw [load?, progressTo, Array.getElem?_modify]
  split
  · rw [Option.map_map]
    rfl
  · rfl

/-- The race with one partition more, which a repository stands for from now on. -/
def withPartition (r : Race) (repo : String) (creator : Nat) : Race :=
  { r with
    registry := r.registry.insert repo r.partitions.size
    partitions := r.partitions.push (.createdBy creator) }

/-- **What a writer does in one step**, with `w` the writer before it. -/
inductive Move (r r' : Race) (i : Nat) (w : Writer) : Prop
  /-- It finds the partition of its repository, the first or the second time it looks. -/
  | finds (p : Nat) (progress : w.progress = .arriving ∨ w.progress = .missing)
      (found : r.registry[w.batch.repoId]? = some p) (next : r' = r.progressTo i (.waiting p))
  /-- It finds nothing. -/
  | misses (progress : w.progress = .arriving)
      (absent : r.registry[w.batch.repoId]? = none) (next : r' = r.progressTo i .missing)
  /-- It finds nothing the second time either, and creates a partition that it holds. -/
  | creates (progress : w.progress = .missing)
      (absent : r.registry[w.batch.repoId]? = none)
      (next : r' = (r.withPartition w.batch.repoId i).progressTo i (.holding r.partitions.size))
  /-- It is given the lock that it waits for. -/
  | takes (p : Nat) (part : Partition) (progress : w.progress = .waiting p)
      (part_eq : r.partitions[p]? = some part) (free : part.owner = none)
      (next : r' = (r.modifyPartition p (·.givenTo i)).progressTo i (.holding p))
  /-- It writes its batch and lets go of the lock. -/
  | writes (p : Nat) (progress : w.progress = .holding p)
      (next : r' = (r.modifyPartition p (·.writtenBy w)).progressTo i .finished)

theorem exists_move (h : r.advance i = some r') :
    ∃ w, r.writers[i]? = some w ∧ r.Move r' i w := by
  rw [advance] at h
  rcases hw : r.writers[i]? with _ | w
  · rw [hw] at h
    cases h
  · refine ⟨w, rfl, ?_⟩
    rw [hw] at h
    dsimp only [bind, Option.bind] at h
    rcases hprogress : w.progress with _ | _ | p | p | _ <;> rw [hprogress] at h <;>
      dsimp only at h
    · rcases hfound : r.registry[w.batch.repoId]? with _ | p <;> rw [hfound] at h
      · exact .misses hprogress hfound (Option.some.inj h).symm
      · exact .finds p (Or.inl hprogress) hfound (Option.some.inj h).symm
    · rcases hfound : r.registry[w.batch.repoId]? with _ | p <;> rw [hfound] at h
      · exact .creates hprogress hfound (Option.some.inj h).symm
      · exact .finds p (Or.inr hprogress) hfound (Option.some.inj h).symm
    · rcases hpart : r.partitions[p]? with _ | part <;> rw [hpart] at h
      · cases h
      · dsimp only at h
        split at h
        · cases h
        · next hfree =>
          exact .takes p part hprogress hpart (by simpa using hfree) (Option.some.inj h).symm
    · exact .writes p hprogress (Option.some.inj h).symm
    · cases h

/-- **Whoever moves comes further**, and nobody else does. -/
theorem Move.exists_progressTo {w : Writer} (h : r.Move r' i w) :
    ∃ (r₁ : Race) (q : Progress),
      r' = r₁.progressTo i q ∧ r₁.writers = r.writers ∧ q.left < w.progress.left := by
  cases h with
  | finds p progress found next =>
    refine ⟨r, .waiting p, next, rfl, ?_⟩
    rcases progress with progress | progress <;> rw [progress]
    · show 2 < 4
      decide
    · show 2 < 3
      decide
  | misses progress absent next =>
    refine ⟨r, .missing, next, rfl, ?_⟩
    rw [progress]
    show 3 < 4
    decide
  | creates progress absent next =>
    refine ⟨_, _, next, rfl, ?_⟩
    rw [progress]
    show 1 < 3
    decide
  | takes p part progress part_eq free next =>
    refine ⟨_, _, next, rfl, ?_⟩
    rw [progress]
    show 1 < 2
    decide
  | writes p progress next =>
    refine ⟨_, _, next, rfl, ?_⟩
    rw [progress]
    show 0 < 1
    decide

/-! ### What is never undone -/

theorem registry_withPartition (repo repo' : String) (i : Nat) :
    (r.withPartition repo i).registry[repo']? =
      if repo = repo' then some r.partitions.size else r.registry[repo']? := by
  rw [withPartition, Std.HashMap.getElem?_insert]
  simp only [beq_iff_eq]

theorem partitions_withPartition (repo : String) (i p : Nat) :
    (r.withPartition repo i).partitions[p]? =
      if p = r.partitions.size then some (.createdBy i) else r.partitions[p]? :=
  Array.getElem?_push

/-- A new partition becomes nobody's target but of those that have none. -/
theorem target?_withPartition_iff (habsent : r.registry[repo]? = none)
    (hp : p ≠ r.partitions.size) :
    (r.withPartition repo i).target? j = some p ↔ r.target? j = some p := by
  rw [target?, target?]
  change ((r.load? j).bind fun load => (r.withPartition repo i).registry[load.1.repoId]?) = _ ↔ _
  rcases r.load? j with _ | load
  · rfl
  · rw [Option.bind_some, Option.bind_some, registry_withPartition]
    split
    · next hsame =>
      rw [← hsame, habsent]
      exact iff_of_false (fun he => hp (Option.some.inj he).symm) nofun
    · rfl

theorem target?_progressTo (q : Progress) (j : Nat) :
    (r.progressTo i q).target? j = r.target? j := by
  rw [target?, load?_progressTo]
  rfl

/-- Nobody changes what writers brought. -/
theorem load?_advance (h : r.advance i = some r') (j : Nat) : r'.load? j = r.load? j := by
  obtain ⟨w, -, hmove⟩ := exists_move h
  obtain ⟨r₁, q, rfl, hwriters, -⟩ := hmove.exists_progressTo
  rw [load?_progressTo, load?, load?, hwriters]

/-- **What a repository stands for is never changed.** -/
theorem registry_advance (h : r.advance i = some r') (hrepo : r.registry[repo]? = some p) :
    r'.registry[repo]? = some p := by
  obtain ⟨w, -, hmove⟩ := exists_move h
  cases hmove with
  | finds _ _ _ next | misses _ _ next | takes _ _ _ _ _ next | writes _ _ next =>
    rw [next]
    exact hrepo
  | creates progress absent next =>
    rw [next]
    change (r.withPartition w.batch.repoId i).registry[repo]? = some p
    rw [registry_withPartition, if_neg, hrepo]
    -- the repository whose partition is created stood for nothing
    rintro rfl
    rw [hrepo] at absent
    cases absent

/-! ### What all races have in common -/

/-- **Whether a writer has been let in** to a partition: it is the target of the writer, who
holds it or has finished. -/
def Admits (r : Race) (p i : Nat) : Prop :=
  r.target? i = some p ∧ (r.progress? i = some (.holding p) ∨ r.progress? i = some .finished)

/-- What batches leave of an empty graph when they are written in their order. -/
def written (loads : List (Accepted × Instant)) : RepoGraph :=
  loads.foldl (fun g load => (load.1.apply load.2 g).1) .empty

/-- **A partition that is in order.** -/
structure Kept (r : Race) (p : Nat) (part : Partition) : Prop where
  /-- Its owner is the one who believes to hold it. -/
  owner_iff : ∀ i, part.owner = some i ↔ r.progress? i = some (.holding p)
  /-- Those who were given the lock have been let in. -/
  mem_owners : ∀ i, i ∈ part.owners ↔ r.Admits p i
  /-- Nobody was given the lock twice. -/
  nodup : part.owners.Nodup
  /-- Somebody was, at least the creator. -/
  owners_ne_nil : part.owners ≠ []
  /-- The graph consists of what all of them have written except for the present owner, who is
  the last. -/
  written : ∃ before, part.owners = before ++ part.owner.toList ∧
    part.graph = written (before.filterMap r.load?)

/-- **A race in which nothing is lost.** -/
structure Sound (r : Race) : Prop where
  /-- What a repository stands for exists. -/
  registered : ∀ {repo : String} {p : Nat}, r.registry[repo]? = some p → p < r.partitions.size
  /-- No two repositories stand for the same. -/
  apart : ∀ {repo repo' : String} {p : Nat}, r.registry[repo]? = some p →
    r.registry[repo']? = some p → repo = repo'
  /-- Nobody has come further than its repository. -/
  fits : ∀ {i q}, r.progress? i = some q → q.Fits (r.target? i)
  kept : ∀ {p part}, r.partitions[p]? = some part → r.Kept p part

theorem target?_of_writer {w : Writer} (hw : r.writers[i]? = some w) :
    r.target? i = r.registry[w.batch.repoId]? := by
  rw [target?, load?, hw]
  rfl

theorem progress?_of_writer {w : Writer} (hw : r.writers[i]? = some w) :
    r.progress? i = some w.progress := by
  rw [progress?, hw]
  rfl

/-- Who moves on keeps out of `x` if it was not there and is not going there. -/
theorem progress?_progressTo_iff {q₀ q x : Progress} (hi : r.progress? i = some q₀) (h₀ : q₀ ≠ x)
    (hq : q ≠ x) : (r.progressTo i q).progress? j = some x ↔ r.progress? j = some x := by
  rw [progress?_progressTo (by rw [hi]; rfl)]
  split
  · next hij =>
    subst hij
    rw [hi, Option.some.injEq, Option.some.injEq]
    exact iff_of_false hq h₀
  · rfl

/-- Everybody has still not come too far after somebody has moved on within the limits. -/
theorem fits_progressTo (h : ∀ {j q}, r.progress? j = some q → q.Fits (r.target? j))
    (hi : (r.progress? i).isSome) {q : Progress} (hq : q.Fits (r.target? i)) {j : Nat}
    {q' : Progress} (hj : (r.progressTo i q).progress? j = some q') :
    q'.Fits ((r.progressTo i q).target? j) := by
  rw [target?_progressTo]
  rw [progress?_progressTo hi] at hj
  split at hj
  · next hij =>
    cases hj
    rwa [← hij]
  · exact h hj

namespace Kept

variable {part : Partition}

/-- A partition stays in order if nobody comes in or goes out. -/
theorem congr (h : r.Kept p part)
    (hholds : ∀ j, r'.progress? j = some (.holding p) ↔ r.progress? j = some (.holding p))
    (hadmits : ∀ j, r'.Admits p j ↔ r.Admits p j) (hload : ∀ j, r'.load? j = r.load? j) :
    r'.Kept p part where
  owner_iff i := (h.owner_iff i).trans (hholds i).symm
  mem_owners i := (h.mem_owners i).trans (hadmits i).symm
  nodup := h.nodup
  owners_ne_nil := h.owners_ne_nil
  written := by
    rw [funext hload]
    exact h.written

/-- A partition does not mind the other partitions. -/
theorem modifyPartition (h : r.Kept p part) (p' : Nat) (f : Partition → Partition) :
    (r.modifyPartition p' f).Kept p part :=
  h.congr (fun _ => Iff.rfl) (fun _ => Iff.rfl) fun _ => rfl

/-- Somebody moves on who has nothing to do with the partition. -/
theorem progressTo (h : r.Kept p part) {q₀ q : Progress} (hi : r.progress? i = some q₀)
    (h₀ : q₀ ≠ .holding p) (hq : q ≠ .holding p)
    (hdone : r.target? i = some p → q₀ ≠ .finished ∧ q ≠ .finished) :
    (r.progressTo i q).Kept p part := by
  refine h.congr (fun j => progress?_progressTo_iff hi h₀ hq) (fun j => ?_) (load?_progressTo q)
  rw [Admits, Admits, target?_progressTo]
  refine and_congr_right fun hj => or_congr (progress?_progressTo_iff hi h₀ hq) ?_
  by_cases hij : i = j
  · subst hij
    exact progress?_progressTo_iff hi (hdone hj).1 (hdone hj).2
  · rw [progress?_progressTo (by rw [hi]; rfl), if_neg hij]

/-- The lock is given to somebody who waits for it. -/
theorem givenTo (h : r.Kept p part) (hfree : part.owner = none)
    (hi : r.progress? i = some (.waiting p)) (htarget : r.target? i = some p) :
    (r.progressTo i (.holding p)).Kept p (part.givenTo i) := by
  have howner : ∀ j, (r.progressTo i (.holding p)).progress? j = some (.holding p) ↔ i = j := by
    intro j
    rw [progress?_progressTo (by rw [hi]; rfl)]
    split
    · next hij => exact iff_of_true rfl hij
    · next hij =>
      rw [← h.owner_iff, hfree]
      exact iff_of_false nofun hij
  refine ⟨fun j => Option.some_inj.trans (howner j).symm, fun j => ?_, ?_,
    List.append_ne_nil_of_right_ne_nil _ (List.cons_ne_nil i []), part.owners, rfl, ?_⟩
  · change j ∈ part.owners ++ [i] ↔ _
    rw [List.mem_append, List.mem_singleton, h.mem_owners, Admits, Admits, target?_progressTo,
      howner, progress?_progressTo_iff hi (by nofun) (by nofun), ← h.owner_iff, hfree]
    constructor
    · rintro (⟨hj, hheld | hdone⟩ | rfl)
      · cases hheld
      · exact ⟨hj, Or.inr hdone⟩
      · exact ⟨htarget, Or.inl rfl⟩
    · rintro ⟨hj, rfl | hdone⟩
      · exact Or.inr rfl
      · exact Or.inl ⟨hj, Or.inr hdone⟩
  · refine List.Nodup.append h.nodup (List.nodup_singleton i) ?_
    rw [List.disjoint_singleton, h.mem_owners, Admits, hi]
    rintro ⟨-, hi | hi⟩ <;> cases hi
  · obtain ⟨before, howners, hgraph⟩ := h.written
    rw [hfree, Option.toList_none, List.append_nil] at howners
    rw [howners, funext (load?_progressTo _)]
    exact hgraph

/-- The owner writes its batch and lets go. -/
theorem writtenBy (h : r.Kept p part) {w : Writer} (hw : r.writers[i]? = some w)
    (hi : r.progress? i = some (.holding p)) (htarget : r.target? i = some p) :
    (r.progressTo i .finished).Kept p (part.writtenBy w) := by
  have howner : part.owner = some i := (h.owner_iff i).mpr hi
  refine ⟨fun j => iff_of_false nofun ?_, fun j => ?_, h.nodup, h.owners_ne_nil, part.owners,
    (List.append_nil _).symm, ?_⟩
  · rw [progress?_progressTo (by rw [hi]; rfl)]
    split
    · nofun
    · next hij =>
      rw [← h.owner_iff, howner]
      exact fun he => hij (Option.some.inj he)
  · change j ∈ part.owners ↔ _
    rw [h.mem_owners, Admits, Admits, target?_progressTo, progress?_progressTo (by rw [hi]; rfl)]
    split
    · next hij =>
      subst hij
      exact iff_of_true ⟨htarget, Or.inl hi⟩ ⟨htarget, Or.inr rfl⟩
    · rfl
  · obtain ⟨before, howners, hgraph⟩ := h.written
    have hload : [i].filterMap r.load? = [(w.batch, w.time)] := by
      rw [List.filterMap_cons_some (b := (w.batch, w.time)), List.filterMap_nil]
      rw [load?, hw]
      rfl
    rw [howners, howner, funext (load?_progressTo _), Option.toList_some, List.filterMap_append,
      hload, Race.written, List.foldl_append]
    rw [Race.written] at hgraph
    rw [← hgraph]
    rfl

/-- A partition into which nobody has been let is created by somebody who holds it at once. -/
theorem createdBy (hfits : ∀ {j q}, r.progress? j = some q → q.Fits (r.target? j))
    (hnobody : ∀ j, ¬ r.Admits p j) (hi : r.progress? i = some .missing)
    (htarget : r.target? i = some p) : (r.progressTo i (.holding p)).Kept p (.createdBy i) := by
  have howner : ∀ j, (r.progressTo i (.holding p)).progress? j = some (.holding p) ↔ i = j := by
    intro j
    rw [progress?_progressTo (by rw [hi]; rfl)]
    split
    · next hij => exact iff_of_true rfl hij
    · next hij => exact iff_of_false (fun hj => hnobody j ⟨hfits hj, Or.inl hj⟩) hij
  refine ⟨fun j => Option.some_inj.trans (howner j).symm, fun j => ?_, List.nodup_singleton i,
    List.cons_ne_nil i [], [], rfl, rfl⟩
  rw [Partition.createdBy, List.mem_singleton, Admits, target?_progressTo, howner,
    progress?_progressTo_iff hi (by nofun) (by nofun)]
  constructor
  · rintro rfl
    exact ⟨htarget, Or.inl rfl⟩
  · rintro ⟨hj, rfl | hdone⟩
    · rfl
    · exact absurd ⟨hj, Or.inr hdone⟩ (hnobody j)

end Kept

namespace Sound

theorem target?_ne_size (h : r.Sound) (htarget : r.target? i = some p) :
    p ≠ r.partitions.size := by
  obtain ⟨load, -, hrepo⟩ := Option.bind_eq_some_iff.mp htarget
  exact Nat.ne_of_lt (h.registered hrepo)

theorem exists_part_of_registered (h : r.Sound) (hrepo : r.registry[repo]? = some p) :
    ∃ part, r.partitions[p]? = some part :=
  ⟨_, Array.getElem?_eq_getElem (h.registered hrepo)⟩

theorem exists_part_of_target (h : r.Sound) (htarget : r.target? i = some p) :
    ∃ part, r.partitions[p]? = some part := by
  obtain ⟨load, -, hrepo⟩ := Option.bind_eq_some_iff.mp htarget
  exact h.exists_part_of_registered hrepo

theorem start (batches : List (Accepted × Instant)) : (Race.start batches).Sound := by
  have hregistry : ∀ repo : String, (Race.start batches).registry[repo]? = none :=
    fun repo => Std.HashMap.getElem?_empty
  refine ⟨?_, ?_, ?_, nofun⟩
  · intro repo p hp
    rw [hregistry] at hp
    cases hp
  · intro repo repo' p hp
    rw [hregistry] at hp
    cases hp
  · intro i q hq
    simp only [progress?, Race.start, List.getElem?_toArray, List.getElem?_map, Option.map_map,
      Option.map_eq_some_iff] at hq
    obtain ⟨load, -, rfl⟩ := hq
    trivial

/-- A writer that looks its repository up disturbs nobody. -/
theorem looks (h : r.Sound) {q₀ q : Progress} (hi : r.progress? i = some q₀)
    (h₀ : q₀ = .arriving ∨ q₀ = .missing)
    (hq : q = .missing ∨ ∃ p, q = .waiting p ∧ r.target? i = some p) :
    (r.progressTo i q).Sound := by
  refine ⟨h.registered, h.apart, fits_progressTo h.fits (by rw [hi]; rfl) ?_, fun hpart => ?_⟩
  · rcases hq with rfl | ⟨p, rfl, htarget⟩
    · trivial
    · exact htarget
  · refine (h.kept hpart).progressTo hi ?_ ?_ fun _ => ⟨?_, ?_⟩
    · rcases h₀ with rfl | rfl <;> nofun
    · rcases hq with rfl | ⟨p, rfl, -⟩ <;> nofun
    · rcases h₀ with rfl | rfl <;> nofun
    · rcases hq with rfl | ⟨p, rfl, -⟩ <;> nofun

/-- A writer that finds no partition creates one. -/
theorem creates (h : r.Sound) {w : Writer} (hw : r.writers[i]? = some w)
    (hmissing : r.progress? i = some .missing) (habsent : r.registry[w.batch.repoId]? = none) :
    ((r.withPartition w.batch.repoId i).progressTo i (.holding r.partitions.size)).Sound := by
  set r₁ := r.withPartition w.batch.repoId i with hr₁
  set n := r.partitions.size with hn
  have htarget : ∀ {j p}, r.target? j = some p → r₁.target? j = some p := fun hp =>
    (target?_withPartition_iff habsent (h.target?_ne_size hp)).mpr hp
  have htarget_i : r₁.target? i = some n := by
    rw [target?_of_writer (r := r₁) hw, hr₁, registry_withPartition, if_pos rfl]
  have hfits : ∀ {j q}, r₁.progress? j = some q → q.Fits (r₁.target? j) := by
    intro j q hj
    exact (h.fits hj).mono htarget
  have hnobody : ∀ j, ¬ r₁.Admits n j := by
    rintro j ⟨hj, hheld | hdone⟩
    · exact h.target?_ne_size (h.fits hheld) rfl
    · obtain ⟨p, hp⟩ := Option.isSome_iff_exists.mp (h.fits hdone)
      rw [htarget hp] at hj
      exact h.target?_ne_size hp (Option.some.inj hj)
  refine ⟨?_, ?_, fits_progressTo (q := .holding n) hfits
    (Option.isSome_iff_exists.mpr ⟨_, hmissing⟩) htarget_i, ?_⟩
  · intro repo p hp
    change r₁.registry[repo]? = some p at hp
    have hsize : r₁.partitions.size = n + 1 := Array.size_push _
    change p < r₁.partitions.size
    rw [hr₁, registry_withPartition] at hp
    split at hp
    · cases hp
      omega
    · have := h.registered hp
      omega
  · intro repo repo' p hp hp'
    change r₁.registry[repo]? = some p at hp
    change r₁.registry[repo']? = some p at hp'
    rw [hr₁, registry_withPartition] at hp hp'
    split at hp <;> split at hp'
    · next hrepo hrepo' => exact hrepo.symm.trans hrepo'
    · cases hp
      exact absurd (h.registered hp') (Nat.lt_irrefl n)
    · cases hp'
      exact absurd (h.registered hp) (Nat.lt_irrefl n)
    · exact h.apart hp hp'
  · intro p part hpart
    change r₁.partitions[p]? = some part at hpart
    rw [hr₁, partitions_withPartition] at hpart
    split at hpart
    · next hp =>
      subst hp
      cases hpart
      exact Kept.createdBy hfits hnobody hmissing htarget_i
    · next hp =>
      have hkept : r₁.Kept p part := (h.kept hpart).congr (fun _ => Iff.rfl)
        (fun j => and_congr_left fun _ => target?_withPartition_iff habsent hp) fun _ => rfl
      refine hkept.progressTo hmissing (by nofun) ?_ fun _ => ⟨by nofun, by nofun⟩
      exact fun he => hp (Progress.holding.inj he).symm

/-- The writer who may change a partition changes it and moves on. -/
theorem modifies (h : r.Sound) {q₀ q : Progress} {f : Partition → Partition}
    (hi : r.progress? i = some q₀) (htarget : r.target? i = some p)
    (h₀ : q₀ = .waiting p ∨ q₀ = .holding p) (hq : q = .holding p ∨ q = .finished)
    (hkept : ∀ {part}, r.partitions[p]? = some part → (r.progressTo i q).Kept p (f part)) :
    ((r.modifyPartition p f).progressTo i q).Sound := by
  have hisSome : (r.progress? i).isSome := by
    rw [hi]
    rfl
  refine ⟨fun hp => ?_, h.apart, fits_progressTo (r := r.modifyPartition p f) h.fits hisSome ?_,
    fun {p' part'} hpart' => ?_⟩
  · exact Nat.lt_of_lt_of_eq (h.registered hp) Array.size_modify.symm
  · change q.Fits (r.target? i)
    rcases hq with rfl | rfl
    · exact htarget
    · exact Option.isSome_iff_exists.mpr ⟨p, htarget⟩
  · change (r.partitions.modify p f)[p']? = some part' at hpart'
    suffices hstill : (r.progressTo i q).Kept p' part' from
      hstill.modifyPartition p f
    rw [Array.getElem?_modify] at hpart'
    split at hpart'
    · next hp =>
      subst hp
      obtain ⟨part, hpart, rfl⟩ := Option.map_eq_some_iff.mp hpart'
      exact hkept hpart
    · next hp =>
      refine (h.kept hpart').progressTo hi ?_ ?_ fun htarget' => ?_
      · rcases h₀ with rfl | rfl
        · nofun
        · exact fun he => hp (Progress.holding.inj he)
      · rcases hq with rfl | rfl
        · exact fun he => hp (Progress.holding.inj he)
        · nofun
      · rw [htarget] at htarget'
        exact absurd (Option.some.inj htarget') hp

theorem advance (h : r.Sound) (hnext : r.advance i = some r') : r'.Sound := by
  obtain ⟨w, hw, hmove⟩ := exists_move hnext
  have hi : r.progress? i = some w.progress := progress?_of_writer hw
  cases hmove with
  | finds p progress found next =>
    rw [next]
    exact h.looks hi progress (Or.inr ⟨p, rfl, (target?_of_writer hw).trans found⟩)
  | misses progress absent next =>
    rw [next]
    exact h.looks hi (Or.inl progress) (Or.inl rfl)
  | creates progress absent next =>
    rw [next]
    rw [progress] at hi
    exact h.creates hw hi absent
  | takes p part progress part_eq free next =>
    rw [next]
    rw [progress] at hi
    have htarget : r.target? i = some p := h.fits hi
    refine h.modifies hi htarget (Or.inl rfl) (Or.inl rfl) fun hpart => ?_
    rw [part_eq] at hpart
    cases hpart
    exact (h.kept part_eq).givenTo free hi htarget
  | writes p progress next =>
    rw [next]
    rw [progress] at hi
    have htarget : r.target? i = some p := h.fits hi
    exact h.modifies hi htarget (Or.inr rfl) (Or.inr rfl) fun hpart =>
      (h.kept hpart).writtenBy hw hi htarget

end Sound

end Race

end Locking

end DepGraph
