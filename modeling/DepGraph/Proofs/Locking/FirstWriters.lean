import DepGraph.Proofs.Locking.Sharing
import Mathlib.Algebra.GroupWithZero.Nat

/-!
# Writers that race share a partition

However the steps of writers are interleaved, those who write to one repository end up writing to
one partition, one after the other (`DepGraph.Locking.Race.first_writers_share`).

In which order they do is read off the moves: whoever comes to hold a partition when it moves has
acquired it (`DepGraph.Locking.Race.acquired`). The partition notes the same
(`DepGraph.Locking.Race.ownersOf_run`), and what it notes is what its graph consists of.
-/

namespace DepGraph

namespace Locking

/-- Changing one number of a sum. -/
theorem sum_map_modify {α : Type} (g : α → Nat) (f : α → α) {x : α} :
    ∀ {xs : List α} {i : Nat}, xs[i]? = some x →
      ((xs.modify i f).map g).sum + g x = (xs.map g).sum + g (f x)
  | [], _, h => by cases h
  | y :: xs, 0, h => by
    cases h
    simp only [List.modify_zero_cons, List.map_cons, List.sum_cons]
    omega
  | y :: xs, i + 1, h => by
    have ih : ((xs.modify i f).map g).sum + g x = (xs.map g).sum + g (f x) :=
      sum_map_modify g f h
    simp only [List.modify_succ_cons, List.map_cons, List.sum_cons]
    omega

namespace Race

variable {r r' : Race} {i p : Nat} {repo : String}

/-! ### From one step to a whole race -/

/-- What no step destroys is there after any number of them. -/
theorem run_induction {P : Race → Prop}
    (hstep : ∀ {r r' : Race} {i : Nat}, P r → r.advance i = some r' → P r') (h : P r)
    (moves : List Nat) : P (r.run moves) := by
  induction moves generalizing r with
  | nil => exact h
  | cons i moves ih =>
    refine ih (r := (r.advance i).getD r) ?_
    rcases hnext : r.advance i with _ | r'
    · exact h
    · exact hstep h hnext

theorem Sound.run (h : r.Sound) (moves : List Nat) : (r.run moves).Sound :=
  run_induction (fun hr hnext => hr.advance hnext) h moves

theorem registry_run (hrepo : r.registry[repo]? = some p) (moves : List Nat) :
    (r.run moves).registry[repo]? = some p :=
  run_induction (P := fun r => r.registry[repo]? = some p)
    (fun hr hnext => registry_advance hnext hr) hrepo moves

theorem load?_run (moves : List Nat) (i : Nat) : (r.run moves).load? i = r.load? i :=
  run_induction (P := fun r' => r'.load? i = r.load? i)
    (fun hr hnext => (load?_advance hnext i).trans hr) rfl moves

theorem load?_start (batches : List (Accepted × Instant)) (i : Nat) :
    (start batches).load? i = batches[i]? := by
  simp only [load?, start, List.getElem?_toArray, List.getElem?_map, Option.map_map]
  exact congrFun Option.map_id _

/-- The writers that come to hold a partition while some moves are made, in their order. -/
def acquired (p : Nat) : Race → List Nat → List Nat
  | _, [] => []
  | r, i :: moves =>
    let r' := (r.advance i).getD r
    if r.progress? i ≠ r'.progress? i ∧ r'.progress? i = some (.holding p) then
      i :: acquired p r' moves
    else acquired p r' moves

theorem ownersOf_modifyPartition (p p' : Nat) (f : Partition → Partition) :
    (r.modifyPartition p f).ownersOf p' =
      if p = p' then (r.partitions[p]?.map fun part => (f part).owners).getD []
      else r.ownersOf p' := by
  rw [ownersOf, modifyPartition, Array.getElem?_modify]
  split
  · next hp =>
    subst hp
    rw [Option.map_map]
    rfl
  · rfl

/-- Whoever comes to hold a partition is noted by it. -/
theorem ownersOf_advance (hnext : r.advance i = some r') (p : Nat) :
    r'.ownersOf p = r.ownersOf p ++
      if r.progress? i ≠ r'.progress? i ∧ r'.progress? i = some (.holding p) then [i] else [] := by
  obtain ⟨w, hw, hmove⟩ := exists_move hnext
  have hi : r.progress? i = some w.progress := progress?_of_writer hw
  have hself : ∀ q, (r.progressTo i q).progress? i = some q := by
    intro q
    rw [progress?_progressTo (by rw [hi]; rfl), if_pos rfl]
  cases hmove with
  | finds _ progress found next | misses progress absent next =>
    rw [next, hself, if_neg (by nofun), List.append_nil]
    rfl
  | creates progress absent next =>
    have hlast : r'.progress? i = some (.holding r.partitions.size) := by
      rw [next]
      exact hself _
    have howners : r'.ownersOf p = if p = r.partitions.size then [i] else r.ownersOf p := by
      rw [next, ownersOf]
      change ((r.withPartition w.batch.repoId i).partitions[p]?.map _).getD [] = _
      rw [partitions_withPartition]
      split <;> rfl
    rw [howners, hlast, hi, progress]
    split
    · next hp =>
      subst hp
      rw [if_pos ⟨by nofun, rfl⟩, ownersOf, Array.getElem?_eq_none (Nat.le_refl _)]
      rfl
    · next hp =>
      rw [if_neg fun h => hp (Progress.holding.inj (Option.some.inj h.2)).symm, List.append_nil]
  | takes p' part progress part_eq free next =>
    have hlast : r'.progress? i = some (.holding p') := by
      rw [next]
      exact hself _
    have howners : r'.ownersOf p = if p' = p then part.owners ++ [i] else r.ownersOf p := by
      rw [next]
      change (r.modifyPartition p' _).ownersOf p = _
      rw [ownersOf_modifyPartition, part_eq]
      rfl
    rw [howners, hlast, hi, progress]
    split
    · next hp =>
      subst hp
      rw [if_pos ⟨by nofun, rfl⟩, ownersOf, part_eq]
      rfl
    · next hp =>
      rw [if_neg fun h => hp (Progress.holding.inj (Option.some.inj h.2)), List.append_nil]
  | writes p' progress next =>
    have hlast : r'.progress? i = some .finished := by
      rw [next]
      exact hself _
    rw [hlast, if_neg (by nofun), List.append_nil, next]
    change (r.modifyPartition p' _).ownersOf p = _
    rw [ownersOf_modifyPartition]
    split
    · next hp =>
      subst hp
      rfl
    · rfl

theorem ownersOf_run (p : Nat) (moves : List Nat) :
    (r.run moves).ownersOf p = r.ownersOf p ++ acquired p r moves := by
  induction moves generalizing r with
  | nil => exact (List.append_nil _).symm
  | cons i moves ih =>
    change (((r.advance i).getD r).run moves).ownersOf p = _
    rw [ih, acquired]
    rcases hnext : r.advance i with _ | r'
    · dsimp only [Option.getD_none]
      rw [if_neg fun h => h.1 rfl]
    · dsimp only [Option.getD_some]
      rw [ownersOf_advance hnext, List.append_assoc]
      split <;> rfl

/-! ### Every race can be finished -/

/-- How many steps all writers together still have before them at most. -/
def left (r : Race) : Nat := (r.writers.toList.map (·.progress.left)).sum

theorem left_progressTo {q₀ : Progress} (hi : r.progress? i = some q₀) (q : Progress) :
    (r.progressTo i q).left + q₀.left = r.left + q.left := by
  obtain ⟨w, hw, rfl⟩ := Option.map_eq_some_iff.mp hi
  rw [← Array.getElem?_toList] at hw
  rw [left, left, progressTo, Array.toList_modify]
  exact sum_map_modify (·.progress.left) (fun w => { w with progress := q }) hw

/-- Every step is one step less. -/
theorem left_advance (hnext : r.advance i = some r') : r'.left < r.left := by
  obtain ⟨w, hw, hmove⟩ := exists_move hnext
  obtain ⟨r₁, q, rfl, hwriters, hlt⟩ := hmove.exists_progressTo
  have hi : r₁.progress? i = some w.progress := by
    rw [progress?, hwriters]
    exact progress?_of_writer hw
  have hleft := left_progressTo hi q
  have hsame : r₁.left = r.left := by rw [left, left, hwriters]
  omega

/-- Who has not found a partition can go on. -/
theorem advance_isSome_of_looks {w : Writer} (hw : r.writers[i]? = some w)
    (hq : w.progress = .arriving ∨ w.progress = .missing) : (r.advance i).isSome := by
  rw [advance, hw]
  dsimp only [bind, Option.bind]
  rcases hq with hq | hq <;> rw [hq] <;> dsimp only <;> split <;> rfl

/-- Who waits for a partition that nobody holds can go on. -/
theorem advance_isSome_of_waits {part : Partition} (hi : r.progress? i = some (.waiting p))
    (hpart : r.partitions[p]? = some part) (hfree : part.owner = none) :
    (r.advance i).isSome := by
  obtain ⟨w, hw, hq⟩ := Option.map_eq_some_iff.mp hi
  rw [advance, hw]
  dsimp only [bind, Option.bind]
  rw [hq]
  dsimp only
  rw [hpart]
  dsimp only
  rw [hfree]
  rfl

/-- Who holds a partition can go on. -/
theorem advance_isSome_of_holds (hi : r.progress? i = some (.holding p)) :
    (r.advance i).isSome := by
  obtain ⟨w, hw, hq⟩ := Option.map_eq_some_iff.mp hi
  rw [advance, hw]
  dsimp only [bind, Option.bind]
  rw [hq]
  rfl

/-- **Nobody waits in vain**: unless all have finished, somebody can go on, the owner of a
partition if nobody else. -/
theorem Sound.exists_advance (h : r.Sound) (hr : r.finished = false) :
    ∃ i, (r.advance i).isSome := by
  obtain ⟨i, hlt, hprogress⟩ := Array.all_eq_false.mp hr
  have hw : r.writers[i]? = some r.writers[i] := Array.getElem?_eq_getElem hlt
  have hi : r.progress? i = some r.writers[i].progress := progress?_of_writer hw
  rcases hq : r.writers[i].progress with _ | _ | p | p | _
  · exact ⟨i, advance_isSome_of_looks hw (Or.inl hq)⟩
  · exact ⟨i, advance_isSome_of_looks hw (Or.inr hq)⟩
  · rw [hq] at hi
    obtain ⟨part, hpart⟩ := h.exists_part_of_target (h.fits hi)
    rcases howner : part.owner with _ | j
    · exact ⟨i, advance_isSome_of_waits hi hpart howner⟩
    · exact ⟨j, advance_isSome_of_holds (((h.kept hpart).owner_iff j).mp howner)⟩
  · rw [hq] at hi
    exact ⟨i, advance_isSome_of_holds hi⟩
  · rw [hq] at hprogress
    exact absurd rfl hprogress

theorem Sound.exists_finished (h : r.Sound) : ∃ moves, (r.run moves).finished = true := by
  induction hleft : r.left using Nat.strongRecOn generalizing r with
  | ind n ih =>
    rcases hr : r.finished with _ | _
    · obtain ⟨i, hi⟩ := h.exists_advance hr
      obtain ⟨r', hnext⟩ := Option.isSome_iff_exists.mp hi
      obtain ⟨moves, hmoves⟩ := ih r'.left (hleft ▸ left_advance hnext) (h.advance hnext) rfl
      refine ⟨i :: moves, ?_⟩
      rw [Race.run, List.foldl_cons, hnext]
      exact hmoves
    · exact ⟨[], hr⟩

/-! ### The result of a race -/

theorem eq_finished_of_finished (hr : r.finished = true) {q : Progress}
    (hi : r.progress? i = some q) : q = .finished := by
  obtain ⟨w, hw, rfl⟩ := Option.map_eq_some_iff.mp hi
  obtain ⟨hlt, rfl⟩ := Array.getElem?_eq_some_iff.mp hw
  exact of_decide_eq_true (Array.all_eq_true.mp hr i hlt)

/-- Who has finished was let in to the partition of its repository. -/
theorem Sound.admits_iff_of_finished (h : r.Sound) (hr : r.finished = true)
    (hp : r.registry[repo]? = some p) :
    r.Admits p i ↔ ∃ load, r.load? i = some load ∧ load.1.repoId = repo := by
  constructor
  · rintro ⟨htarget, -⟩
    obtain ⟨load, hload, hrepo⟩ := Option.bind_eq_some_iff.mp htarget
    exact ⟨load, hload, h.apart hrepo hp⟩
  · rintro ⟨load, hload, rfl⟩
    refine ⟨Option.bind_eq_some_iff.mpr ⟨load, hload, hp⟩, Or.inr ?_⟩
    obtain ⟨w, hw, -⟩ := Option.map_eq_some_iff.mp hload
    rw [progress?_of_writer hw, eq_finished_of_finished hr (progress?_of_writer hw)]

/-- **A partition at the end**: nobody holds it, and everybody who brought a batch for its
repository has written it. -/
theorem Sound.part_of_finished (h : r.Sound) (hr : r.finished = true)
    (hp : r.registry[repo]? = some p) {part : Partition} (hpart : r.partitions[p]? = some part) :
    part.owner = none ∧
      (∀ i, i ∈ part.owners ↔ ∃ load, r.load? i = some load ∧ load.1.repoId = repo) ∧
      part.graph = written (part.owners.filterMap r.load?) := by
  have hkept := h.kept hpart
  have hfree : part.owner = none := by
    rcases howner : part.owner with _ | i
    · rfl
    · cases eq_finished_of_finished hr ((hkept.owner_iff i).mp howner)
  refine ⟨hfree, fun i => (hkept.mem_owners i).trans (h.admits_iff_of_finished hr hp), ?_⟩
  obtain ⟨before, howners, hgraph⟩ := hkept.written
  rw [hfree, Option.toList_none, List.append_nil] at howners
  rwa [howners]

/-- **Writers that race share partitions and lose nothing.** Let any number of writers, each with
a batch, make their steps in any order. Then

* the partition that a repository stands for is never replaced;
* a partition is held by at most one writer;
* the race can be brought to its end;
* at the end, exactly those repositories have a partition that somebody brought a batch for,
  nobody holds it, and its graph is what all batches for the repository leave, each of them once,
  in the order in which their writers came to hold the partition. -/
theorem first_writers_share (batches : List (Accepted × Instant)) (moves : List Nat) :
    let r := (start batches).run moves
    (∀ (more : List Nat) (repo : String) (p : Nat), r.registry[repo]? = some p →
      (r.run more).registry[repo]? = some p) ∧
    (∀ p i j : Nat, r.progress? i = some (.holding p) → r.progress? j = some (.holding p) →
      i = j) ∧
    (∃ more : List Nat, (r.run more).finished = true) ∧
    (r.finished = true → ∀ repo : String,
      (r.registry[repo]?.isSome ↔ ∃ load ∈ batches, load.1.repoId = repo) ∧
      ∀ p : Nat, r.registry[repo]? = some p →
        let order := acquired p (start batches) moves
        order.Nodup ∧
        (∀ i : Nat, i ∈ order ↔ ∃ load, batches[i]? = some load ∧ load.1.repoId = repo) ∧
        ∃ part, r.partitions[p]? = some part ∧ part.owner = none ∧
          part.graph = written (order.filterMap (batches[·]?))) := by
  intro r
  have hsound : r.Sound := (Sound.start batches).run moves
  have hload : r.load? = (batches[·]?) :=
    funext fun i => (load?_run moves i).trans (load?_start batches i)
  refine ⟨fun more repo p hp => registry_run hp more, fun p i j hi hj => ?_,
    hsound.exists_finished, fun hr repo => ⟨⟨fun hisSome => ?_, ?_⟩, fun p hp => ?_⟩⟩
  · obtain ⟨part, hpart⟩ := hsound.exists_part_of_target (hsound.fits hi)
    have howner := ((hsound.kept hpart).owner_iff i).mpr hi
    rw [((hsound.kept hpart).owner_iff j).mpr hj] at howner
    exact (Option.some.inj howner).symm
  · -- somebody was given the lock of the partition, and so brought a batch for the repository
    obtain ⟨p, hp⟩ := Option.isSome_iff_exists.mp hisSome
    obtain ⟨part, hpart⟩ := hsound.exists_part_of_registered hp
    obtain ⟨i, hi⟩ := List.exists_mem_of_ne_nil _ (hsound.kept hpart).owners_ne_nil
    obtain ⟨load, hi, hrepo⟩ := ((hsound.part_of_finished hr hp hpart).2.1 i).mp hi
    rw [hload] at hi
    exact ⟨load, List.mem_of_getElem? hi, hrepo⟩
  · -- whoever has finished has a target
    rintro ⟨load, hmem, rfl⟩
    obtain ⟨i, hi⟩ := List.mem_iff_getElem?.mp hmem
    rw [← congrFun hload i] at hi
    obtain ⟨w, hw, -⟩ := Option.map_eq_some_iff.mp hi
    have hprogress := progress?_of_writer hw
    have htarget := hsound.fits hprogress
    rw [eq_finished_of_finished hr hprogress] at htarget
    obtain ⟨p, hp⟩ := Option.isSome_iff_exists.mp htarget
    rw [target?, hi] at hp
    exact Option.isSome_iff_exists.mpr ⟨p, hp⟩
  · obtain ⟨part, hpart⟩ := hsound.exists_part_of_registered hp
    have howners : acquired p (start batches) moves = part.owners := by
      have hrun := ownersOf_run (r := start batches) p moves
      rw [ownersOf, hpart] at hrun
      exact hrun.symm
    obtain ⟨hfree, hmem, hgraph⟩ := hsound.part_of_finished hr hp hpart
    dsimp only
    rw [howners]
    rw [hload] at hmem hgraph
    exact ⟨(hsound.kept hpart).nodup, hmem, part, hpart, hfree, hgraph⟩

end Race

end Locking

end DepGraph
