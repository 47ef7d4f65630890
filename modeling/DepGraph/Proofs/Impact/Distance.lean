import DepGraph.Proofs.Impact.Layers
import DepGraph.Proofs.Ranking

/-!
# Impacts are distances

The impact of a file consists of the other files within the given depth, each at its distance
(`DepGraph.RepoGraph.Coherent.mem_impact_iff`). That a file is at most as far away as the
search says is clear from the walks along which the search came to it. That no walk is
shorter is shown along the walk: when a search is finished every file on it has been dealt
with, so the next one has been seen, one step further away at most
(`DepGraph.Wave.exists_seen_of_walk`).

Since every file is seen once, no file is in the impact twice, and the impact is ranked by
distance (`DepGraph.RepoGraph.Coherent.pairwise_impact`). Together this leaves no choice about
what an impact is (`DepGraph.RepoGraph.impact_exact`).
-/

namespace DepGraph

namespace Wave

variable {g : RepoGraph} {maxDepth start : Nat} {w : Wave}

/-- **Whatever a walk leads to has been seen**, not further away than the walk is long. -/
theorem exists_seen_of_walk (hg : g.Coherent)
    (h : Layered g maxDepth start (w.seen start) w) {n : Nat} {b : String}
    (hwalk : g.Walk n (g.path start) b) (hn : n ≤ maxDepth) :
    ∃ entry ∈ w.seen start, g.path entry.1 = b ∧ entry.2 ≤ n := by
  generalize ha : g.path start = a at hwalk
  induction hwalk with
  | stay a => exact ⟨(start, 0), List.mem_cons_self .., ha, Nat.le_refl 0⟩
  | @go n a b c _ hstep ih =>
    obtain ⟨⟨file, distance⟩, hentry, rfl, hle⟩ := ih (by omega) ha
    obtain ⟨target, htarget⟩ :=
      Roster.mem_toList_iff.mp (hg.mem_files_of_dependsOn hstep).2
    obtain rfl := RepoGraph.path_of_number? htarget
    have hnext : target ∈ g.targets file :=
      (hg.mem_targets_iff (h.lt_nodeCount _ hentry)).mpr
        ⟨Roster.lt_size_of_number? htarget, hstep⟩
    obtain ⟨distance', hle', hentry'⟩ := h.neighbours _ hentry (by omega) target hnext
    exact ⟨(target, distance'), hentry', rfl, by omega⟩

/-- **What has been seen when the search is finished** are the files within its depth, each at
its distance. -/
theorem exists_seen_iff (hg : g.Coherent) (h : Layered g maxDepth start (w.seen start) w)
    {b : String} {distance : Nat} :
    (∃ file, (file, distance) ∈ w.seen start ∧ g.path file = b) ↔
      distance ≤ maxDepth ∧ g.IsDistance (g.path start) b distance := by
  constructor
  · rintro ⟨file, hentry, rfl⟩
    refine ⟨h.le_maxDepth _ hentry, h.walk _ hentry, fun n hwalk => ?_⟩
    rcases Nat.lt_or_ge maxDepth n with hn | hn
    · exact (h.le_maxDepth _ hentry).trans hn.le
    · -- the walk has led to the same file, which is seen only once
      obtain ⟨entry, hentry', hpath, hle⟩ := exists_seen_of_walk hg h hwalk hn
      have hfile : entry.1 = file := RepoGraph.path_inj (h.lt_nodeCount _ hentry')
        (h.lt_nodeCount _ hentry) hpath
      obtain rfl : entry = (file, distance) :=
        List.inj_on_of_nodup_map h.nodup hentry' hentry hfile
      exact hle
  · rintro ⟨hdepth, hdistance⟩
    obtain ⟨⟨file, distance'⟩, hentry, rfl, hle⟩ :=
      exists_seen_of_walk hg h hdistance.walk hdepth
    obtain rfl : distance' = distance :=
      Nat.le_antisymm hle (hdistance.le _ (h.walk _ hentry))
    exact ⟨file, hentry, rfl⟩

end Wave

namespace RepoGraph

namespace Coherent

variable {g : RepoGraph}

/-- **The impact of a file** consists of the other files within the depth, each at its
distance. -/
theorem mem_impact_iff (h : g.Coherent) {a b : String} {maxDepth distance : Nat} :
    (⟨b, distance⟩ : AffectedFile) ∈ g.impact a maxDepth ↔
      a ≠ b ∧ distance ≤ maxDepth ∧ g.IsDistance a b distance := by
  rcases hstart : g.files.number? a with _ | start
  · -- an unknown file depends on nothing, so that no walk leads away from it
    have himpact : g.impact a maxDepth = [] := by rw [impact, hstart]
    rw [himpact]
    refine iff_of_false List.not_mem_nil ?_
    rintro ⟨hne, -, hdistance⟩
    obtain ⟨c, hstep⟩ := hdistance.walk.exists_dependsOn_of_ne hne
    exact Roster.number?_eq_none_iff.mp hstart (h.mem_files_of_dependsOn hstep).1
  · obtain rfl := path_of_number? hstart
    have hlayered := Wave.Layered.finished h (Roster.lt_size_of_number? hstart) maxDepth
    rw [← Wave.exists_seen_iff h hlayered, impact, hstart]
    dsimp only
    rw [List.mem_mergeSort, List.mem_map]
    constructor
    · rintro ⟨⟨file, _⟩, hentry, heq⟩
      obtain ⟨rfl, rfl⟩ := AffectedFile.mk.inj heq
      have hseen := List.mem_cons_of_mem (start, 0) hentry
      refine ⟨fun hpath => ?_, file, hseen, rfl⟩
      -- the start is seen at the beginning, and not again
      obtain rfl := path_inj (hlayered.lt_nodeCount _ (List.mem_cons_self ..))
        (hlayered.lt_nodeCount _ hseen) hpath
      exact (List.nodup_cons.mp hlayered.nodup).1 (List.mem_map.mpr ⟨_, hentry, rfl⟩)
    · rintro ⟨hne, file, hseen, rfl⟩
      rcases List.mem_cons.mp hseen with heq | hentry
      · obtain ⟨rfl, -⟩ := Prod.mk.inj heq
        exact absurd rfl hne
      · exact ⟨(file, distance), hentry, rfl⟩

/-- **The impact of a file is ranked by distance**, and no file is in it twice. -/
theorem pairwise_impact (h : g.Coherent) (a : String) (maxDepth : Nat) :
    (g.impact a maxDepth).Pairwise (Ascends AffectedFile.distance AffectedFile.path) := by
  rcases hstart : g.files.number? a with _ | start
  · rw [impact, hstart]
    exact List.Pairwise.nil
  · have hlayered := Wave.Layered.finished h (Roster.lt_size_of_number? hstart) maxDepth
    have hnodup := (List.nodup_cons.mp hlayered.nodup).2
    rw [impact, hstart]
    refine pairwise_ascends_mergeSort (fun a b => ?_) ?_
    · simp only [AffectedFile.before, Bool.or_eq_true, Bool.and_eq_true, decide_eq_true_eq,
        beq_iff_eq]
    · -- files that are seen have different numbers, and therefore different paths
      rw [List.map_map]
      have hpaths := hnodup.map_on (f := g.path) fun a ha b hb hab => ?_
      · rwa [List.map_map] at hpaths
      · obtain ⟨entry, hentry, rfl⟩ := List.mem_map.mp ha
        obtain ⟨entry', hentry', rfl⟩ := List.mem_map.mp hb
        exact path_inj (hlayered.lt_nodeCount _ (List.mem_cons_of_mem _ hentry))
          (hlayered.lt_nodeCount _ (List.mem_cons_of_mem _ hentry')) hab

/-- **No file is in an impact twice**: a file has only one distance. -/
theorem nodup_paths_impact (h : g.Coherent) (a : String) (maxDepth : Nat) :
    ((g.impact a maxDepth).map AffectedFile.path).Nodup := by
  have hnodup : (g.impact a maxDepth).Nodup :=
    (h.pairwise_impact a maxDepth).imp fun {_ _} hab heq => by
      subst heq
      exact hab.asymm hab
  refine hnodup.map_on ?_
  rintro ⟨b, distance⟩ hmem ⟨_, distance'⟩ hmem' rfl
  obtain ⟨-, -, hdistance⟩ := h.mem_impact_iff.mp hmem
  obtain ⟨-, -, hdistance'⟩ := h.mem_impact_iff.mp hmem'
  rw [hdistance.unique hdistance']

/-- A file that is not in the graph has no impact. -/
theorem impact_of_not_hasFile {a : String} (h : g.hasFile a = false) (maxDepth : Nat) :
    g.impact a maxDepth = [] := by
  rw [hasFile, Roster.contains, Option.isSome_eq_false_iff, Option.isNone_iff_eq_none] at h
  rw [impact, h]

end Coherent

/-- **Impacts are exact.** Whatever was written, and however deep the search may go, the impact of
a file consists of the other files whose distance is at least one and within the depth, each with
this distance and only once; it never contains the file itself. It is ranked by distance, and by
path among files of one distance. A file that is not in the graph has no impact. -/
theorem impact_exact (writes : List Edge) (a : String) (maxDepth : Nat) :
    let g := empty.writeAll writes
    (∀ b distance, (⟨b, distance⟩ : AffectedFile) ∈ g.impact a maxDepth ↔
      b ≠ a ∧ 1 ≤ distance ∧ distance ≤ maxDepth ∧ g.IsDistance a b distance) ∧
    ((g.impact a maxDepth).map AffectedFile.path).Nodup ∧
    a ∉ (g.impact a maxDepth).map AffectedFile.path ∧
    (g.impact a maxDepth).Pairwise (Ascends AffectedFile.distance AffectedFile.path) ∧
    (g.hasFile a = false → g.impact a maxDepth = []) := by
  intro g
  have h : g.Coherent := coherent_writeAll_empty writes
  refine ⟨fun b distance => ?_, h.nodup_paths_impact a maxDepth, fun hmem => ?_,
    h.pairwise_impact a maxDepth, fun hunknown => Coherent.impact_of_not_hasFile hunknown maxDepth⟩
  · rw [h.mem_impact_iff]
    constructor
    · rintro ⟨hne, hdepth, hdistance⟩
      exact ⟨hne.symm, hdistance.pos hne, hdepth, hdistance⟩
    · rintro ⟨hne, -, hdepth, hdistance⟩
      exact ⟨hne.symm, hdepth, hdistance⟩
  · obtain ⟨⟨_, distance⟩, hmem, rfl⟩ := List.mem_map.mp hmem
    exact (h.mem_impact_iff.mp hmem).1 rfl

end RepoGraph

end DepGraph
