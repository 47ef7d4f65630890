import DepGraph.Cli.Text
import DepGraph.Proofs.Impact.Depth
import Std.Data.String.ToNat

/-!
# The outline of an impact

The report on an impact is written in one pass over its files: a header is put before a file
whenever its distance is not that of the file before it, or not zero for the first file. Whether
this makes one group for each distance depends on the files. It does if their distances do not
descend and none of them is zero (`DepGraph.Cli.exists_outline_eq`); and the search for an impact
promises both, since nearer files come first and no file is in its own impact.

The lines of a report are told apart by their texts: a header, an entry and the lines around them
do not begin alike. So what is said of the outline can be said of the lines that are written
(`DepGraph.Cli.impactLines_grouped`).
-/

namespace DepGraph.Cli

/-! ### Groups -/

/-- The paths of the files at a distance, in their order. -/
def pathsAt (files : List AffectedFile) (d : Nat) : List String :=
  (files.filter (·.distance = d)).map AffectedFile.path

/-- A header and the entries of the files at its distance. -/
def group (files : List AffectedFile) (d : Nat) : List OutlineEntry :=
  .distance d :: (pathsAt files d).map .file

section Groups

variable {f : AffectedFile} {files : List AffectedFile} {d : Nat}

theorem mem_pathsAt {path : String} : path ∈ pathsAt files d ↔ ⟨path, d⟩ ∈ files := by
  rw [pathsAt, List.mem_map]
  constructor
  · rintro ⟨⟨_, _⟩, hmem, rfl⟩
    obtain ⟨hmem, hdistance⟩ := List.mem_filter.mp hmem
    exact of_decide_eq_true hdistance ▸ hmem
  · intro hmem
    exact ⟨_, List.mem_filter.mpr ⟨hmem, decide_eq_true rfl⟩, rfl⟩

theorem pathsAt_cons_of_eq (h : f.distance = d) :
    pathsAt (f :: files) d = f.path :: pathsAt files d := by
  rw [pathsAt, List.filter_cons_of_pos (by rwa [decide_eq_true_eq]), List.map_cons,
    pathsAt]

theorem pathsAt_cons_of_ne (h : f.distance ≠ d) : pathsAt (f :: files) d = pathsAt files d := by
  rw [pathsAt, List.filter_cons_of_neg (by rwa [decide_eq_true_eq]), pathsAt]

/-- A distance at which there is no file has no entries. -/
theorem pathsAt_eq_nil (h : ∀ f ∈ files, f.distance ≠ d) : pathsAt files d = [] := by
  refine List.eq_nil_iff_forall_not_mem.mpr fun path hpath => ?_
  exact h _ (mem_pathsAt.mp hpath) rfl

/-- Groups of other distances do not notice a file. -/
theorem flatMap_group_cons {distances : List Nat} (h : ∀ d ∈ distances, f.distance < d) :
    distances.flatMap (group (f :: files)) = distances.flatMap (group files) :=
  List.flatMap_congr fun d hd => by
    rw [group, group, pathsAt_cons_of_ne (h d hd).ne]

end Groups

/-! ### The outline is grouped -/

/-- **The outline of files whose distances do not descend**: first the entries of the files at the
distance that is current, and then a group for every greater distance, in ascending order. -/
theorem exists_outline_eq {files : List AffectedFile} {current : Nat}
    (hascending : files.Pairwise fun a b => a.distance ≤ b.distance)
    (hcurrent : ∀ f ∈ files, current ≤ f.distance) :
    ∃ distances : List Nat, distances.Pairwise (· < ·) ∧
      (∀ d, d ∈ distances ↔ current < d ∧ ∃ f ∈ files, f.distance = d) ∧
      outline current files =
        (pathsAt files current).map .file ++ distances.flatMap (group files) := by
  induction files generalizing current with
  | nil => exact ⟨[], List.Pairwise.nil, by simp, rfl⟩
  | cons f files ih =>
    obtain ⟨hf, hascending⟩ := List.pairwise_cons.mp hascending
    obtain ⟨distances, hdistances, hmem, houtline⟩ := ih hascending hf
    rcases (hcurrent f (List.mem_cons_self ..)).eq_or_lt with heq | hlt
    · -- the file belongs to the entries that are not under a header yet
      subst heq
      refine ⟨distances, hdistances, fun d => ?_, ?_⟩
      · rw [hmem, List.exists_mem_cons_iff]
        exact ⟨fun h => ⟨h.1, Or.inr h.2⟩, fun h => ⟨h.1, h.2.resolve_left h.1.ne⟩⟩
      · rw [outline, if_pos rfl, houtline, pathsAt_cons_of_eq rfl,
          flatMap_group_cons fun d hd => ((hmem d).mp hd).1]
        rfl
    · -- the file begins a group of its own, and there are no entries before it
      have hnone : ∀ other ∈ f :: files, other.distance ≠ current := by
        refine List.forall_mem_cons.mpr ⟨hlt.ne', fun other hother => ?_⟩
        exact (hlt.trans_le (hf other hother)).ne'
      refine ⟨f.distance :: distances, List.pairwise_cons.mpr ⟨fun d hd => ((hmem d).mp hd).1,
        hdistances⟩, fun d => ?_, ?_⟩
      · rw [List.mem_cons, hmem, List.exists_mem_cons_iff]
        constructor
        · rintro (rfl | ⟨hd, hother⟩)
          · exact ⟨hlt, Or.inl rfl⟩
          · exact ⟨hlt.trans hd, Or.inr hother⟩
        · rintro ⟨-, rfl | ⟨other, hother, rfl⟩⟩
          · exact Or.inl rfl
          · rcases (hf other hother).eq_or_lt with heq | hgt
            · exact Or.inl heq.symm
            · exact Or.inr ⟨hgt, other, hother, rfl⟩
      · rw [outline, if_neg hlt.ne', houtline, pathsAt_eq_nil hnone, List.flatMap_cons,
          flatMap_group_cons fun d hd => ((hmem d).mp hd).1, group, pathsAt_cons_of_eq rfl]
        simp

/-- The path of an entry that is not a header. -/
def OutlineEntry.path? : OutlineEntry → Option String
  | distance _ => none
  | file path => some path

/-- **An outline has the files for entries**, each once and in their order. -/
theorem filterMap_outline (current : Nat) (files : List AffectedFile) :
    (outline current files).filterMap OutlineEntry.path? = files.map AffectedFile.path := by
  induction files generalizing current with
  | nil => rfl
  | cons f files ih =>
    have hfile : (OutlineEntry.file f.path).path? = some f.path := rfl
    rw [outline, List.filterMap_append, List.filterMap_cons_some hfile, ih]
    split <;> rfl

/-- The files of an outline are those that it was made of. -/
theorem file_mem_outline {current : Nat} {files : List AffectedFile} {path : String} :
    .file path ∈ outline current files ↔ path ∈ files.map AffectedFile.path := by
  rw [← filterMap_outline current, List.mem_filterMap]
  refine ⟨fun h => ⟨_, h, rfl⟩, ?_⟩
  rintro ⟨d | other, hmem, hpath⟩
  · cases hpath
  · exact Option.some.inj hpath ▸ hmem

theorem filterMap_group (files : List AffectedFile) (d : Nat) :
    (group files d).filterMap OutlineEntry.path? = pathsAt files d := by
  rw [group, List.filterMap_cons_none rfl, List.filterMap_map]
  exact List.filterMap_some

/-! ### No line twice -/

section Nodup

variable {files : List AffectedFile} {distances : List Nat}

theorem distance_mem_group {d d' : Nat} : .distance d ∈ group files d' ↔ d = d' := by
  simp [group]

theorem distance_mem_flatMap_group {d : Nat} :
    .distance d ∈ distances.flatMap (group files) ↔ d ∈ distances := by
  rw [List.mem_flatMap]
  constructor
  · rintro ⟨d', hd', hmem⟩
    exact distance_mem_group.mp hmem ▸ hd'
  · exact fun hd => ⟨d, hd, distance_mem_group.mpr rfl⟩

theorem file_mem_group {path : String} {d : Nat} :
    .file path ∈ group files d ↔ path ∈ pathsAt files d := by
  simp [group]

/-- A file is at one distance only, if no path occurs twice. -/
theorem eq_of_mem_pathsAt (hpaths : (files.map AffectedFile.path).Nodup) {path : String}
    {d d' : Nat} (h : path ∈ pathsAt files d) (h' : path ∈ pathsAt files d') : d = d' := by
  have heq := List.inj_on_of_nodup_map hpaths (mem_pathsAt.mp h) (mem_pathsAt.mp h') rfl
  exact (AffectedFile.mk.inj heq).2

/-- **No entry is in the groups twice**, if no path and no distance occurs twice. -/
theorem nodup_flatMap_group (hpaths : (files.map AffectedFile.path).Nodup)
    (hdistances : distances.Nodup) : (distances.flatMap (group files)).Nodup := by
  refine List.nodup_flatMap.mpr ⟨fun d _ => ?_, hdistances.imp fun {d d'} hne => ?_⟩
  · have hentries : ((pathsAt files d).map OutlineEntry.file).Nodup := by
      refine List.Nodup.map (fun _ _ h => OutlineEntry.file.inj h) ?_
      exact hpaths.sublist (List.filter_sublist.map _)
    exact List.nodup_cons.mpr ⟨by simp, hentries⟩
  · rintro (e | path) he he'
    · exact hne ((distance_mem_group.mp he).symm.trans (distance_mem_group.mp he'))
    · exact hne (eq_of_mem_pathsAt hpaths (file_mem_group.mp he) (file_mem_group.mp he'))

end Nodup

/-! ### Lines as texts -/

/-- The text of a line without colours. -/
def Line.text (l : Line) : String := String.join (l.map Piece.text)

/-- **Without colours** the texts of the lines are written, each with a line break after it. -/
theorem textOfLines_eq (lines : List Line) :
    textOfLines lines false = String.join ((lines.map Line.text).map (· ++ "\n")) := by
  refine String.toList_inj.mp ?_
  rw [textOfLines, String.toList_ofList, String.toList_join, List.flatMap_map, List.flatMap_map]
  refine List.flatMap_congr fun l _ => ?_
  rw [Line.write, Line.text, String.toList_append, String.toList_join, List.flatMap_map]
  rfl

namespace OutlineEntry

/-- The text of an entry. -/
def text : OutlineEntry → String
  | distance d => "  Distance " ++ d.repr ++ ":"
  | file path => "    • " ++ path

theorem text_line (e : OutlineEntry) : Line.text e.line = e.text := by
  cases e <;> simp [line, text, Line.text, Piece.plain, Piece.coloured, Piece.dimmed,
    ← String.toList_inj]

/-- **Entries are told apart by their texts.** -/
theorem text_injective : Function.Injective text := by
  rintro (d | path) (d' | path') h
  case distance.distance =>
    have hd : d.repr = d'.repr :=
      (String.append_right_inj _).mp ((String.append_left_inj _).mp h)
    rw [Nat.repr_injective hd]
  case file.file => rw [(String.append_right_inj _).mp h]
  -- a header is indented less than the entry of a file
  case distance.file | file.distance => simp [text, ← String.toList_inj] at h

end OutlineEntry

/-- The texts of groups are those of their headers and entries. -/
theorem map_text_flatMap_group (files : List AffectedFile) (distances : List Nat) :
    (distances.flatMap (group files)).map OutlineEntry.text =
      distances.flatMap fun d => OutlineEntry.text (.distance d) ::
        (pathsAt files d).map fun path => OutlineEntry.text (.file path) := by
  rw [List.map_flatMap]
  refine List.flatMap_congr fun d _ => ?_
  rw [group, List.map_cons, List.map_map]
  rfl

/-- The text of the line that says what the report is about. -/
def titleText (source : String) (maxDepth : Nat) : String :=
  "Impact of " ++ source ++ " (depth " ++ maxDepth.repr ++ ")"

/-- The text of the line that says how many files there are. -/
def totalText (total : Nat) : String := "Total: " ++ total.repr ++ " affected files"

/-- Neither the title nor what comes after the entries looks like an entry. -/
theorem text_notMem_around (e : OutlineEntry) (source : String) (maxDepth total : Nat) :
    e.text ≠ titleText source maxDepth ∧ e.text ∉ ["", totalText total] := by
  cases e <;> simp [OutlineEntry.text, titleText, totalText, ← String.toList_inj]

/-- **The lines of a report with files.** -/
theorem text_impactLines {report : ImpactReport} (h : report.affectedFiles ≠ []) :
    (impactLines report).map Line.text =
      titleText report.source report.maxDepth ::
        ((outline 0 report.affectedFiles).map OutlineEntry.text ++
          ["", totalText report.totalImpact]) := by
  have htitle : Line.text [.bold "Impact of", .plain " ", .coloured .cyan report.source,
      .plain (" (depth " ++ report.maxDepth.repr ++ ")")] =
        titleText report.source report.maxDepth := by
    simp [titleText, Line.text, Piece.plain, Piece.bold, Piece.coloured, ← String.toList_inj]
  have htotal : Line.text [.plain "Total: ", .bold report.totalImpact.repr,
      .plain " affected files"] = totalText report.totalImpact := by
    simp [totalText, Line.text, Piece.plain, Piece.bold, ← String.toList_inj]
  have hentries : ((outline 0 report.affectedFiles).map OutlineEntry.line).map Line.text =
      (outline 0 report.affectedFiles).map OutlineEntry.text := by
    rw [List.map_map]
    exact List.map_congr_left fun e _ => OutlineEntry.text_line e
  rw [impactLines, if_neg (by rwa [List.isEmpty_iff]), List.map_cons, List.map_append, htitle,
    hentries, List.map_cons, List.map_singleton, htotal]
  rfl

/-- **How often a line looks like an entry**: once if it is one, and never otherwise. -/
theorem count_text {report : ImpactReport} (h : report.affectedFiles ≠ [])
    (hnodup : (outline 0 report.affectedFiles).Nodup) (e : OutlineEntry) :
    ((impactLines report).map Line.text).count e.text =
      if e ∈ outline 0 report.affectedFiles then 1 else 0 := by
  obtain ⟨htitle, htotal⟩ :=
    text_notMem_around e report.source report.maxDepth report.totalImpact
  rw [text_impactLines h, List.count_cons_of_ne htitle.symm, List.count_append,
    List.count_eq_zero_of_not_mem htotal, Nat.add_zero,
    List.count_map_of_injective _ _ OutlineEntry.text_injective, hnodup.count]

/-! ### The report -/

section Ranked

variable {files : List AffectedFile}

/-- Files of one distance are in the order of their paths. -/
theorem pairwise_pathsAt (h : files.Pairwise (Ascends AffectedFile.distance AffectedFile.path))
    (d : Nat) : (pathsAt files d).Pairwise (· < ·) := by
  rw [pathsAt, List.pairwise_map, List.pairwise_filter]
  refine h.imp fun {a b} hab ha hb => ?_
  rw [decide_eq_true_eq] at ha hb
  rcases hab with hlt | ⟨-, hpath⟩
  · omega
  · exact hpath

/-- **The outline of ranked files** consists of a group for every distance, if no file is at
distance zero. -/
theorem exists_outline_eq_flatMap
    (h : files.Pairwise (Ascends AffectedFile.distance AffectedFile.path))
    (hpos : ∀ f ∈ files, 0 < f.distance) :
    ∃ distances : List Nat, distances.Pairwise (· < ·) ∧
      (∀ d, d ∈ distances ↔ ∃ f ∈ files, f.distance = d) ∧
      outline 0 files = distances.flatMap (group files) := by
  have hascending : files.Pairwise fun a b => a.distance ≤ b.distance :=
    h.imp fun {a b} hab => hab.elim le_of_lt fun heq => heq.1.le
  obtain ⟨distances, hdistances, hmem, houtline⟩ :=
    exists_outline_eq hascending fun f _ => Nat.zero_le f.distance
  refine ⟨distances, hdistances, fun d => ?_, ?_⟩
  · rw [hmem]
    refine ⟨fun h => h.2, fun hd => ⟨?_, hd⟩⟩
    obtain ⟨f, hf, rfl⟩ := hd
    exact hpos f hf
  · rw [houtline, pathsAt_eq_nil fun f hf => (hpos f hf).ne']
    rfl

end Ranked

/-- **The report on an impact is grouped by distance.** After every history, under any limits and
whatever is asked about, the lines of a report with at least one file are, without colours: a
title; for each distance at which there is a file, in ascending order, a header and the entries of
the files at this distance, in the order of their paths; and after an empty line the total, which
is the number of entries. Together the entries are those of all files. Each of the headers and
entries is there once, and no line looks like the header of another distance or the entry of
another file. Every line is written with a line break after it. Here a line is what is printed at
a time: a path with a line break in it is in one of these lines like any other, which is then spread
over several lines of the text. -/
theorem impactLines_grouped (limits : QueryLimits) (history : List (Instant × Operation))
    (repo path : String) (depth : Option Int)
    (hfiles : ((Store.after limits history).impact repo path depth).affectedFiles ≠ []) :
    let report := (Store.after limits history).impact repo path depth
    let files := report.affectedFiles
    let lines := (impactLines report).map Line.text
    ∃ distances : List Nat, distances.Pairwise (· < ·) ∧
      (∀ d, d ∈ distances ↔ ∃ f ∈ files, f.distance = d) ∧
      lines = titleText report.source report.maxDepth ::
        (distances.flatMap (fun d => OutlineEntry.text (.distance d) ::
          (pathsAt files d).map fun path => OutlineEntry.text (.file path)) ++
          ["", totalText (distances.flatMap (pathsAt files)).length]) ∧
      (∀ d, (pathsAt files d).Pairwise (· < ·) ∧
        ∀ path, path ∈ pathsAt files d ↔ ⟨path, d⟩ ∈ files) ∧
      distances.flatMap (pathsAt files) = files.map AffectedFile.path ∧
      (∀ d, lines.count (OutlineEntry.text (.distance d)) = if d ∈ distances then 1 else 0) ∧
      (∀ path, lines.count (OutlineEntry.text (.file path)) =
        if path ∈ files.map AffectedFile.path then 1 else 0) ∧
      textOfLines (impactLines report) false = String.join (lines.map (· ++ "\n")) := by
  intro report files lines
  have hg := Store.coherent_graph_after limits repo history
  have heq : files = _ := Store.affectedFiles_impact limits history repo path depth
  have hranked : files.Pairwise (Ascends AffectedFile.distance AffectedFile.path) :=
    heq ▸ hg.pairwise_impact path _
  have hpaths : (files.map AffectedFile.path).Nodup := heq ▸ hg.nodup_paths_impact path _
  have hpos : ∀ f ∈ files, 0 < f.distance := by
    intro f hf
    rw [heq] at hf
    obtain ⟨hne, -, hdistance⟩ := hg.mem_impact_iff.mp hf
    exact hdistance.pos hne
  obtain ⟨distances, hdistances, hmem, houtline⟩ := exists_outline_eq_flatMap hranked hpos
  -- the entries are those of the files, told from the outline in its two forms
  have hentries : distances.flatMap (pathsAt files) = files.map AffectedFile.path := by
    rw [← filterMap_outline 0, houtline, List.filterMap_flatMap]
    exact List.flatMap_congr fun d _ => (filterMap_group files d).symm
  have htotal : report.totalImpact = (distances.flatMap (pathsAt files)).length := by
    rw [hentries, List.length_map]
    exact Store.totalImpact_impact ..
  have hnodup : (outline 0 files).Nodup := by
    rw [houtline]
    exact nodup_flatMap_group hpaths (hdistances.imp ne_of_lt)
  refine ⟨distances, hdistances, hmem, ?_, fun d => ⟨pairwise_pathsAt hranked d, fun path =>
    mem_pathsAt⟩, hentries, fun d => ?_, fun path => ?_, textOfLines_eq _⟩
  · rw [← htotal]
    refine (text_impactLines hfiles).trans ?_
    rw [houtline, map_text_flatMap_group]
  · refine (count_text hfiles hnodup _).trans (if_congr ?_ rfl rfl)
    rw [houtline, distance_mem_flatMap_group]
  · exact (count_text hfiles hnodup _).trans (if_congr file_mem_outline rfl rfl)

/-- A report on the first file of a chain, without a depth. -/
theorem impactLines_grouped_of_chain :
    let batch : Batch := ⟨"repo", "run", [⟨some "a", some "b", some "import", none⟩,
      ⟨some "b", some "c", some "import", none⟩]⟩
    let report := (Store.after {} [(⟨0, 0⟩, .ingest batch)]).impact "repo" "a" none
    let files := report.affectedFiles
    files ≠ [] ∧ ∃ distances : List Nat, 1 ∈ distances ∧ distances.Pairwise (· < ·) ∧
      (impactLines report).map Line.text = titleText report.source report.maxDepth ::
        (distances.flatMap (fun d => OutlineEntry.text (.distance d) ::
          (pathsAt files d).map fun path => OutlineEntry.text (.file path)) ++
          ["", totalText (distances.flatMap (pathsAt files)).length]) := by
  have hvalid : Batch.validate ⟨"repo", "run", [⟨some "a", some "b", some "import", none⟩,
      ⟨some "b", some "c", some "import", none⟩]⟩ = .ok ⟨"repo", "run",
        [⟨"a", "b", "import", defaultWeight⟩, ⟨"b", "c", "import", defaultWeight⟩]⟩ := rfl
  intro batch report files
  have hdepends : (((Store.after {} [(⟨0, 0⟩, .ingest batch)]).graph? "repo").getD .empty).DependsOn
      "a" "b" :=
    (Store.dependsOn_after_iff _).mpr ⟨_, mem_contributions_iff.mpr
      ⟨⟨0, 0⟩, batch, .head _, hvalid, rfl, List.cons_ne_nil _ _⟩, _, .head _, rfl, rfl⟩
  have hmem : ⟨"b", 1⟩ ∈ files := by
    have heq : files = _ := Store.affectedFiles_impact {} [(⟨0, 0⟩, .ingest batch)] "repo" "a" none
    rw [heq]
    exact (Store.coherent_graph_after ..).mem_impact_iff.mpr ⟨by decide, by decide,
      RepoGraph.IsDistance.one_iff.mpr ⟨by decide, hdepends⟩⟩
  have hne : files ≠ [] := List.ne_nil_of_mem hmem
  obtain ⟨distances, hdistances, hiff, hlines, -⟩ :=
    impactLines_grouped {} [(⟨0, 0⟩, .ingest batch)] "repo" "a" none hne
  exact ⟨hne, distances, (hiff 1).mpr ⟨_, hmem, rfl⟩, hdistances, hlines⟩

end DepGraph.Cli
