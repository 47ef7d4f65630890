import DepGraph.Proofs.Batch
import DepGraph.Proofs.Except
import Mathlib.Data.List.TakeWhile

/-!
# Which batches are accepted, and what is said about the others

A batch is well formed (`DepGraph.Batch.WellFormed`) if it names its repository and its run and if
all its descriptors are well formed. A descriptor is if it has everything that is required of it
(`DepGraph.Descriptor.requirements`). Checking accepts exactly the well-formed batches, and what is
wrong with another is decided by an order on two levels: among the descriptors the first that is not
well formed, and of its fields the first that offends (`DepGraph.Batch.Offends`).

That names are blank is found out by trimming them from both ends, but it only means that there is
nothing but white space in them (`DepGraph.isBlank_iff`).
-/

namespace DepGraph

/-! ### Blank texts -/

/-- **A blank text** consists of white space. -/
def Blank (text : String) : Prop := ∀ c ∈ text.toList, c ∈ whiteSpace

theorem isWhite_iff {c : Char} : isWhite c = true ↔ c ∈ whiteSpace := by
  rw [isWhite, List.contains_iff_mem]

/-- Trimming leaves nothing exactly if there is nothing but white space: what the first trimming
leaves begins with another character, and so what the second one leaves ends with one. -/
theorem trimmed_eq_nil_iff {text : List Char} :
    trimmed text = [] ↔ ∀ c ∈ text, isWhite c = true := by
  rw [trimmed, List.reverse_eq_nil_iff, List.dropWhile_eq_nil_iff]
  constructor
  · intro h
    refine List.dropWhile_eq_nil_iff.mp ?_
    by_contra hne
    have hhead := List.head_dropWhile_not isWhite hne
    rw [h _ (List.mem_reverse.mpr (List.head_mem hne))] at hhead
    cases hhead
  · intro h c hc
    exact h c ((List.dropWhile_sublist isWhite).subset (List.mem_reverse.mp hc))

theorem isBlank_iff {text : String} : isBlank text = true ↔ Blank text := by
  rw [isBlank, List.isEmpty_iff, trimmed_eq_nil_iff, Blank]
  exact forall₂_congr fun _ _ => isWhite_iff

/-! ### Descriptors -/

namespace Descriptor

/-- A field says something if it has a text that is not blank. -/
def Says (field : Option String) : Prop := ∃ text, field = some text ∧ ¬Blank text

/-- **What is required of a descriptor**, field by field. -/
def requirements (d : Descriptor) : List (String × Prop) :=
  [("sourcePath", Says d.sourcePath), ("targetPath", Says d.targetPath),
    ("depType", Says d.depType), ("weight", ∀ x, d.weight = some x → x.isFinite = true)]

/-- **A well-formed descriptor** has all that is required. -/
def WellFormed (d : Descriptor) : Prop := ∀ requirement ∈ d.requirements, requirement.2

/-- **The first field that offends.** -/
def FirstOffence (d : Descriptor) (field : String) : Prop :=
  ∃ index requirement, FirstFailing Prod.snd d.requirements index (field, requirement)

/-- **What an accepted descriptor becomes**: an edge with the same texts and the same weight, which
is one if there is none. -/
structure Becomes (d : Descriptor) (e : AcceptedEdge) : Prop where
  source : d.sourcePath = some e.source
  target : d.targetPath = some e.target
  type : d.depType = some e.type
  weight : e.weight = d.weight.getD 1.0

variable {d : Descriptor} {field : String}

theorem FirstOffence.not_wellFormed (h : d.FirstOffence field) : ¬d.WellFormed := by
  obtain ⟨_, _, hfirst⟩ := h
  exact fun hwell => hfirst.fails (hwell _ hfirst.mem)

theorem FirstOffence.unique {field' : String} (h : d.FirstOffence field)
    (h' : d.FirstOffence field') : field = field' := by
  obtain ⟨_, _, hfirst⟩ := h
  obtain ⟨_, _, hfirst'⟩ := h'
  exact congrArg Prod.fst (hfirst.unique hfirst').2

/-- A text that is required is there and says something, or else its field is named. -/
theorem required_cases (field : String) (value : Option String) :
    (Says value ∧ ∃ text, required field value = .ok text) ∨
      (¬Says value ∧ required field value = .error field) := by
  cases value with
  | none =>
    refine .inr ⟨?_, rfl⟩
    rintro ⟨_, htext, -⟩
    cases htext
  | some text =>
    by_cases htext : Blank text
    · refine .inr ⟨?_, if_pos (isBlank_iff.mpr htext)⟩
      rintro ⟨text', htext', hsays⟩
      exact hsays (Option.some.inj htext' ▸ htext)
    · exact .inl ⟨⟨text, rfl, htext⟩, text, if_neg (mt isBlank_iff.mp htext)⟩

/-- The weight of an edge is a number exactly if every weight that is given is one. -/
theorem isFinite_getD_iff {weight : Option Float} :
    (weight.getD defaultWeight).isFinite = true ↔ ∀ x, weight = some x → x.isFinite = true := by
  cases weight with
  | none => exact iff_of_true (by decide +kernel) nofun
  | some x => simp

/-- **A descriptor that passes the check is well formed**, and is not changed. -/
theorem wellFormed_of_check {e : AcceptedEdge} (h : d.check = .ok e) :
    d.WellFormed ∧ d.Becomes e := by
  obtain ⟨⟨hsource, hsays⟩, ⟨htarget, hsays'⟩, ⟨htype, hsays''⟩, hweight, hfinite⟩ :=
    check_eq_ok_iff.mp h
  rw [isBlank_iff] at hsays hsays' hsays''
  refine ⟨?_, hsource, htarget, htype, hweight.symm⟩
  simp only [WellFormed, requirements, List.forall_mem_cons]
  refine ⟨⟨_, hsource, hsays⟩, ⟨_, htarget, hsays'⟩, ⟨_, htype, hsays''⟩, ?_, nofun⟩
  rw [← isFinite_getD_iff, hweight]
  exact hfinite

/-- **The check names the first field that offends.** -/
theorem firstOffence_of_check (h : d.check = .error field) : d.FirstOffence field := by
  rw [check] at h
  -- each field in turn either passes or is the one that is named
  obtain ⟨hsource, source, hread⟩ | ⟨hsource, hread⟩ := required_cases "sourcePath" d.sourcePath
  case inr =>
    rw [hread] at h
    obtain rfl := Except.error.inj h
    exact ⟨0, _, .head hsource⟩
  rw [hread] at h
  obtain ⟨htarget, target, hread⟩ | ⟨htarget, hread⟩ := required_cases "targetPath" d.targetPath
  case inr =>
    rw [hread] at h
    obtain rfl := Except.error.inj h
    exact ⟨1, _, .cons hsource (.head htarget)⟩
  rw [hread] at h
  obtain ⟨htype, type, hread⟩ | ⟨htype, hread⟩ := required_cases "depType" d.depType
  case inr =>
    rw [hread] at h
    obtain rfl := Except.error.inj h
    exact ⟨2, _, .cons hsource (.cons htarget (.head htype))⟩
  rw [hread] at h
  by_cases hfinite : (d.weight.getD defaultWeight).isFinite = true
  · dsimp only [bind, Except.bind] at h
    rw [if_pos hfinite] at h
    cases h
  · dsimp only [bind, Except.bind] at h
    rw [if_neg hfinite] at h
    obtain rfl := Except.error.inj h
    have hweight := mt isFinite_getD_iff.mpr hfinite
    exact ⟨3, _, .cons hsource (.cons htarget (.cons htype (.head hweight)))⟩

/-- **Descriptors are checked up to the first that is not well formed**, and what is named is its
place and its first field that offends. -/
theorem exists_firstOffence_of_checkAll {descriptors : List Descriptor} {start : Nat}
    {offence : Offence} (h : checkAll start descriptors = .error offence) :
    ∃ i d field, FirstFailing WellFormed descriptors i d ∧ d.FirstOffence field ∧
      offence = .descriptor (start + i) field := by
  induction descriptors generalizing start with
  | nil => cases h
  | cons d rest ih =>
    rw [checkAll] at h
    rcases hcheck : d.check with field | e
    · rw [hcheck] at h
      have hfield : d.FirstOffence field := firstOffence_of_check hcheck
      exact ⟨0, d, field, .head hfield.not_wellFormed, hfield, (Except.error.inj h).symm⟩
    · rw [hcheck] at h
      obtain ⟨i, d', field, hd', hfield, rfl⟩ := ih (map_eq_error.mp h)
      refine ⟨i + 1, d', field, hd'.cons (wellFormed_of_check hcheck).1, hfield, ?_⟩
      rw [Nat.add_right_comm, Nat.add_assoc]

/-- Descriptors that pass the check are well formed and are not changed. -/
theorem wellFormed_of_checkAll {descriptors : List Descriptor} {start : Nat}
    {edges : List AcceptedEdge} (h : checkAll start descriptors = .ok edges) :
    (∀ d ∈ descriptors, d.WellFormed) ∧ List.Forall₂ Becomes descriptors edges := by
  have hchecked : List.Forall₂ (· = ·) (descriptors.map check) (edges.map .ok) := by
    rw [List.forall₂_eq_eq_eq]
    exact map_check_of_checkAll h
  rw [List.forall₂_map_left_iff, List.forall₂_map_right_iff] at hchecked
  refine ⟨fun d hd => ?_, hchecked.imp fun d e he => (wellFormed_of_check he).2⟩
  have hcheck : d.check ∈ edges.map .ok := map_check_of_checkAll h ▸ List.mem_map_of_mem hd
  obtain ⟨e, -, he⟩ := List.mem_map.mp hcheck
  exact (wellFormed_of_check he.symm).1

end Descriptor

/-! ### Batches -/

namespace Batch

/-- **A well-formed batch** names its repository and its run, and its descriptors are well
formed. -/
structure WellFormed (b : Batch) : Prop where
  repoId : ¬Blank b.repoId
  analysisId : ¬Blank b.analysisId
  edges : ∀ d ∈ b.edges, d.WellFormed

/-- **What is said about a batch that is not well formed.** -/
inductive Offends (b : Batch) : Error → Prop
  /-- Before anything else it has to name its repository, -/
  | repoId (hrepo : Blank b.repoId) : Offends b (.invalidBatch "repoId is required")
  /-- and then its run. -/
  | analysisId (hrepo : ¬Blank b.repoId) (hrun : Blank b.analysisId) :
    Offends b (.invalidBatch "analysisId is required")
  /-- Of its descriptors the first that is not well formed is named, with the first of its fields
  that offends. -/
  | descriptor (hrepo : ¬Blank b.repoId) (hrun : ¬Blank b.analysisId) {index : Nat} {d : Descriptor}
    {field : String} (hd : FirstFailing Descriptor.WellFormed b.edges index d)
    (hfield : d.FirstOffence field) : Offends b (.invalidDescriptor index field)

/-- **What an accepted batch becomes**: the same batch, with an edge for each descriptor. -/
structure Becomes (b : Batch) (a : Accepted) : Prop where
  repoId : a.repoId = b.repoId
  analysisId : a.analysisId = b.analysisId
  edges : List.Forall₂ Descriptor.Becomes b.edges a.edges

variable {b : Batch}

/-- A batch that is accepted is well formed, and is not changed. -/
theorem wellFormed_of_validate {a : Accepted} (h : b.validate = .ok a) :
    b.WellFormed ∧ b.Becomes a := by
  obtain ⟨hrepo, hrun, edges, hedges, rfl⟩ := validate_eq_ok_iff.mp h
  rw [isBlank_iff] at hrepo hrun
  obtain ⟨hwell, hbecomes⟩ := Descriptor.wellFormed_of_checkAll hedges
  exact ⟨⟨hrepo, hrun, hwell⟩, rfl, rfl, hbecomes⟩

/-- A batch that is not accepted is told what is wrong with it. -/
theorem offends_of_validate {error : Error} (h : b.validate = .error error) : b.Offends error := by
  rw [validate, check] at h
  split at h
  · next hrepo =>
    obtain rfl := Except.error.inj h
    exact .repoId (isBlank_iff.mp hrepo)
  next hrepo =>
  split at h
  · next hrun =>
    obtain rfl := Except.error.inj h
    exact .analysisId (mt isBlank_iff.mpr hrepo) (isBlank_iff.mp hrun)
  next hrun =>
  rcases hcheck : Descriptor.checkAll 0 b.edges with offence | edges
  · obtain ⟨i, d, field, hd, hfield, rfl⟩ := Descriptor.exists_firstOffence_of_checkAll hcheck
    rw [hcheck] at h
    obtain rfl := Except.error.inj h
    rw [Offence.toError, Nat.zero_add]
    exact .descriptor (mt isBlank_iff.mpr hrepo) (mt isBlank_iff.mpr hrun) hd hfield
  · rw [hcheck] at h
    cases h

/-- There is only one thing to say about a batch, -/
theorem Offends.unique {error error' : Error} (h : b.Offends error) (h' : b.Offends error') :
    error = error' := by
  cases h with
  | repoId hrepo =>
    cases h' with
    | repoId => rfl
    | analysisId hrepo' => exact absurd hrepo hrepo'
    | descriptor hrepo' => exact absurd hrepo hrepo'
  | analysisId hrepo hrun =>
    cases h' with
    | repoId hrepo' => exact absurd hrepo' hrepo
    | analysisId => rfl
    | descriptor _ hrun' => exact absurd hrun hrun'
  | descriptor hrepo hrun hd hfield =>
    cases h' with
    | repoId hrepo' => exact absurd hrepo' hrepo
    | analysisId _ hrun' => exact absurd hrun' hrun
    | descriptor _ _ hd' hfield' =>
      obtain ⟨rfl, rfl⟩ := hd.unique hd'
      rw [hfield.unique hfield']

/-- and nothing if it is well formed. -/
theorem Offends.not_wellFormed {error : Error} (h : b.Offends error) : ¬b.WellFormed := by
  intro hwell
  cases h with
  | repoId hrepo => exact hwell.repoId hrepo
  | analysisId _ hrun => exact hwell.analysisId hrun
  | descriptor _ _ hd _ => exact hd.fails (hwell.edges _ hd.mem)

/-- **Checking accepts exactly the well-formed batches**, changes nothing about them but to give a
weight to what has none, and says of every other batch what is wrong with it. -/
theorem validate_decides (b : Batch) :
    ((∃ a, b.validate = .ok a) ↔ b.WellFormed) ∧
      (∀ a, b.validate = .ok a → b.Becomes a) ∧
      ∀ error, b.validate = .error error ↔ b.Offends error := by
  refine ⟨⟨?_, ?_⟩, fun a ha => (wellFormed_of_validate ha).2,
    fun error => ⟨offends_of_validate, ?_⟩⟩
  · rintro ⟨a, ha⟩
    exact (wellFormed_of_validate ha).1
  · intro hwell
    rcases hb : b.validate with error | a
    · exact absurd hwell (offends_of_validate hb).not_wellFormed
    · exact ⟨a, rfl⟩
  · intro h
    rcases hb : b.validate with error' | a
    · rw [(offends_of_validate hb).unique h]
    · exact absurd (wellFormed_of_validate hb).1 h.not_wellFormed

end Batch

end DepGraph
