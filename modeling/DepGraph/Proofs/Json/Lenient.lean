import DepGraph.Proofs.Json.Reading
import DepGraph.Proofs.Json.Rendering
import Mathlib.Data.List.Perm.Basic

/-!
# Codecs that read values in any layout

A codec *takes* a value from a text if the text stands for a draft that it reads as the value
(`DepGraph.Json.Codec.Takes`). A text is taken from whatever quotes it, a list from an array of texts
that its items are taken from, wherever there are blanks between them.

A record is taken from an object with members for its fields (`DepGraph.Json.Codec.takes_record`). Each
field is told what may be written for it, by an entry that *fits* it
(`DepGraph.Json.Field.Fits`). Then neither the order of the members matters, since a field looks for
its own name only (`DepGraph.Json.Fields.Reads.perm`), nor do members of other names, since they
are values and can be skipped.
-/

namespace DepGraph

namespace Json

namespace Codec

variable {α : Type} {c : Codec α} {text : List Char}

/-- **A codec takes a value from a text** if the text stands for something that it reads as the
value. -/
def Takes (c : Codec α) (text : List Char) (a : α) : Prop :=
  ∃ d, StandsFor text d ∧ c.read d = .ok a

/-- **What is taken from a text is read**, whatever blanks there are around it. -/
theorem Takes.ofText {a : α} (h : c.Takes text a) {padded : List Char} (hpads : Pads text padded) :
    c.ofText (String.ofList padded) = .ok a := by
  obtain ⟨d, hstands, hread⟩ := h
  rw [ofText_eq_ok_iff, hstands.ofText hpads]
  exact ⟨hread, rfl⟩

theorem takes_text {content : String} (h : Quoted.Quotes content text) :
    Codec.text.Takes text content :=
  ⟨_, .of_isName h.isName, rfl⟩

/-- A numeral that is read as a double by itself is read as it anywhere. -/
theorem takes_real {x : Float} (h : Numeral.IsNumeral text)
    (hvalue : real.ofText (String.ofList text) = .ok x) : real.Takes text x := by
  obtain ⟨n, hread⟩ := h.exists_read
  have hstands : StandsFor text (.number n) := .of_numeral hread
  rw [ofText_eq_ok_iff, hstands.ofText (.refl text)] at hvalue
  exact ⟨_, hstands, hvalue.1⟩

theorem takes_null : c.option.Takes ['n', 'u', 'l', 'l'] none := ⟨_, .null, rfl⟩

/-- A value that may be missing is taken from what it is taken from if it must not. -/
theorem Takes.option {a : α} (h : c.Takes text a) (hnull : ∀ a, c.read .null ≠ .ok a) :
    c.option.Takes text (some a) := by
  obtain ⟨d, hstands, hread⟩ := h
  refine ⟨d, hstands, ?_⟩
  cases d with
  | null => exact absurd hread (hnull a)
  | bool _ | number _ | text _ | array _ _ | object _ _ | broken _ =>
    exact map_eq_ok.mpr ⟨a, hread, rfl⟩

/-- **A list is taken from an array** of texts that its items are taken from. -/
theorem takes_list {items : List (List Char)} {values : List α}
    (h : List.Forall₂ c.Takes items values) (htext : WritesArray items text) :
    c.list.Takes text values := by
  have hdrafts : ∃ drafts, List.Forall₂ StandsFor items drafts ∧
      List.Forall₂ (fun d a => c.read d = .ok a) drafts values := by
    clear htext
    induction h with
    | nil => exact ⟨[], .nil, .nil⟩
    | cons hitem _ ih =>
      obtain ⟨d, hstands, hread⟩ := hitem
      obtain ⟨drafts, hall, hreads⟩ := ih
      exact ⟨d :: drafts, .cons hstands hall, .cons hread hreads⟩
  obtain ⟨drafts, hstands, hreads⟩ := hdrafts
  exact ⟨_, .array hstands htext, read_list_eq_ok_iff.mpr ⟨drafts, rfl, hreads⟩⟩

end Codec

/-! ### Fields -/

/-- **An entry fits a field** with a value if nothing can be written for the field but this value:
the names are the same, the field is lacking only if it then has the value, and the value is taken
from whatever may be written. -/
structure Field.Fits {α : Type} (field : Field α) (v : α) (entry : Entry) : Prop where
  name : entry.name = field.name
  lacking : entry.mayLack → field.whenAbsent = some v
  writes : ∀ text, entry.Writes text → field.codec.Takes text v

theorem Field.Fits.withDefault {α : Type} {c : Codec α} {Writes : α → List Char → Prop} {v : α}
    (h : ∀ text, Writes v text → c.Takes text v) (name : String) (default : α) :
    (Field.withDefault name c default).Fits v (.withDefault name v default Writes) where
  name := rfl
  lacking hv := congrArg some (Eq.symm hv)
  writes := h

theorem Field.Fits.optional {α : Type} {c : Codec α} {Writes : α → List Char → Prop}
    (h : ∀ a text, Writes a text → c.Takes text a) (hnull : ∀ a, c.read .null ≠ .ok a)
    (name : String) (v : Option α) :
    (Field.withDefault name c.option none).Fits v (.optional name v Writes) := by
  refine .withDefault (fun text htext => ?_) name none
  cases v with
  | none =>
    obtain rfl : text = ['n', 'u', 'l', 'l'] := htext
    exact Codec.takes_null
  | some a => exact (h a text htext).option hnull

namespace Fields

variable {τ : Type} {fields : Fields τ} {values : τ} {entries : List Entry}

/-- **Entries fit fields** one by one. -/
def Fits {τ : Type} : Fields τ → τ → List Entry → Prop
  | nil, _, [] => True
  | cons field rest, (v, vs), entry :: entries => field.Fits v entry ∧ rest.Fits vs entries
  | _, _, _ => False

theorem Fits.names_eq (h : fields.Fits values entries) :
    entries.map Entry.name = fields.names := by
  induction fields generalizing entries with
  | nil =>
    cases entries with
    | nil => rfl
    | cons entry entries => exact absurd h id
  | cons field rest ih =>
    cases entries with
    | nil => exact absurd h id
    | cons entry entries =>
      obtain ⟨v, vs⟩ := values
      rw [List.map_cons, names, h.1.name, ih h.2]

/-- **A member tells a named draft** if its value stands for the draft and the name is its own. -/
def Tells (member : String × List Char) (draft : Name × Draft) : Prop :=
  draft.1 = .ok member.1 ∧ StandsFor member.2 draft.2

/-- **Fields are read back** from the members that may be written for them. -/
theorem Fits.exists_drafts (h : fields.Fits values entries) (hnodup : fields.names.Nodup)
    {known : List (List (String × List Char))} (hknown : List.Forall₂ Entry.Gives entries known) :
    ∃ drafts : List (Name × Draft), List.Forall₂ Tells known.flatten drafts ∧
      (∀ draft ∈ drafts, ∃ name ∈ fields.names, draft.1 = .ok name) ∧
      fields.Reads drafts values := by
  induction fields generalizing entries known with
  | nil =>
    cases entries with
    | nil =>
      obtain rfl := List.forall₂_nil_left_iff.mp hknown
      exact ⟨[], .nil, List.forall_mem_nil _, trivial⟩
    | cons entry entries => exact absurd h id
  | cons field rest ih =>
    cases entries with
    | nil => exact absurd h id
    | cons entry entries =>
      obtain ⟨v, vs⟩ := values
      obtain ⟨hfits, hrest⟩ := h
      obtain ⟨given, known, hgiven, hknown', rfl⟩ := List.forall₂_cons_left_iff.mp hknown
      rw [names, List.nodup_cons] at hnodup
      obtain ⟨drafts, htells, hnames, hreads⟩ := ih hrest hnodup.2 hknown'
      -- none of the later members has the name of this field
      have hnone : valuesOf field.name drafts = [] := by
        refine valuesOf_eq_nil fun hmem => hnodup.1 ?_
        obtain ⟨draft, hdraft, hname⟩ := List.mem_map.mp hmem
        obtain ⟨name, hmem, heq⟩ := hnames draft hdraft
        obtain rfl : name = field.name := Except.ok.inj (heq.symm.trans hname)
        exact hmem
      have hlater : ∀ draft ∈ drafts, ∃ name ∈ (cons field rest).names, draft.1 = .ok name :=
        fun draft hdraft => by
          obtain ⟨name, hmem, heq⟩ := hnames draft hdraft
          exact ⟨name, List.mem_cons_of_mem _ hmem, heq⟩
      rw [List.flatten_cons]
      cases hgiven with
      | lacking hlack =>
        refine ⟨drafts, htells, hlater, ?_, hreads⟩
        rw [hnone]
        exact hfits.lacking hlack
      | @member text hwrites =>
        obtain ⟨d, hstands, hread⟩ := hfits.writes text hwrites
        refine ⟨(.ok field.name, d) :: drafts, .cons ⟨congrArg _ hfits.name.symm, hstands⟩ htells,
          List.forall_mem_cons.mpr ⟨⟨_, List.mem_cons_self, rfl⟩, hlater⟩, ?_,
          (reads_cons_of_notMem hnodup.1).mpr hreads⟩
        rw [valuesOf_cons, if_pos rfl, hnone]
        exact hread

end Fields

/-! ### Records -/

/-- **A record is taken from any object that writes it.** -/
theorem Codec.takes_record {τ : Type} {fields : Fields τ} {values : τ} {entries : List Entry}
    (hfits : fields.Fits values entries) (hnodup : fields.names.Nodup) {text : List Char}
    (htext : WritesRecord entries text) : (Codec.record fields).Takes text values := by
  obtain ⟨known, others, members, quoted, hknown, hothers, hperm, hquoted, hobject⟩ := htext
  obtain ⟨drafts, htells, hnames, hreads⟩ := hfits.exists_drafts hnodup hknown
  have hskip : ∀ member ∈ others, ∃ draft, Fields.Tells member draft ∧
      ∃ name, draft.1 = .ok name ∧ name ∉ fields.names ∧ draft.2.skipped = none := by
    intro member hmember
    obtain ⟨hname, hvalue⟩ := hothers member hmember
    obtain ⟨d, hstands, hskipped⟩ := hvalue.exists_standsFor
    exact ⟨(.ok member.1, d), ⟨rfl, hstands⟩, _, rfl, hfits.names_eq ▸ hname, hskipped⟩
  obtain ⟨skipped, htells', hskipped⟩ := exists_forall₂ hskip
  -- in the order in which the members stand
  obtain ⟨all, hall, hperm'⟩ := List.perm_comp_forall₂ hperm (List.rel_append htells htells')
  have hobject' : StandsFor text (.object all .closed) := by
    refine .object (forall₂_of_common (fun _ _ _ hquotes htells => ?_) hquoted hall) hobject
    refine ⟨?_, hquotes.2 ▸ htells.2⟩
    rw [htells.1]
    exact hquotes.1.isName
  refine ⟨_, hobject', (Fields.readObject_eq_ok_iff hnodup).mpr ⟨rfl, fun draft hdraft => ?_, ?_⟩⟩
  · rcases List.mem_append.mp (hperm'.mem_iff.mp hdraft) with hdraft | hdraft
    · obtain ⟨name, hmem, hname⟩ := hnames draft hdraft
      exact ⟨name, hname, Or.inl hmem⟩
    · obtain ⟨name, hname, -, hskipped⟩ := hskipped draft hdraft
      exact ⟨name, hname, Or.inr hskipped⟩
  · have hother : ∀ draft ∈ skipped, ∃ name, draft.1 = .ok name ∧ name ∉ fields.names :=
      fun draft hdraft => by
        obtain ⟨name, hname, hnot, -⟩ := hskipped draft hdraft
        exact ⟨name, hname, hnot⟩
    exact (((Fields.reads_append_of_notMem hother).mpr hreads).perm List.perm_append_comm).perm
      hperm'.symm

/-- **What is made of a record is taken from it**, if its parts are. -/
theorem Codec.Takes.of_parts {α τ : Type} {fields : Fields τ} {make : τ → α} {parts : α → τ} {a : α}
    {entries : List Entry} (hfits : fields.Fits (parts a) entries) (hmake : make (parts a) = a)
    (hnodup : fields.names.Nodup) {text : List Char} (htext : WritesRecord entries text) :
    ((Codec.record fields).map make parts).Takes text a := by
  obtain ⟨d, hstands, hread⟩ := takes_record hfits hnodup htext
  exact ⟨d, hstands, map_eq_ok.mpr ⟨parts a, hread, hmake⟩⟩

end Json

end DepGraph
