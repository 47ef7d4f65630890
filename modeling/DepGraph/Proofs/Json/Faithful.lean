import DepGraph.Proofs.Json.Reading
import DepGraph.Proofs.Json.Written

/-!
# Codecs that get back what they write

A codec *keeps* a value if what it writes for it conveys a draft that it reads as the value
(`DepGraph.Json.Codec.Keeps`). A text is kept whatever is in it, and a count if it fits into
sixty-four bits. Whether a double is kept depends on whether its decimal text reads back as the
same double, and whether an instant is depends on how instants are written and read; both are
left open here. Lists and records keep what their items and fields keep, however they are nested
(`DepGraph.Json.Codec.Keeps.list`, `DepGraph.Json.Codec.Keeps.record`).

What is kept survives in both layouts (`DepGraph.Json.Codec.Keeps.survives`).
-/

namespace DepGraph

namespace Json

/-- **The text of a double reads back** if it is a numeral and, as a double, this one. -/
def Value.ReadsBack (x : Float) : Prop :=
  ∃ n, Numeral.read (Value.realText x) = .ok (n, []) ∧ n.real? = some x

namespace Codec

variable {α β τ : Type}

/-- **A value survives as text** if reading what was written for it gives it back: without blanks,
as tools answer, or with one item to a line, with and without the line break that a command prints
after it. -/
def Survives (c : Codec α) (a : α) : Prop :=
  c.ofText (c.write a).compact = .ok a ∧ c.ofText (c.write a).pretty = .ok a ∧
    c.ofText ((c.write a).pretty ++ "\n") = .ok a

/-- **A codec keeps a value** if what it writes for it conveys a draft that it reads as the
value. -/
def Keeps (c : Codec α) (a : α) : Prop := ∃ d, (c.write a).Conveys d ∧ c.read d = .ok a

/-- **What a codec keeps survives.** -/
theorem Keeps.survives {c : Codec α} {a : α} (h : c.Keeps a) : c.Survives a := by
  obtain ⟨d, hconveys, hread⟩ := h
  have hlayout : ∀ layout : Layout, layout.Blank → ∀ blanks : List Char,
      (∀ b ∈ blanks, Lexeme.isSpace b = true) →
        c.ofText (String.ofList ((c.write a).write layout 0 ++ blanks)) = .ok a := by
    intro layout hlayout blanks hblanks
    rw [ofText_eq_ok_iff, hconveys.ofText_write hlayout hblanks]
    exact ⟨hread, rfl⟩
  refine ⟨?_, ?_, ?_⟩
  · rw [Value.compact, ← List.append_nil (Value.write ..)]
    exact hlayout .compact Layout.blank_compact [] (List.forall_mem_nil _)
  · rw [Value.pretty, ← List.append_nil (Value.write ..)]
    exact hlayout .pretty Layout.blank_pretty [] (List.forall_mem_nil _)
  · have hbreak : (c.write a).pretty ++ "\n" =
        String.ofList ((c.write a).write .pretty 0 ++ ['\n']) := by
      rw [Value.pretty, String.ofList_append]
    rw [hbreak]
    exact hlayout .pretty Layout.blank_pretty ['\n'] (List.forall_mem_singleton.mpr rfl)

/-! ### Single values -/

theorem keeps_text (content : String) : text.Keeps content :=
  ⟨_, .text content, rfl⟩

theorem numeral_of_eq_some {value? : Numeral → Option α} {n : Numeral} {a : α}
    (h : value? n = some a) : numeral value? (.number n) = .ok a := by
  unfold numeral
  dsimp only
  rw [h]

/-- **A count of sixty-four bits is kept.** -/
theorem keeps_count {n : Nat} (h : n < wordLimit) : count.Keeps n :=
  ⟨_, .count n, numeral_of_eq_some (Numeral.count?_ofNat h)⟩

/-- **A double whose text reads back is kept.** -/
theorem keeps_real {x : Float} (h : Value.ReadsBack x) : real.Keeps x := by
  obtain ⟨n, hread, hvalue⟩ := h
  exact ⟨_, .real hread, numeral_of_eq_some hvalue⟩

/-- **An instant whose text reads back is kept.** -/
theorem keeps_instant {t : Instant} (h : Instant.ofText? t.toText = some t) : instant.Keeps t := by
  refine ⟨_, .text t.toText, bind_eq_ok.mpr ⟨t.toText, rfl, ?_⟩⟩
  rw [h]
  rfl

/-! ### Values of values -/

theorem Keeps.map {c : Codec α} {f : α → β} {g : β → α} {b : β} (h : c.Keeps (g b))
    (hinverse : f (g b) = b) : (c.map f g).Keeps b := by
  obtain ⟨d, hconveys, hread⟩ := h
  exact ⟨d, hconveys, map_eq_ok.mpr ⟨g b, hread, hinverse⟩⟩

/-- **A list is kept if its items are.** -/
theorem Keeps.list {c : Codec α} {values : List α} (h : ∀ a ∈ values, c.Keeps a) :
    c.list.Keeps values := by
  have hdrafts : ∃ drafts : List Draft,
      List.Forall₂ Value.Conveys (values.map c.write) drafts ∧
        List.Forall₂ (fun d a => c.read d = .ok a) drafts values := by
    induction values with
    | nil => exact ⟨[], .nil, .nil⟩
    | cons a values ih =>
      rw [List.forall_mem_cons] at h
      obtain ⟨d, hconveys, hread⟩ := h.1
      obtain ⟨drafts, hall, hreads⟩ := ih h.2
      exact ⟨d :: drafts, .cons hconveys hall, .cons hread hreads⟩
  obtain ⟨drafts, hconveys, hreads⟩ := hdrafts
  exact ⟨_, .array hconveys, read_list_eq_ok_iff.mpr ⟨drafts, rfl, hreads⟩⟩

end Codec

/-! ### Records -/

namespace Fields

variable {τ : Type} {fields : Fields τ} {values : τ}

/-- **Fields keep their values** if each of them does. -/
def Keeps {τ : Type} : Fields τ → τ → Prop
  | nil, _ => True
  | cons field rest, (v, vs) => field.codec.Keeps v ∧ rest.Keeps vs

/-- **Fields that keep their values are read back** from what their members convey. -/
theorem Keeps.exists_drafts (h : fields.Keeps values) (hnodup : fields.names.Nodup) :
    ∃ drafts : List (Name × Draft),
      List.Forall₂ Value.Conveys.Member (fields.members values) drafts ∧
        drafts.map Prod.fst = fields.names.map .ok ∧ fields.Reads drafts values := by
  induction fields with
  | nil => exact ⟨[], .nil, rfl, trivial⟩
  | cons field rest ih =>
    obtain ⟨v, vs⟩ := values
    obtain ⟨⟨d, hconveys, hread⟩, hrest⟩ := h
    rw [names, List.nodup_cons] at hnodup
    obtain ⟨drafts, hmembers, hnames, hreads⟩ := ih hrest hnodup.2
    refine ⟨(.ok field.name, d) :: drafts, .cons ⟨rfl, hconveys⟩ hmembers, ?_, ?_,
      (reads_cons_of_notMem hnodup.1).mpr hreads⟩
    · rw [List.map_cons, hnames]
      rfl
    · -- none of the later members has the name of this field
      have hnone : valuesOf field.name drafts = [] :=
        valuesOf_eq_nil (by simpa [hnames] using hnodup.1)
      rw [valuesOf_cons, if_pos rfl, hnone]
      exact hread

end Fields

/-- **A record is kept if its fields are.** -/
theorem Codec.Keeps.record {τ : Type} {fields : Fields τ} {values : τ} (h : fields.Keeps values)
    (hnodup : fields.names.Nodup) : (Codec.record fields).Keeps values := by
  obtain ⟨drafts, hmembers, hnames, hreads⟩ := h.exists_drafts hnodup
  refine ⟨_, .object hmembers, (Fields.readObject_eq_ok_iff hnodup).mpr ⟨rfl, ?_, hreads⟩⟩
  rintro ⟨given, d⟩ hmember
  have hgiven : given ∈ fields.names.map Except.ok :=
    hnames ▸ List.mem_map_of_mem (f := Prod.fst) hmember
  obtain ⟨name, hname, rfl⟩ := List.mem_map.mp hgiven
  exact Fields.accepts_ok_iff.mpr (Or.inl hname)

/-- **What is made of a record is kept if its parts are.** -/
theorem Codec.Keeps.of_parts {α τ : Type} {fields : Fields τ} {make : τ → α} {parts : α → τ} {a : α}
    (h : fields.Keeps (parts a)) (hmake : make (parts a) = a) (hnodup : fields.names.Nodup) :
    ((Codec.record fields).map make parts).Keeps a :=
  (record h hnodup).map hmake

end Json

end DepGraph
