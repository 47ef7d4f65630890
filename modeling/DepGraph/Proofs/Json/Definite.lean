import DepGraph.Proofs.Decimal
import DepGraph.Wire

/-!
# What is written as `null`

Only two things are written as `null`: nothing, and a double that is not a number
(`DepGraph.Json.Value.write_eq_null_iff`). A value is *definite* if no part of it is. The answers
to questions have no part that is nothing, so they are definite as soon as the weights in them are
numbers (`DepGraph.Report.definite_toValue_iff`).
-/

namespace DepGraph

namespace Json

namespace Value

/-! ### Texts -/

theorem forall_isNumeral_integerText (i : Int) : ∀ c ∈ integerText i, IsNumeral c := by
  rw [integerText]
  split
  · rw [List.forall_mem_cons]
    exact ⟨Or.inr (by decide), forall_isNumeral_toDigits _⟩
  · exact forall_isNumeral_toDigits _

/-- The text of a number is not `null`. -/
theorem ne_null_of_isNumeral {text : List Char} (h : ∀ c ∈ text, IsNumeral c) :
    text ≠ ['n', 'u', 'l', 'l'] := by
  rintro rfl
  have hn : IsNumeral 'n' := h 'n' List.mem_cons_self
  exact absurd hn (by rintro (h | h) <;> revert h <;> decide)

theorem realText_eq_null_iff (x : Float) :
    realText x = ['n', 'u', 'l', 'l'] ↔ x.isFinite = false := by
  rw [realText, ← DecimalForm.isSome_text? .record]
  rcases htext : DecimalForm.record.text? (.ofFloat x) with _ | text
  · exact iff_of_true rfl rfl
  · exact iff_of_false (ne_null_of_isNumeral (DecimalForm.isNumeral_of_mem_text? htext)) nofun

theorem write_ne_null {layout : Layout} {depth : Nat} {v : Value} (hnull : v ≠ .null)
    (hreal : ∀ x, v ≠ .real x) : v.write layout depth ≠ ['n', 'u', 'l', 'l'] := by
  cases v with
  | null => exact absurd rfl hnull
  | real x => exact absurd rfl (hreal x)
  | bool b => cases b <;> simp [write]
  | integer i =>
    rw [write]
    exact ne_null_of_isNumeral (forall_isNumeral_integerText i)
  | text content => simp [write, Quoted.write]
  | array items => cases items <;> simp [write]
  | object members => cases members <;> simp [write]

/-- **What is written as `null`**: nothing, and doubles that are not numbers. -/
theorem write_eq_null_iff {layout : Layout} {depth : Nat} {v : Value} :
    v.write layout depth = ['n', 'u', 'l', 'l'] ↔
      v = .null ∨ ∃ x : Float, v = .real x ∧ x.isFinite = false := by
  cases v with
  | null => exact iff_of_true (by rw [write]) (Or.inl rfl)
  | real x =>
    rw [write, realText_eq_null_iff]
    constructor
    · intro h
      exact Or.inr ⟨x, rfl, h⟩
    · rintro (h | ⟨y, hy, h⟩)
      · cases h
      · cases hy
        exact h
  | bool _ | integer _ | text _ | array _ | object _ =>
    refine iff_of_false (write_ne_null nofun nofun) ?_
    rintro (h | ⟨x, h, -⟩) <;> cases h

/-! ### Parts of values -/

/-- **A part of a value**: the value itself, an item or a member of it, or a part of these. -/
inductive Within : Value → Value → Prop
  | here (v : Value) : Within v v
  | item {u v : Value} {items : List Value} (mem : v ∈ items) (within : Within u v) :
    Within u (.array items)
  | member {u v : Value} {name : String} {members : List (String × Value)}
    (mem : (name, v) ∈ members) (within : Within u v) : Within u (.object members)

/-- **A value of which no part is written as `null`**, however it is laid out. -/
def Definite (v : Value) : Prop :=
  ∀ u : Value, u.Within v → ∀ layout depth, u.write layout depth ≠ ['n', 'u', 'l', 'l']

variable {v : Value}

@[simp] theorem definite_text (content : String) : (text content).Definite := by
  rintro u ⟨⟩ layout depth
  simp [write_eq_null_iff]

@[simp] theorem definite_count (n : Nat) : (count n).Definite := by
  rintro u ⟨⟩ layout depth
  simp [count, write_eq_null_iff]

@[simp] theorem definite_real_iff (x : Float) : (real x).Definite ↔ x.isFinite = true := by
  constructor
  · intro h
    have hwrite := h (real x) (.here _) .compact 0
    simpa [write_eq_null_iff] using hwrite
  · rintro h u ⟨⟩ layout depth
    simp [write_eq_null_iff, h]

@[simp] theorem definite_array_iff (items : List Value) :
    (array items).Definite ↔ ∀ v ∈ items, v.Definite := by
  constructor
  · intro h v hv u hu
    exact h u (.item hv hu)
  · rintro h u (⟨⟩ | ⟨hv, hu⟩) layout depth
    · simp [write_eq_null_iff]
    · exact h _ hv u hu layout depth

@[simp] theorem definite_object_iff (members : List (String × Value)) :
    (object members).Definite ↔ ∀ member ∈ members, member.2.Definite := by
  constructor
  · intro h member hmember u hu
    exact h u (.member hmember hu)
  · rintro h u (⟨⟩ | _ | ⟨hv, hu⟩) layout depth
    · simp [write_eq_null_iff]
    · exact h _ hv u hu layout depth

end Value

end Json

/-! ### Answers -/

open Json (Value)

theorem EdgeSummary.definite_write_iff (e : EdgeSummary) :
    (EdgeSummary.codec.write e).Definite ↔ e.weight.isFinite = true := by
  change (Value.object [("source", .text e.source), ("target", .text e.target),
    ("type", .text e.type), ("weight", .real e.weight)]).Definite ↔ _
  simp

theorem AffectedFile.definite_write (f : AffectedFile) :
    (AffectedFile.codec.write f).Definite := by
  change (Value.object [("path", .text f.path), ("distance", .count f.distance)]).Definite
  simp

theorem Hotspot.definite_write (h : Hotspot) : (Hotspot.codec.write h).Definite := by
  change (Value.object [("path", .text h.path), ("outDegree", .count h.outDegree),
    ("inDegree", .count h.inDegree), ("totalDegree", .count h.totalDegree)]).Definite
  simp

namespace Report

/-- The weights in an answer. -/
def weights : Report → List Float
  | edges listing => listing.edges.map (·.weight)
  | impact _ => []
  | cycles _ => []
  | hotspots _ => []

/-- **An answer is definite exactly if its weights are numbers.** -/
theorem definite_toValue_iff (report : Report) :
    report.toValue.Definite ↔ ∀ w ∈ report.weights, w.isFinite = true := by
  cases report with
  | edges listing =>
    change (Value.object [("edges", .array (listing.edges.map EdgeSummary.codec.write)),
      ("total", .count listing.total)]).Definite ↔ _
    simp [weights, EdgeSummary.definite_write_iff]
  | impact report =>
    change (Value.object [("source", .text report.source),
      ("affectedFiles", .array (report.affectedFiles.map AffectedFile.codec.write)),
      ("totalImpact", .count report.totalImpact),
      ("maxDepth", .count report.maxDepth)]).Definite ↔ _
    simp [weights, AffectedFile.definite_write]
  | cycles report =>
    change (Value.object [
      ("cycles", .array (report.cycles.map fun told => .array (told.map .text))),
      ("total", .count report.total)]).Definite ↔ _
    simp [weights]
  | hotspots report =>
    change (Value.object [
      ("hotspots", .array (report.hotspots.map Hotspot.codec.write))]).Definite ↔ _
    simp [weights, Hotspot.definite_write]

end Report

end DepGraph
