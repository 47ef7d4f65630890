import DepGraph.Json.Value
import DepGraph.Proofs.Json.Rendering

/-!
# Values are read as they were written

Writing goes down a value. What a value *conveys* is what its text stands for, in any layout and at
any depth (`DepGraph.Json.Value.Conveys`). A text is written as one that quotes it, and a number as
a numeral. Arrays and objects are written as their items and members in brackets, with nothing but
blanks around each of them (`DepGraph.Json.encloses_lines`), so that they convey what the items and
the members do (`DepGraph.Json.Value.Conveys.array`, `DepGraph.Json.Value.Conveys.object`).

All of this is said for any layout whose blanks are blanks (`DepGraph.Json.Layout.Blank`), so it is
true of both of them.
-/

namespace DepGraph

namespace Json

open Reader

/-! ### Layouts -/

/-- **A layout of blanks.** -/
structure Layout.Blank (layout : Layout) : Prop where
  newline : ∀ depth, ∀ c ∈ layout.newline depth, Lexeme.isSpace c = true
  gap : ∀ c ∈ layout.gap, Lexeme.isSpace c = true

theorem Layout.blank_compact : Layout.compact.Blank where
  newline _ := List.forall_mem_nil _
  gap := List.forall_mem_nil _

theorem Layout.blank_pretty : Layout.pretty.Blank where
  newline depth := by
    rw [pretty, List.forall_mem_cons]
    refine ⟨rfl, fun c hc => ?_⟩
    rw [List.eq_of_mem_replicate hc]
    rfl
  gap := by
    rw [pretty, List.forall_mem_singleton]
    rfl

/-- **Texts on lines of their own**, with commas between them, are a list in brackets. -/
theorem encloses_lines {front back : List Char} (hfront : Blanks front) (hback : Blanks back)
    (opening closing : Char) (first : List Char) (others : List (List Char)) :
    Encloses opening closing (first :: others)
      (opening :: (front ++ first ++ others.flatMap (fun text => ',' :: (front ++ text)) ++ back ++
        [closing])) := by
  have hpadded : ∃ padded, List.Forall₂ Pads (first :: others) padded ∧
      [','].intercalate padded =
        front ++ first ++ others.flatMap (fun text => ',' :: (front ++ text)) ++ back := by
    induction others generalizing first with
    | nil =>
      refine ⟨[front ++ (first ++ back)], .cons ⟨front, back, hfront, hback, rfl⟩ .nil, ?_⟩
      simp
    | cons second others ih =>
      obtain ⟨padded, hpads, htext⟩ := ih second
      refine ⟨(front ++ (first ++ [])) :: padded, .cons ⟨front, [], hfront, blanks_nil, rfl⟩ hpads,
        ?_⟩
      have hne : padded ≠ [] := by
        rintro rfl
        cases hpads
      rw [List.intercalate_cons_of_ne_nil hne, htext]
      simp
  obtain ⟨padded, hpads, htext⟩ := hpadded
  rw [← htext]
  exact .items (List.cons_ne_nil _ _) hpads

/-! ### Values -/

namespace Value

/-- **A value conveys a draft** if the text of the value is read as the draft: in any layout, at
any depth, inside of anything, and whatever the text goes on with. -/
def Conveys (v : Value) (d : Draft) : Prop :=
  ∀ ⦃layout : Layout⦄, layout.Blank → ∀ ⦃reader : Reader⦄ ⦃inside : List Context⦄,
    reader.Awaits inside → ∀ ⦃rest : List Char⦄, Follows rest → ∀ depth,
      reader.takeAll (v.write layout depth ++ rest) = (complete d inside).takeAll rest

theorem conveys_iff {v : Value} {d : Draft} :
    v.Conveys d ↔ ∀ layout : Layout, layout.Blank → ∀ depth, StandsFor (v.write layout depth) d :=
  ⟨fun h _ hlayout depth _ _ hreader _ hrest => h hlayout hreader hrest depth,
    fun h _ hlayout _ _ hreader _ hrest depth => h _ hlayout depth hreader hrest⟩

theorem writeItems_eq (layout : Layout) (depth : Nat) (items : List Value) :
    writeItems layout depth items =
      (items.map (write layout depth)).flatMap fun text => ',' :: (layout.newline depth ++ text) := by
  induction items with
  | nil => rfl
  | cons item items ih => rw [writeItems, ih, List.map_cons, List.flatMap_cons, List.cons_append]

/-- The text of a member. -/
def writeMember (layout : Layout) (depth : Nat) (member : String × Value) : List Char :=
  Quoted.write member.1 ++ ':' :: (layout.gap ++ write layout depth member.2)

theorem writeMembers_eq (layout : Layout) (depth : Nat) (members : List (String × Value)) :
    writeMembers layout depth members =
      (members.map (writeMember layout depth)).flatMap
        fun text => ',' :: (layout.newline depth ++ text) := by
  induction members with
  | nil => rfl
  | cons member members ih =>
    rw [writeMembers, ih, List.map_cons, List.flatMap_cons, writeMember]
    simp

namespace Conveys

theorem text (content : String) : (Value.text content).Conveys (.text (.ok content)) := by
  refine conveys_iff.mpr fun layout _ depth => ?_
  rw [write]
  exact .of_isName (Quoted.quotes_write content).isName

/-- A numeral is conveyed by whatever is written like it. -/
theorem of_numeral {v : Value} {n : Numeral} {text : List Char}
    (hwrite : ∀ layout depth, v.write layout depth = text) (h : Numeral.read text = .ok (n, [])) :
    v.Conveys (.number n) := by
  refine conveys_iff.mpr fun layout _ depth => ?_
  rw [hwrite]
  exact .of_numeral h

theorem count (n : Nat) : (Value.count n).Conveys (.number (.ofNat n)) :=
  of_numeral (fun _ _ => by rw [Value.count, write]) (Numeral.read_integerText n)

theorem real {x : Float} {n : Numeral} (h : Numeral.read (realText x) = .ok (n, [])) :
    (Value.real x).Conveys (.number n) :=
  of_numeral (fun _ _ => by rw [write]) h

/-- **An array conveys what its items convey.** -/
theorem array {items : List Value} {drafts : List Draft} (h : List.Forall₂ Conveys items drafts) :
    (Value.array items).Conveys (.array drafts .closed) := by
  refine conveys_iff.mpr fun layout hlayout depth => ?_
  have hitems : List.Forall₂ StandsFor (items.map (write layout (depth + 1))) drafts :=
    List.forall₂_map_left_iff.mpr (h.imp fun _ _ hitem => conveys_iff.mp hitem layout hlayout _)
  refine .array hitems ?_
  cases items with
  | nil => exact .empty blanks_nil
  | cons item items =>
    rw [write, writeItems_eq]
    exact encloses_lines (blanks_iff.mpr (hlayout.newline _)) (blanks_iff.mpr (hlayout.newline _))
      '[' ']' _ _

/-- **A member conveys a named draft** if its value conveys the draft and the name is its own. -/
def Member (member : String × Value) (draft : Name × Draft) : Prop :=
  draft.1 = .ok member.1 ∧ member.2.Conveys draft.2

/-- **An object conveys what its members convey.** -/
theorem object {members : List (String × Value)} {drafts : List (Name × Draft)}
    (h : List.Forall₂ Member members drafts) :
    (Value.object members).Conveys (.object drafts .closed) := by
  refine conveys_iff.mpr fun layout hlayout depth => ?_
  let parts := fun member : String × Value =>
    (Quoted.write member.1, write layout (depth + 1) member.2)
  have hmembers : List.Forall₂ Names (members.map parts) drafts := by
    refine List.forall₂_map_left_iff.mpr (h.imp fun member draft hmember => ?_)
    obtain ⟨name, d⟩ := draft
    obtain ⟨rfl, hvalue⟩ : name = .ok member.1 ∧ member.2.Conveys d := hmember
    exact ⟨(Quoted.quotes_write _).isName, conveys_iff.mp hvalue layout hlayout _⟩
  have hjoined : List.Forall₂ Joins (members.map parts)
      (members.map (writeMember layout (depth + 1))) := by
    rw [List.forall₂_map_left_iff, List.forall₂_map_right_iff, List.forall₂_same]
    exact fun _ _ => ⟨[], _, blanks_nil, blanks_iff.mpr hlayout.gap, rfl⟩
  refine .object hmembers ⟨_, hjoined, ?_⟩
  cases members with
  | nil => exact .empty blanks_nil
  | cons member members =>
    have hwrite : (Value.object (member :: members)).write layout depth =
        '{' :: (layout.newline (depth + 1) ++ writeMember layout (depth + 1) member ++
          writeMembers layout (depth + 1) members ++ layout.newline depth ++ ['}']) := by
      rw [write, writeMember]
      simp
    rw [hwrite, writeMembers_eq]
    exact encloses_lines (blanks_iff.mpr (hlayout.newline _)) (blanks_iff.mpr (hlayout.newline _))
      '{' '}' _ _

/-! ### Whole texts -/

/-- **The text of a value is read as what the value conveys**, whichever the layout, and also with
blanks after it. -/
theorem ofText_write {v : Value} {d : Draft} (h : v.Conveys d) {layout : Layout}
    (hlayout : layout.Blank) {blanks : List Char}
    (hblanks : ∀ c ∈ blanks, Lexeme.isSpace c = true) :
    Document.ofText (String.ofList (v.write layout 0 ++ blanks)) = ⟨d, false⟩ :=
  (conveys_iff.mp h layout hlayout 0).ofText
    ⟨[], blanks, blanks_nil, blanks_iff.mpr hblanks, rfl⟩

end Conveys

end Value

end Json

end DepGraph
