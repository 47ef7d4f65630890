import DepGraph.Json.Draft
import DepGraph.Proofs.Except
import DepGraph.Proofs.Json.Numeral
import DepGraph.Proofs.Json.Quoted

/-!
# Texts are read as what they stand for

Reading is a fold over the lexemes of a text. A text *stands for* a draft if it leads a reader who
waits for a value to the same point as if it were handed the draft whole, whatever it is inside of
and whatever the text goes on with (`DepGraph.Json.StandsFor`). Quoted texts and numerals are single
lexemes, for which this is seen at once. An array stands for what its items stand for
(`DepGraph.Json.StandsFor.array`), and an object for what its members do
(`DepGraph.Json.StandsFor.object`), because the reader comes past the brackets, the separators and
the blanks between them one at a time; this is the same for both of them
(`DepGraph.Json.Reader.Passage.takeAll_encloses`).

Every value stands for a draft that can be skipped (`DepGraph.Json.IsValue.exists_standsFor`), even
if it could not be decoded.
-/

namespace DepGraph

namespace Json

/-! ### Lexemes -/

namespace Lexeme

theorem isSpace_iff {c : Char} : isSpace c = true ↔ c ∈ [' ', '\t', '\n', '\r'] := by
  simp [isSpace, or_assoc]

theorem after_of_digit {c : Char} (h : c = '-' ∨ c.isDigit = true) (rest : List Char) :
    after c rest = numeral (c :: rest) := by
  have hne : ∀ c' : Char, c'.isDigit = false → c' ≠ '-' → c ≠ c' := by
    rintro c' hdigit hminus rfl
    rcases h with h | h
    · exact hminus h
    · rw [hdigit] at h
      cases h
  have hmark : mark? c = none := by simp [mark?, hne]
  have hword : word? c = none := by simp [word?, hne]
  rw [after, hmark, hword]
  dsimp only
  rw [if_neg (hne '"' rfl (by decide)), if_pos h]

end Lexeme

theorem blanks_iff {text : List Char} :
    Blanks text ↔ ∀ c ∈ text, Lexeme.isSpace c = true := by
  simp only [Blanks, Lexeme.isSpace_iff]

theorem blanks_nil : Blanks [] := List.forall_mem_nil _

theorem Pads.refl (text : List Char) : Pads text text :=
  ⟨[], [], blanks_nil, blanks_nil, (List.append_nil text).symm⟩

namespace Reader

variable {reader : Reader} {text rest : List Char}

theorem takeAll_nil (reader : Reader) : reader.takeAll [] = reader := by
  rw [takeAll]
  rfl

theorem takeAll_of_next? {lexeme : Lexeme} (h : Lexeme.next? text = some (lexeme, rest)) :
    reader.takeAll text = (reader.take lexeme).takeAll rest := by
  rw [takeAll]
  split
  · next h' =>
    rw [h] at h'
    cases h'
  · next h' =>
    rw [h] at h'
    cases h'
    rfl

/-- Blanks are passed over. -/
theorem takeAll_blanks {blanks : List Char} (h : Blanks blanks) :
    reader.takeAll (blanks ++ text) = reader.takeAll text := by
  have hnext : Lexeme.next? (blanks ++ text) = Lexeme.next? text := by
    rw [Lexeme.next?, Lexeme.next?, List.dropWhile_append_of_pos (blanks_iff.mp h)]
  rw [takeAll, takeAll, hnext]

/-- The lexeme that begins with a character which is not a blank. -/
theorem takeAll_cons {c : Char} {lexeme : Lexeme} (hspace : Lexeme.isSpace c = false)
    (h : Lexeme.after c text = (lexeme, rest)) :
    reader.takeAll (c :: text) = (reader.take lexeme).takeAll rest := by
  refine takeAll_of_next? ?_
  rw [Lexeme.next?, List.dropWhile_cons_of_neg (by simp [hspace])]
  exact congrArg some h

/-- **Brackets and separators** are lexemes. -/
theorem takeAll_mark (c : Char) {lexeme : Lexeme} (h : Lexeme.mark? c = some lexeme) :
    reader.takeAll (c :: rest) = (reader.take lexeme).takeAll rest := by
  refine takeAll_cons ?_ ?_
  · rw [← Bool.not_eq_true, Lexeme.isSpace_iff]
    simp only [List.mem_cons, List.not_mem_nil, or_false]
    rintro (rfl | rfl | rfl | rfl) <;> cases h
  · rw [Lexeme.after, h]

/-- **A numeral** is one lexeme, if the text does not go on with it. -/
theorem takeAll_numeral {n : Numeral} (h : Numeral.read text = .ok (n, []))
    (hrest : Numeral.Beyond rest) :
    reader.takeAll (text ++ rest) = (reader.take (.number n)).takeAll rest := by
  obtain ⟨c, more, rfl, hc⟩ := Numeral.exists_cons_of_read h
  have hread : Numeral.read (c :: (more ++ rest)) = .ok (n, rest) := Numeral.read_append h hrest
  rw [List.cons_append]
  refine takeAll_cons ?_ ?_
  · rw [← Bool.not_eq_true, Lexeme.isSpace_iff]
    simp only [List.mem_cons, List.not_mem_nil, or_false]
    rintro (rfl | rfl | rfl | rfl) <;> revert hc <;> decide
  · rw [Lexeme.after_of_digit hc, Lexeme.numeral, hread]

/-- **A reader who waits for a value**, inside of something. Where an array begins, a value is not
the only thing that may come, as the array may also end. -/
def Awaits (reader : Reader) (inside : List Context) : Prop :=
  ∀ lexeme, lexeme ≠ .closeArray → reader.take lexeme = takeValue inside lexeme

theorem awaits_wantValue (inside : List Context) : (wantValue inside).Awaits inside :=
  fun _ _ => rfl

theorem awaits_firstItem (inside : List Context) :
    (firstItem inside).Awaits (.item [] :: inside) := by
  intro lexeme hlexeme
  cases lexeme with
  | closeArray => exact absurd rfl hlexeme
  | _ => rfl

end Reader

/-! ### What can come after a value -/

/-- **A text that can go on after a value.** -/
def Follows (rest : List Char) : Prop :=
  ∀ c ∈ rest.head?, Lexeme.isSpace c = true ∨ c ∈ [',', ']', '}']

theorem Follows.beyond {rest : List Char} (h : Follows rest) : Numeral.Beyond rest := by
  intro c hc
  have hmem : c ∈ [' ', '\t', '\n', '\r'] ++ [',', ']', '}'] := by
    rw [List.mem_append, ← Lexeme.isSpace_iff]
    exact h c hc
  simp only [List.cons_append, List.nil_append, List.mem_cons, List.not_mem_nil, or_false] at hmem
  rcases hmem with rfl | rfl | rfl | rfl | rfl | rfl | rfl <;> decide

theorem follows_nil : Follows [] := nofun

theorem follows_cons {c : Char} (h : c ∈ [',', ']', '}']) (rest : List Char) :
    Follows (c :: rest) := by
  intro c' hc'
  obtain rfl : c = c' := Option.some.inj hc'
  exact Or.inr h

theorem Follows.blanks_append {blanks rest : List Char} (h : Follows rest)
    (hblanks : Blanks blanks) : Follows (blanks ++ rest) := by
  rcases blanks with _ | ⟨c, blanks⟩
  · exact h
  · intro c' hc'
    obtain rfl : c = c' := Option.some.inj hc'
    exact Or.inl (blanks_iff.mp hblanks c List.mem_cons_self)

/-! ### Quoted texts -/

/-- **A text that is read as a name**, or as another quoted text: it is one lexeme. -/
def IsName (text : List Char) (content : Name) : Prop :=
  ∀ ⦃reader : Reader⦄ ⦃rest : List Char⦄,
    reader.takeAll (text ++ rest) = (reader.take (.text content)).takeAll rest

namespace Quoted

variable {text : List Char}

theorem takeAll_quote {reader : Reader} {rest : List Char} {content : Name} {left : List Char}
    (h : Lexeme.quoted rest = (.text content, left)) :
    reader.takeAll ('"' :: rest) = (reader.take (.text content)).takeAll left := by
  have hafter : ∀ more, Lexeme.after '"' more = Lexeme.quoted more := fun _ => rfl
  exact Reader.takeAll_cons rfl ((hafter rest).trans h)

/-- **A text that quotes another** is read as the other. -/
theorem Quotes.isName {content : String} (h : Quotes content text) : IsName text (.ok content) := by
  obtain ⟨inner, rfl, hscan⟩ := h.exists_scan
  intro reader rest
  rw [List.cons_append]
  refine takeAll_quote ?_
  rw [Lexeme.quoted, hscan]

/-- **Every quoted text** is read as one, even if nothing can be made of it. -/
theorem IsQuoted.exists_isName (h : IsQuoted text) : ∃ content, IsName text content := by
  obtain ⟨pieces, hpieces, rfl⟩ := h
  obtain ⟨content, hscan⟩ := exists_scan_pieces hpieces []
  refine ⟨content, fun reader rest => ?_⟩
  rw [List.cons_append, List.append_assoc]
  refine takeAll_quote ?_
  change Lexeme.quoted (pieces.flatten ++ '"' :: rest) = _
  rw [Lexeme.quoted, hscan]
  rcases content with failure | content
  · obtain ⟨skipped, hskipped⟩ := exists_scan_skipped hpieces [] rest
    rw [hskipped]
    rfl
  · rfl

end Quoted

/-! ### Members of two lists -/

/-- What is made of the same members belongs together. -/
theorem forall₂_of_common {α β γ : Type} {R : α → β → Prop} {S : α → γ → Prop} {T : β → γ → Prop}
    (hT : ∀ a b c, R a b → S a c → T b c) {as : List α} {bs : List β} {cs : List γ}
    (hR : List.Forall₂ R as bs) (hS : List.Forall₂ S as cs) : List.Forall₂ T bs cs := by
  induction hR generalizing cs with
  | nil =>
    obtain rfl := List.forall₂_nil_left_iff.mp hS
    exact .nil
  | cons hfirst _ ih =>
    obtain ⟨c, cs, hc, hcs, rfl⟩ := List.forall₂_cons_left_iff.mp hS
    exact .cons (hT _ _ _ hfirst hc) (ih hcs)

/-! ### Single lexemes -/

open Reader

/-- **A text stands for a draft** if it is read as the draft, inside of anything and whatever the
text goes on with. -/
def StandsFor (text : List Char) (d : Draft) : Prop :=
  ∀ ⦃reader : Reader⦄ ⦃inside : List Context⦄, reader.Awaits inside → ∀ ⦃rest : List Char⦄,
    Follows rest → reader.takeAll (text ++ rest) = (complete d inside).takeAll rest

namespace StandsFor

variable {text : List Char}

theorem of_isName {content : Name} (h : IsName text content) : StandsFor text (.text content) := by
  intro reader inside hreader rest _
  rw [h, hreader (.text content) nofun]
  rfl

/-- A numeral stands for itself. -/
theorem of_numeral {n : Numeral} (h : Numeral.read text = .ok (n, [])) :
    StandsFor text (.number n) := by
  intro reader inside hreader rest hrest
  rw [takeAll_numeral h hrest.beyond, hreader (.number n) nofun]
  rfl

theorem null : StandsFor ['n', 'u', 'l', 'l'] .null := by
  intro reader inside hreader rest _
  have hread : reader.takeAll (['n', 'u', 'l', 'l'] ++ rest) = (reader.take .null).takeAll rest :=
    takeAll_cons rfl rfl
  rw [hread, hreader .null nofun]
  rfl

theorem true : StandsFor ['t', 'r', 'u', 'e'] (.bool .true) := by
  intro reader inside hreader rest _
  have hread : reader.takeAll (['t', 'r', 'u', 'e'] ++ rest) =
      (reader.take (.bool .true)).takeAll rest := takeAll_cons rfl rfl
  rw [hread, hreader (.bool .true) nofun]
  rfl

theorem false : StandsFor ['f', 'a', 'l', 's', 'e'] (.bool .false) := by
  intro reader inside hreader rest _
  have hread : reader.takeAll (['f', 'a', 'l', 's', 'e'] ++ rest) =
      (reader.take (.bool .false)).takeAll rest := takeAll_cons rfl rfl
  rw [hread, hreader (.bool .false) nofun]
  rfl

end StandsFor

/-! ### Lists in brackets -/

namespace Reader

/-- **How a reader goes through a list in brackets**, collecting what the items are read as. What
has been collected has the last item first. -/
structure Passage (δ : Type) (Reads : List Char → δ → Prop) (closing : Char) where
  /-- The reader at the beginning, when an item may come or the end. -/
  first : Reader
  /-- The reader after some items and a comma, when another item has to come. -/
  more : List δ → Reader
  /-- The reader after some items, when a comma may come or the end. -/
  after : List δ → Reader
  /-- The reader after the end. -/
  done : List δ → Reader
  /-- The closing bracket. -/
  close : Lexeme
  mark_close : Lexeme.mark? closing = some close
  follows_close : closing ∈ [',', ']', '}']
  takeAll_first : ∀ {text d rest}, Reads text d → Follows rest →
    first.takeAll (text ++ rest) = (after [d]).takeAll rest
  takeAll_more : ∀ {before text d rest}, Reads text d → Follows rest →
    (more before).takeAll (text ++ rest) = (after (d :: before)).takeAll rest
  take_comma : ∀ before, (after before).take .comma = more before
  take_close_first : first.take close = done []
  take_close_after : ∀ before, (after before).take close = done before.reverse

namespace Passage

variable {δ : Type} {Reads : List Char → δ → Prop} {closing : Char}
  {items padded : List (List Char)} {ds : List δ}

theorem intercalate_comma_cons (first : List Char) (others : List (List Char)) :
    [','].intercalate (first :: others) = first ++ others.flatMap (',' :: ·) := by
  induction others generalizing first with
  | nil => rw [List.intercalate_singleton, List.flatMap_nil, List.append_nil]
  | cons second others ih =>
    rw [List.intercalate_cons_cons, ih, List.flatMap_cons, List.append_assoc]
    rfl

/-- What comes after an item: a comma with another one, or the closing bracket. -/
theorem follows (p : Passage δ Reads closing) (padded : List (List Char)) (rest : List Char) :
    Follows (padded.flatMap (',' :: ·) ++ closing :: rest) := by
  rcases padded with _ | ⟨item, padded⟩
  · exact follows_cons p.follows_close rest
  · exact follows_cons (by decide) _

/-- The items after the first one are read one after another. -/
theorem takeAll_after (p : Passage δ Reads closing) (h : List.Forall₂ Reads items ds)
    (hpads : List.Forall₂ Pads items padded) (before : List δ) (rest : List Char) :
    (p.after before).takeAll (padded.flatMap (',' :: ·) ++ closing :: rest) =
      (p.done (before.reverse ++ ds)).takeAll rest := by
  induction h generalizing padded before with
  | nil =>
    obtain rfl := List.forall₂_nil_left_iff.mp hpads
    rw [List.flatMap_nil, List.nil_append, takeAll_mark closing p.mark_close, p.take_close_after,
      List.append_nil]
  | @cons item d items ds hitem _ ih =>
    obtain ⟨_, padded, ⟨front, back, hfront, hback, rfl⟩, hpads', rfl⟩ :=
      List.forall₂_cons_left_iff.mp hpads
    simp only [List.flatMap_cons, List.cons_append, List.append_assoc]
    rw [takeAll_mark ',' rfl, p.take_comma, takeAll_blanks hfront,
      p.takeAll_more hitem ((p.follows padded rest).blanks_append hback), takeAll_blanks hback,
      ih hpads', List.reverse_cons, List.append_assoc]
    rfl

/-- **A list in brackets** is read as what its items are read as. -/
theorem takeAll_encloses (p : Passage δ Reads closing) (h : List.Forall₂ Reads items ds)
    {opening : Char} {text : List Char} (htext : Encloses opening closing items text) :
    ∃ inner, text = opening :: inner ∧
      ∀ rest, p.first.takeAll (inner ++ rest) = (p.done ds).takeAll rest := by
  cases htext with
  | @empty blanks hblanks =>
    obtain rfl := List.forall₂_nil_left_iff.mp h
    refine ⟨_, rfl, fun rest => ?_⟩
    rw [List.append_assoc, takeAll_blanks hblanks, List.singleton_append,
      takeAll_mark closing p.mark_close, p.take_close_first]
  | @items _ padded hne hpads =>
    refine ⟨_, rfl, fun rest => ?_⟩
    cases h with
    | nil => exact absurd rfl hne
    | @cons item d items ds hitem hitems =>
      obtain ⟨_, padded, ⟨front, back, hfront, hback, rfl⟩, hpads', rfl⟩ :=
        List.forall₂_cons_left_iff.mp hpads
      rw [intercalate_comma_cons]
      simp only [List.append_assoc, List.singleton_append]
      rw [takeAll_blanks hfront, p.takeAll_first hitem ((p.follows padded rest).blanks_append hback),
        takeAll_blanks hback]
      exact p.takeAll_after hitems hpads' [d] rest

/-- The passage through an array. -/
def array (inside : List Context) : Passage Draft StandsFor ']' where
  first := firstItem inside
  more before := wantValue (.item before :: inside)
  after before := afterItem before inside
  done items := complete (.array items .closed) inside
  close := .closeArray
  mark_close := rfl
  follows_close := by decide
  takeAll_first hitem hrest := hitem (awaits_firstItem inside) hrest
  takeAll_more hitem hrest := hitem (awaits_wantValue _) hrest
  take_comma _ := rfl
  take_close_first := rfl
  take_close_after _ := rfl

end Passage

end Reader

/-- **A member stands for a named draft** if its name is read as the name, and its value stands for
the draft. -/
def Names (member : List Char × List Char) (draft : Name × Draft) : Prop :=
  IsName member.1 draft.1 ∧ StandsFor member.2 draft.2

namespace Reader

/-- A reader who waits for a name, and then is given the name and the value of a member. -/
theorem takeAll_joins {member : List Char × List Char} {draft : Name × Draft} {text rest : List Char}
    (hmember : Names member draft) (htext : Joins member text) {reader : Reader}
    {before : List (Name × Draft)} {inside : List Context}
    (hreader : ∀ name, reader.take (.text name) = wantColon before name inside)
    (hrest : Follows rest) :
    reader.takeAll (text ++ rest) = (afterMember (draft :: before) inside).takeAll rest := by
  obtain ⟨front, back, hfront, hback, rfl⟩ := htext
  obtain ⟨hname, hvalue⟩ := hmember
  have hcolon : (wantColon before draft.1 inside).take .colon =
      wantValue (.member before draft.1 :: inside) := rfl
  simp only [List.append_assoc, List.cons_append]
  rw [hname, hreader, takeAll_blanks hfront, takeAll_mark ':' rfl, hcolon, takeAll_blanks hback,
    hvalue (awaits_wantValue _) hrest]
  rfl

/-- The passage through an object. -/
def Passage.object (inside : List Context) :
    Passage (Name × Draft) (fun text draft => ∃ member, Names member draft ∧ Joins member text)
      '}' where
  first := firstName inside
  more before := wantName before inside
  after before := afterMember before inside
  done members := complete (.object members .closed) inside
  close := .closeObject
  mark_close := rfl
  follows_close := by decide
  takeAll_first := fun ⟨_, hmember, hjoins⟩ hrest => takeAll_joins hmember hjoins (fun _ => rfl) hrest
  takeAll_more := fun ⟨_, hmember, hjoins⟩ hrest => takeAll_joins hmember hjoins (fun _ => rfl) hrest
  take_comma _ := rfl
  take_close_first := rfl
  take_close_after _ := rfl

end Reader

namespace StandsFor

variable {text : List Char}

/-- **An array stands for what its items stand for.** -/
theorem array {items : List (List Char)} {drafts : List Draft}
    (h : List.Forall₂ StandsFor items drafts) (htext : WritesArray items text) :
    StandsFor text (.array drafts .closed) := by
  intro reader inside hreader rest _
  obtain ⟨inner, rfl, hinner⟩ := (Passage.array inside).takeAll_encloses h htext
  have hopen : reader.take .openArray = (Passage.array inside).first := hreader _ nofun
  rw [List.cons_append, takeAll_mark '[' rfl, hopen, hinner]
  rfl

/-- **An object stands for what its members stand for.** -/
theorem object {members : List (List Char × List Char)} {drafts : List (Name × Draft)}
    (h : List.Forall₂ Names members drafts) (htext : WritesObject members text) :
    StandsFor text (.object drafts .closed) := by
  intro reader inside hreader rest _
  obtain ⟨joined, hjoined, hencloses⟩ := htext
  have hreads : List.Forall₂ (fun text draft => ∃ member, Names member draft ∧ Joins member text)
      joined drafts :=
    forall₂_of_common (fun member _ _ hjoins hmember => ⟨member, hmember, hjoins⟩) hjoined h
  obtain ⟨inner, rfl, hinner⟩ := (Passage.object inside).takeAll_encloses hreads hencloses
  have hopen : reader.take .openObject = (Passage.object inside).first := hreader _ nofun
  rw [List.cons_append, takeAll_mark '{' rfl, hopen, hinner]
  rfl

/-- **A text with blanks around it** is a document that holds what it stands for. -/
theorem ofText {d : Draft} (h : StandsFor text d) {padded : List Char} (hpads : Pads text padded) :
    Document.ofText (String.ofList padded) = ⟨d, Bool.false⟩ := by
  obtain ⟨front, back, hfront, hback, rfl⟩ := hpads
  have hfollows : Follows (back ++ []) := follows_nil.blanks_append hback
  rw [List.append_nil] at hfollows
  have hend : (complete d []).takeAll back = complete d [] := by
    rw [← List.append_nil back, takeAll_blanks hback, takeAll_nil]
  rw [Document.ofText, String.toList_ofList, takeAll_blanks hfront,
    h (awaits_wantValue []) hfollows, hend]
  rfl

end StandsFor

/-! ### Values that are skipped -/

theorem skippedItems_eq_none {items : List Draft} (h : ∀ d ∈ items, d.skipped = none) :
    Draft.skippedItems items = none := by
  induction items with
  | nil => rfl
  | cons d items ih =>
    rw [List.forall_mem_cons] at h
    rw [Draft.skippedItems, h.1, ih h.2]
    rfl

theorem skippedMembers_eq_none {members : List (Name × Draft)}
    (h : ∀ member ∈ members, member.2.skipped = none) : Draft.skippedMembers members = none := by
  induction members with
  | nil => rfl
  | cons member members ih =>
    rw [List.forall_mem_cons] at h
    rw [Draft.skippedMembers, h.1, ih h.2]
    rfl

/-- **Every value stands for a draft that can be skipped.** -/
theorem IsValue.exists_standsFor {text : List Char} (h : IsValue text) :
    ∃ d, StandsFor text d ∧ d.skipped = none := by
  induction h with
  | null => exact ⟨_, .null, rfl⟩
  | true => exact ⟨_, .true, rfl⟩
  | false => exact ⟨_, .false, rfl⟩
  | numeral h =>
    obtain ⟨n, hread⟩ := h.exists_read
    exact ⟨_, .of_numeral hread, rfl⟩
  | quoted h =>
    obtain ⟨content, hname⟩ := h.exists_isName
    exact ⟨_, .of_isName hname, rfl⟩
  | array _ htext ih =>
    obtain ⟨drafts, hdrafts, hskipped⟩ := exists_forall₂ ih
    refine ⟨_, .array hdrafts htext, ?_⟩
    rw [Draft.skipped, skippedItems_eq_none hskipped]
    rfl
  | object hnames _ htext ih =>
    have hmembers : ∀ member ∈ _, ∃ draft, Names member draft ∧ draft.2.skipped = none :=
      fun member hmember => by
        obtain ⟨content, hname⟩ := (hnames member hmember).exists_isName
        obtain ⟨d, hvalue, hskipped⟩ := ih member hmember
        exact ⟨(content, d), ⟨hname, hvalue⟩, hskipped⟩
    obtain ⟨drafts, hdrafts, hskipped⟩ := exists_forall₂ hmembers
    refine ⟨_, .object hdrafts htext, ?_⟩
    rw [Draft.skipped, skippedMembers_eq_none hskipped]
    rfl

end Json

end DepGraph
