import DepGraph.Json.Lexeme

/-!
# Drafts: what a text says, as far as it says anything

Whether a broken text is a failure of one kind or another depends on what it was going to
be read as, so a text is turned into a tree first and asked afterwards. The tree of a
broken text is a *draft*: it holds everything up to the first fault, and at the fault it
stops – arrays and objects that were still being written are cut off there. Texts without
faults have drafts too, only that nothing in them is cut off.

Reading runs through the lexemes once, from left to right, and remembers only which
arrays and objects it is inside of (`DepGraph.Json.Context`). So it is a fold, and how
deep a text nests is no concern of it.
-/

namespace DepGraph.Json

/-- How an array or an object ends. -/
inductive Ending
  /-- With its closing bracket. -/
  | closed
  /-- At a fault. -/
  | cut (fault : Fault)
deriving DecidableEq, Repr

/-- What a text says, as far as it says anything. -/
inductive Draft
  | null
  | bool (b : Bool)
  | number (n : Numeral)
  /-- A quoted text, if it can be decoded, or else the reason why not. -/
  | text (content : Except Category String)
  | array (items : List Draft) (ending : Ending)
  /-- The members in their order, each with its name. -/
  | object (members : List (Except Category String × Draft)) (ending : Ending)
  /-- No value, because of a fault. -/
  | broken (fault : Fault)
deriving Inhabited

/-- A name as it stands in front of a member. -/
abbrev Name := Except Category String

/-! ### Skipping -/

/-- What an ending amounts to if the value is skipped. -/
def Ending.skipped : Ending → Option Category
  | closed => none
  | cut fault => some fault.skipped

namespace Draft

mutual

/-- The failure of skipping a value, if there is one: the first fault in it. -/
def skipped : Draft → Option Category
  | array items ending => (skippedItems items).or ending.skipped
  | object members ending => (skippedMembers members).or ending.skipped
  | broken fault => some fault.skipped
  | _ => none

/-- The first fault in the items of an array. -/
def skippedItems : List Draft → Option Category
  | [] => none
  | item :: rest => (skipped item).or (skippedItems rest)

/-- The first fault in the members of an object. -/
def skippedMembers : List (Name × Draft) → Option Category
  | [] => none
  | (_, value) :: rest => (skipped value).or (skippedMembers rest)

end

end Draft

/-! ### Reading -/

/-- An array or an object that a value is about to be put into. -/
inductive Context
  /-- An array with the items before the value, the last one first. -/
  | item (before : List Draft)
  /-- An object with the members before the value, the last one first, and its name. -/
  | member (before : List (Name × Draft)) (name : Name)

/-- What can come next. All lists have the last element first, and contexts the innermost
one. -/
inductive Reader
  /-- A value. -/
  | wantValue (inside : List Context)
  /-- The first item of an array, or its end. -/
  | firstItem (inside : List Context)
  /-- A comma, or the end of an array. -/
  | afterItem (items : List Draft) (inside : List Context)
  /-- The first name of an object, or its end. -/
  | firstName (inside : List Context)
  /-- A name. -/
  | wantName (members : List (Name × Draft)) (inside : List Context)
  /-- A colon. -/
  | wantColon (members : List (Name × Draft)) (name : Name) (inside : List Context)
  /-- A comma, or the end of an object. -/
  | afterMember (members : List (Name × Draft)) (inside : List Context)
  /-- Nothing; and whether something came all the same. -/
  | finished (value : Draft) (trailing : Bool)

/-- A whole text: its value, and whether anything comes after it. -/
structure Document where
  value : Draft
  trailing : Bool
deriving Inhabited

namespace Reader

/-- Put a complete value where it belongs. -/
def complete (value : Draft) : List Context → Reader
  | [] => finished value false
  | .item before :: inside => afterItem (value :: before) inside
  | .member before name :: inside => afterMember ((name, value) :: before) inside

/-- Put a value that a fault has ended where it belongs, and end everything around it. -/
def cutOff (fault : Fault) (value : Draft) : List Context → Draft
  | [] => value
  | .item before :: inside =>
    cutOff fault (.array (value :: before).reverse (.cut fault)) inside
  | .member before name :: inside =>
    cutOff fault (.object ((name, value) :: before).reverse (.cut fault)) inside

/-- Stop at a fault where a value should be. -/
def stop (fault : Fault) (inside : List Context) : Draft := cutOff fault (.broken fault) inside

/-- Stop at a fault inside an array. -/
def stopItems (fault : Fault) (items : List Draft) (inside : List Context) : Draft :=
  cutOff fault (.array items.reverse (.cut fault)) inside

/-- Stop at a fault inside an object. -/
def stopMembers (fault : Fault) (members : List (Name × Draft)) (inside : List Context) : Draft :=
  cutOff fault (.object members.reverse (.cut fault)) inside

/-- The fault of a lexeme that does not belong where it is. -/
def misplaced : Fault := .of .malformed

/-- Take the lexeme in the place of a value. -/
def takeValue (inside : List Context) : Lexeme → Reader
  | .null => complete .null inside
  | .bool b => complete (.bool b) inside
  | .number n => complete (.number n) inside
  | .text content => complete (.text content) inside
  | .openArray => firstItem inside
  | .openObject => firstName inside
  | .broken fault | .brokenText fault => finished (stop fault inside) false
  | _ => finished (stop misplaced inside) false

/-- Take the lexeme in the place of a name. -/
def takeName (members : List (Name × Draft)) (inside : List Context) : Lexeme → Reader
  | .text content => wantColon members content inside
  | .brokenText fault => finished (stopMembers fault members inside) false
  | _ => finished (stopMembers misplaced members inside) false

/-- Take one more lexeme. -/
def take : Reader → Lexeme → Reader
  | wantValue inside, lexeme => takeValue inside lexeme
  | firstItem inside, .closeArray => complete (.array [] .closed) inside
  | firstItem inside, lexeme => takeValue (.item [] :: inside) lexeme
  | afterItem items inside, .comma => wantValue (.item items :: inside)
  | afterItem items inside, .closeArray => complete (.array items.reverse .closed) inside
  | afterItem items inside, _ => finished (stopItems misplaced items inside) false
  | firstName inside, .closeObject => complete (.object [] .closed) inside
  | firstName inside, lexeme => takeName [] inside lexeme
  | wantName members inside, lexeme => takeName members inside lexeme
  | wantColon members content inside, .colon => wantValue (.member members content :: inside)
  | wantColon members content inside, _ =>
    finished (stop misplaced (.member members content :: inside)) false
  | afterMember members inside, .comma => wantName members inside
  | afterMember members inside, .closeObject => complete (.object members.reverse .closed) inside
  | afterMember members inside, _ => finished (stopMembers misplaced members inside) false
  | finished value _, _ => finished value true

/-- The fault of a text that ends. -/
def ended : Fault := .of .eof

/-- The text ends. -/
def finish : Reader → Document
  | wantValue inside => ⟨stop ended inside, false⟩
  | firstItem inside => ⟨stopItems ended [] inside, false⟩
  | afterItem items inside => ⟨stopItems ended items inside, false⟩
  | firstName inside => ⟨stopMembers ended [] inside, false⟩
  | wantName members inside => ⟨stopMembers ended members inside, false⟩
  | wantColon members content inside => ⟨stop ended (.member members content :: inside), false⟩
  | afterMember members inside => ⟨stopMembers ended members inside, false⟩
  | finished value trailing => ⟨value, trailing⟩

/-- Take all the lexemes of a text. -/
def takeAll (reader : Reader) (text : List Char) : Reader :=
  match _found : Lexeme.next? text with
  | none => reader
  | some (lexeme, rest) => takeAll (reader.take lexeme) rest
termination_by text.length
decreasing_by exact Lexeme.length_next? _found

end Reader

/-- **Read a text.** Every text has a draft. -/
def Document.ofText (text : String) : Document := ((Reader.wantValue []).takeAll text.toList).finish

end DepGraph.Json
