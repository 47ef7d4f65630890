import DepGraph.Decimal.Form
import DepGraph.Json.Quoted

/-!
# Values and their text

A value is written in one of two layouts. The *compact* one has no blanks at all. The
*pretty* one puts every item and every member on a line of its own, indented by two
spaces for each array or object around it, and a space after every colon; empty arrays
and objects stay on one line in it, too.

Doubles that are not numbers have no text of their own and are written as `null`.
-/

namespace DepGraph.Json

/-- A value that can be written. -/
inductive Value
  | null
  | bool (b : Bool)
  | integer (i : Int)
  | real (x : Float)
  | text (content : String)
  | array (items : List Value)
  /-- The members are written in their order. -/
  | object (members : List (String × Value))
deriving Inhabited

/-- How values are laid out. -/
structure Layout where
  /-- What comes before an item or a bracket at a depth. -/
  newline : Nat → List Char
  /-- What comes after a colon. -/
  gap : List Char

namespace Layout

/-- No blanks at all. -/
def compact : Layout := ⟨fun _ => [], []⟩

/-- One item to a line. -/
def pretty : Layout := ⟨fun depth => '\n' :: List.replicate (2 * depth) ' ', [' ']⟩

end Layout

namespace Value

/-- A count as a value. -/
def count (n : Nat) : Value := integer n

/-- A whole number in decimal. -/
def integerText (i : Int) : List Char :=
  if i < 0 then '-' :: Nat.toDigits 10 i.natAbs else Nat.toDigits 10 i.natAbs

/-- A double in decimal. -/
def realText (x : Float) : List Char :=
  (DecimalForm.record.text? (Binary.ofFloat x)).getD ['n', 'u', 'l', 'l']

mutual

/-- The text of a value that stands at a depth. -/
def write (layout : Layout) (depth : Nat) : Value → List Char
  | null => ['n', 'u', 'l', 'l']
  | bool true => ['t', 'r', 'u', 'e']
  | bool false => ['f', 'a', 'l', 's', 'e']
  | integer i => integerText i
  | real x => realText x
  | text content => Quoted.write content
  | array [] => ['[', ']']
  | array (item :: items) =>
    '[' :: (layout.newline (depth + 1) ++ write layout (depth + 1) item ++
      writeItems layout (depth + 1) items ++ layout.newline depth ++ [']'])
  | object [] => ['{', '}']
  | object ((name, value) :: members) =>
    '{' :: (layout.newline (depth + 1) ++ Quoted.write name ++ ':' :: layout.gap ++
      write layout (depth + 1) value ++
      writeMembers layout (depth + 1) members ++ layout.newline depth ++ ['}'])

/-- The text of the items after the first one. -/
def writeItems (layout : Layout) (depth : Nat) : List Value → List Char
  | [] => []
  | item :: items =>
    ',' :: (layout.newline depth ++ write layout depth item ++ writeItems layout depth items)

/-- The text of the members after the first one. -/
def writeMembers (layout : Layout) (depth : Nat) : List (String × Value) → List Char
  | [] => []
  | (name, value) :: members =>
    ',' :: (layout.newline depth ++ Quoted.write name ++ ':' :: layout.gap ++
      write layout depth value ++ writeMembers layout depth members)

end

/-- **The text of a value** without blanks. -/
def compact (v : Value) : String := String.ofList (v.write .compact 0)

/-- **The text of a value** with one item to a line. -/
def pretty (v : Value) : String := String.ofList (v.write .pretty 0)

end Value

end DepGraph.Json
