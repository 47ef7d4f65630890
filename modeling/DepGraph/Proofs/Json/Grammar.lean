import DepGraph.Json.Category
import Mathlib.Data.List.Forall2

/-!
# The texts of values

There are many texts for the same value. Between its parts there may be blanks. A character inside
quotes may be written as itself or as an escape, of which there may be several. A record is an
object with a member for each of its fields, but the members may come in any order, there may be
others that mean nothing, and fields that have nothing to say may be left out. Here it is said which
texts there are, without a word about how they are read.

What a text quotes is said by `DepGraph.Json.Quoted.Quotes`, and which texts are values at all,
whatever their meaning, by `DepGraph.Json.IsValue`. The texts of a record are given by a
`DepGraph.Json.Entry` for each of its fields (`DepGraph.Json.WritesRecord`).
-/

namespace DepGraph

namespace Json

/-! ### Quoted texts -/

namespace Quoted

/-- The characters that can be escaped by a single letter, with these letters. -/
def letters : List (Char × Char) :=
  [('"', '"'), ('\\', '\\'), ('/', '/'), ('\u0008', 'b'), ('\u000c', 'f'), ('\n', 'n'),
    ('\r', 'r'), ('\t', 't')]

/-- A hexadecimal digit for a number below sixteen, in either case. -/
def IsHexDigit (n : Nat) (digit : Char) : Prop :=
  n < 16 ∧ (digit = n.digitChar ∨ digit = n.digitChar.toUpper)

instance (n : Nat) (digit : Char) : Decidable (IsHexDigit n digit) :=
  inferInstanceAs (Decidable (_ ∧ _))

/-- **An escape for a unit** of sixteen bits has four hexadecimal digits. -/
def EscapesUnit (n : Nat) (text : List Char) : Prop :=
  ∃ a b c d, IsHexDigit (n / 4096) a ∧ IsHexDigit (n / 256 % 16) b ∧ IsHexDigit (n / 16 % 16) c ∧
    IsHexDigit (n % 16) d ∧ text = ['\\', 'u', a, b, c, d]

/-- The units of a character: it is one itself, or it takes two, a high surrogate and a low
one. -/
def units (c : Char) : List Nat :=
  if c.toNat < 0x10000 then [c.toNat]
  else [0xD800 + (c.toNat - 0x10000) / 0x400, 0xDC00 + (c.toNat - 0x10000) % 0x400]

/-- **A spelling of a character** inside quotes. -/
inductive Spells (c : Char) : List Char → Prop
  /-- As itself. -/
  | plain (hquote : c ≠ '"') (hslash : c ≠ '\\') (hcontrol : ¬c < ' ') : Spells c [c]
  /-- By a letter. -/
  | letter {letter : Char} (h : (c, letter) ∈ letters) : Spells c ['\\', letter]
  /-- By its units. -/
  | units {escapes : List (List Char)} (h : List.Forall₂ EscapesUnit (units c) escapes) :
    Spells c escapes.flatten

/-- **A text that quotes another**: its characters, each spelled in some way, between quotes. -/
def Quotes (content : String) (text : List Char) : Prop :=
  ∃ spellings, List.Forall₂ Spells content.toList spellings ∧
    text = '"' :: (spellings.flatten ++ ['"'])

/-- What there may be inside quotes. A unit can be anything here, also half of a pair. -/
inductive Piece : List Char → Prop
  | plain {c : Char} (hquote : c ≠ '"') (hslash : c ≠ '\\') (hcontrol : ¬c < ' ') : Piece [c]
  | letter {c letter : Char} (h : (c, letter) ∈ letters) : Piece ['\\', letter]
  | unit {n : Nat} {text : List Char} (h : EscapesUnit n text) : Piece text

/-- **A quoted text**, whether it stands for anything or not. -/
def IsQuoted (text : List Char) : Prop :=
  ∃ pieces : List (List Char), (∀ piece ∈ pieces, Piece piece) ∧
    text = '"' :: (pieces.flatten ++ ['"'])

end Quoted

/-! ### Numerals -/

namespace Numeral

/-- Digits, and at least one of them. -/
def Digits (text : List Char) : Prop := text ≠ [] ∧ ∀ c ∈ text, c.isDigit = true

instance (text : List Char) : Decidable (Digits text) :=
  @instDecidableAnd _ _ inferInstance (List.decidableBAll _ text)

/-- **A numeral**: digits of which the first is a zero only if it is the only one, perhaps with a
sign before them, and after them perhaps a point with digits and perhaps an exponent. -/
structure Splits (sign whole fraction exponent : List Char) : Prop where
  sign : sign = [] ∨ sign = ['-']
  whole : Digits whole ∧ (whole.head? = some '0' → whole = ['0'])
  fraction : fraction = [] ∨ ∃ digits, Digits digits ∧ fraction = '.' :: digits
  exponent : exponent = [] ∨ ∃ mark sign digits, mark ∈ ['e', 'E'] ∧
    (sign = [] ∨ sign = ['+'] ∨ sign = ['-']) ∧ Digits digits ∧
      exponent = mark :: (sign ++ digits)

/-- A text that is a numeral. -/
def IsNumeral (text : List Char) : Prop :=
  ∃ sign whole fraction exponent, Splits sign whole fraction exponent ∧
    text = sign ++ (whole ++ (fraction ++ exponent))

end Numeral

/-! ### Blanks and brackets -/

/-- Any number of blanks. -/
def Blanks (text : List Char) : Prop := ∀ c ∈ text, c ∈ [' ', '\t', '\n', '\r']

instance (text : List Char) : Decidable (Blanks text) := List.decidableBAll _ text

/-- **A text with blanks around it.** -/
def Pads (inner text : List Char) : Prop :=
  ∃ before after, Blanks before ∧ Blanks after ∧ text = before ++ (inner ++ after)

/-- **Texts in brackets**, with commas between them and blanks around them. Where there are no
texts, there may still be blanks. -/
inductive Encloses (opening closing : Char) : List (List Char) → List Char → Prop
  | empty {blanks : List Char} (h : Blanks blanks) :
    Encloses opening closing [] (opening :: (blanks ++ [closing]))
  | items {items padded : List (List Char)} (hne : items ≠ []) (h : List.Forall₂ Pads items padded) :
    Encloses opening closing items (opening :: ([','].intercalate padded ++ [closing]))

/-- **A member of an object**: a name and a value with a colon between them. -/
def Joins (member : List Char × List Char) (text : List Char) : Prop :=
  ∃ before after, Blanks before ∧ Blanks after ∧
    text = member.1 ++ (before ++ ':' :: (after ++ member.2))

/-- **An array** with given items. -/
def WritesArray (items : List (List Char)) (text : List Char) : Prop := Encloses '[' ']' items text

/-- **An object** with given members. -/
def WritesObject (members : List (List Char × List Char)) (text : List Char) : Prop :=
  ∃ joined, List.Forall₂ Joins members joined ∧ Encloses '{' '}' joined text

/-! ### Values -/

/-- **A value**, whatever it means. -/
inductive IsValue : List Char → Prop
  | null : IsValue ['n', 'u', 'l', 'l']
  | true : IsValue ['t', 'r', 'u', 'e']
  | false : IsValue ['f', 'a', 'l', 's', 'e']
  | numeral {text : List Char} (h : Numeral.IsNumeral text) : IsValue text
  | quoted {text : List Char} (h : Quoted.IsQuoted text) : IsValue text
  | array {items : List (List Char)} {text : List Char} (hitems : ∀ item ∈ items, IsValue item)
    (h : WritesArray items text) : IsValue text
  | object {members : List (List Char × List Char)} {text : List Char}
    (hnames : ∀ member ∈ members, Quoted.IsQuoted member.1)
    (hvalues : ∀ member ∈ members, IsValue member.2) (h : WritesObject members text) : IsValue text

/-! ### Records -/

/-- **What an object may have for a field.** -/
structure Entry where
  name : String
  /-- Whether there may be no member for the field. -/
  mayLack : Prop
  /-- The texts that may be the value of the member. -/
  Writes : List Char → Prop

namespace Entry

variable {α : Type}

/-- A field with a value that is the one it has by default, or another. -/
def withDefault (name : String) (value default : α) (Writes : α → List Char → Prop) : Entry where
  name := name
  mayLack := value = default
  Writes := Writes value

/-- A field with a value that may be missing; what is missing is left out or `null`. -/
def optional (name : String) (value : Option α) (Writes : α → List Char → Prop) : Entry :=
  withDefault name value none fun
    | none, text => text = ['n', 'u', 'l', 'l']
    | some a, text => Writes a text

/-- **The members for a field**: one, or none if the field may lack it. -/
inductive Gives (entry : Entry) : List (String × List Char) → Prop
  | lacking (h : entry.mayLack) : Gives entry []
  | member {text : List Char} (h : entry.Writes text) : Gives entry [(entry.name, text)]

end Entry

/-- **A record** is an object that has members for its fields and others, of other names, in any
order. Any texts that quote the names may stand for them. -/
def WritesRecord (entries : List Entry) (text : List Char) : Prop :=
  ∃ (known : List (List (String × List Char))) (others members : List (String × List Char))
    (quoted : List (List Char × List Char)),
    List.Forall₂ Entry.Gives entries known ∧
    (∀ member ∈ others, member.1 ∉ entries.map Entry.name ∧ IsValue member.2) ∧
    members.Perm (known.flatten ++ others) ∧
    List.Forall₂ (fun member member' => Quoted.Quotes member.1 member'.1 ∧ member'.2 = member.2)
      members quoted ∧
    WritesObject quoted text

end Json

end DepGraph
