/-!
# Characters, lines and gaps

What the scanner of configuration texts has to know about characters. A text is made
ready for it by `DepGraph.Yaml.prepare?`, which refuses control characters and gives
every ordinary line break the one form `'\n'`; the line and paragraph separators of
Unicode are line breaks, too, but are kept apart.

Inside a scalar that goes over several lines, the blanks and breaks between two words
are a `DepGraph.Yaml.Gap`. A gap within a line stands for itself. A gap with a break in
it stands for a single space if it has just the one, and otherwise for the breaks after
the first.
-/

namespace DepGraph.Yaml

/-! ### Characters -/

/-- Whether a character may occur in a text. -/
def isAllowed (c : Char) : Bool :=
  c = '\t' || c = '\n' || c = '\r' || (' ' ≤ c && c ≤ '~') || c = '\u0085' ||
    ('\u00a0' ≤ c && c ≤ '\ufffd') || 0x10000 ≤ c.toNat

/-- Whether a character ends a line. -/
def isBreak (c : Char) : Bool := c = '\n' || c = '\u2028' || c = '\u2029'

/-- Whether a character is a blank inside a line. -/
def isBlank (c : Char) : Bool := c = ' ' || c = '\t'

/-- Whether a character may occur in a name of an anchor, a directive or a tag handle. -/
def isWordChar (c : Char) : Bool := c.isAlphanum || c = '_' || c = '-'

/-- Whether a word ends here: at a blank, a break, or the end of the text. -/
def wordEnds : List Char → Bool
  | [] => true
  | c :: _ => isBlank c || isBreak c

/-- Whether a line ends here. -/
def lineEnds : List Char → Bool
  | [] => true
  | c :: _ => isBreak c

/-- The value of a hexadecimal digit. -/
def hexValue? (c : Char) : Option Nat :=
  if c.isDigit then some (c.toNat - '0'.toNat)
  else if 'a' ≤ c && c ≤ 'f' then some (c.toNat - 'a'.toNat + 10)
  else if 'A' ≤ c && c ≤ 'F' then some (c.toNat - 'A'.toNat + 10)
  else none

/-- The text with every ordinary line break as `'\n'`. -/
def normaliseBreaks : List Char → List Char
  | [] => []
  | '\r' :: '\n' :: rest => '\n' :: normaliseBreaks rest
  | c :: rest => (if c = '\r' || c = '\u0085' then '\n' else c) :: normaliseBreaks rest

/-- A text made ready for scanning; `none` if it has characters that it must not have. -/
def prepare? (text : List Char) : Option (List Char) :=
  if text.all isAllowed then some (normaliseBreaks text) else none

/-! ### Places -/

/-- A place in a text. -/
structure Mark where
  line : Nat := 0
  column : Nat := 0
  /-- How many bytes of the line come before it. -/
  bytes : Nat := 0
deriving DecidableEq, Repr, Inhabited

/-- The place after a character. -/
def Mark.after (m : Mark) (c : Char) : Mark :=
  if isBreak c then { line := m.line + 1 }
  else { m with column := m.column + 1, bytes := m.bytes + c.utf8Size }

/-- The place after some characters. -/
def Mark.over (m : Mark) (passed : List Char) : Mark := passed.foldl Mark.after m

/-- Columns count characters, and bytes what they take up. -/
example : Mark.over {} ['\n', 'a', 'é', '日'] = ⟨1, 3, 6⟩ := by decide

/-- Whether a marker of documents stands here: three dashes or three dots at the beginning
of a line. -/
def atDocumentMarker (m : Mark) : List Char → Bool
  | a :: b :: c :: rest =>
    m.column = 0 && (a = '-' || a = '.') && b = a && c = a && wordEnds rest
  | _ => false

/-! ### Gaps -/

/-- What stands between two words of a scalar; the newest characters come first. -/
inductive Gap
  /-- Blanks on one line. -/
  | blanks (characters : List Char)
  /-- At least one line ends here. The first break is missing if it was taken away. -/
  | breaks (first : Option Char) (others : List Char)
deriving DecidableEq, Repr

namespace Gap

/-- Nothing at all. -/
def empty : Gap := blanks []

/-- Whether there is nothing. -/
def isEmpty : Gap → Bool
  | blanks [] => true
  | _ => false

/-- Whether a line ends in the gap. -/
def hasBreak : Gap → Bool
  | blanks _ => false
  | breaks .. => true

/-- The gap with one more blank or break. Blanks beside breaks do not count. -/
def add (g : Gap) (c : Char) : Gap :=
  match g with
  | blanks bs => if isBreak c then breaks (some c) [] else blanks (c :: bs)
  | breaks first others => if isBreak c then breaks first (c :: others) else g

/-- What the gap stands for, last character first. -/
def reversed : Gap → List Char
  | blanks bs => bs
  | breaks (some '\n') [] => [' ']
  | breaks (some '\n') others => others
  | breaks (some c) others => others ++ [c]
  | breaks none others => others

/-- One break is a space, of more breaks the first vanishes, and separators stay. -/
example :
    (((blanks []).add '\n').add ' ').reversed = [' '] ∧
      (((blanks []).add '\n').add '\n').reversed = ['\n'] ∧
      ((blanks []).add '\u2028').reversed = ['\u2028'] ∧
      ((blanks []).add '\t').reversed = ['\t'] := by
  decide

end Gap

/-- What was scanned, and where scanning goes on. -/
structure Scanned (α : Type) where
  value : α
  rest : List Char
  mark : Mark
deriving Repr

end DepGraph.Yaml
