/-!
# Coloured text

Reports for people are lines of pieces, some of which have a style. On a terminal a style
is shown by an escape sequence before the piece and another one after it that resets
everything. Where text has the resetting sequence in it, it is followed by the opening
one again, so that the style lasts to the end of the piece. Without colours only the
texts are left.
-/

namespace DepGraph.Cli

/-- The colours. -/
inductive Colour
  | red
  | green
  | yellow
  | cyan
deriving DecidableEq, Repr

/-- The code of a colour. -/
def Colour.code : Colour → String
  | red => "31"
  | green => "32"
  | yellow => "33"
  | cyan => "36"

/-- How a piece looks. -/
structure Style where
  bold : Bool := false
  dimmed : Bool := false
  colour : Option Colour := none
deriving DecidableEq, Repr

namespace Style

/-- Like any other text. -/
def none : Style := {}

/-- The codes of a style. -/
def codes (s : Style) : List String :=
  (if s.bold then ["1"] else []) ++ (if s.dimmed then ["2"] else []) ++
    (s.colour.map Colour.code).toList

/-- The sequence that begins a style. -/
def opening (s : Style) : List Char :=
  '\x1b' :: '[' :: ((";".intercalate s.codes).toList ++ ['m'])

/-- The sequence that resets everything. -/
def reset : List Char := ['\x1b', '[', '0', 'm']

/-- Begin a style again after every reset. -/
def reopen (opening : List Char) : List Char → List Char
  | '\x1b' :: '[' :: '0' :: 'm' :: rest => reset ++ opening ++ reopen opening rest
  | c :: rest => c :: reopen opening rest
  | [] => []

/-- A text in a style. -/
def paint (s : Style) (text : List Char) : List Char :=
  if s.codes.isEmpty then text else s.opening ++ reopen s.opening text ++ reset

/-- A style lasts over a reset in the text. -/
example :
    ({ dimmed := true } : Style).paint ['a', '\x1b', '[', '0', 'm', 'b'] =
      "\x1b[2ma\x1b[0m\x1b[2mb\x1b[0m".toList := by
  decide +kernel

end Style

/-- A piece of a line. -/
structure Piece where
  text : String
  style : Style := .none
deriving DecidableEq, Repr

/-- A line. -/
abbrev Line := List Piece

namespace Piece

/-- A piece without a style. -/
def plain (text : String) : Piece := { text }

/-- A piece in bold type. -/
def bold (text : String) : Piece := ⟨text, { bold := true }⟩

/-- A piece in the background. -/
def dimmed (text : String) : Piece := ⟨text, { dimmed := true }⟩

/-- A piece in a colour. -/
def coloured (colour : Colour) (text : String) : Piece := ⟨text, { colour := some colour }⟩

/-- A piece in a colour and bold type. -/
def strong (colour : Colour) (text : String) : Piece :=
  ⟨text, { bold := true, colour := some colour }⟩

/-- The characters of a piece. -/
def write (p : Piece) (colours : Bool) : List Char :=
  if colours then p.style.paint p.text.toList else p.text.toList

end Piece

/-- The characters of a line, with a line break at its end. -/
def Line.write (l : Line) (colours : Bool) : List Char := l.flatMap (·.write colours) ++ ['\n']

/-- The text of some lines. -/
def textOfLines (lines : List Line) (colours : Bool) : String :=
  String.ofList (lines.flatMap (·.write colours))

/-- A text at the right end of a column. -/
def padLeft (width : Nat) (text : String) : String :=
  String.ofList (List.replicate (width - text.length) ' ') ++ text

end DepGraph.Cli
