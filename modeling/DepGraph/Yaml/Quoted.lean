import DepGraph.Yaml.Text

/-!
# Quoted scalars

A quoted scalar ends with the quote that it began with. It may go over several lines, and
the gaps between its words are folded as in plain scalars, including the one before the
closing quote. Between single quotes a quote is written twice and nothing else is
special. Between double quotes there are escapes, one of which makes a line break
vanish.
-/

namespace DepGraph.Yaml

/-- Scan what comes after a single quote, up to and including the closing one. -/
def scanSingleQuoted :
    List Char → Mark → (gap : Gap) → (text : List Char) → Option (Scanned (List Char))
  | [], _, _, _ => none
  | '\'' :: '\'' :: rest, mark, gap, text =>
    scanSingleQuoted rest (mark.over ['\'', '\'']) .empty ('\'' :: gap.reversed ++ text)
  | c :: rest, mark, gap, text =>
    if c = '\'' then some ⟨(gap.reversed ++ text).reverse, rest, mark.after c⟩
    else if isBlank c || isBreak c then
      scanSingleQuoted rest (mark.after c) (gap.add c) text
    else if atDocumentMarker mark (c :: rest) then none
    else scanSingleQuoted rest (mark.after c) .empty (c :: gap.reversed ++ text)

/-- What an escape of one character stands for. -/
def shortEscape? : Char → Option Char
  | '0' => some '\x00'
  | 'a' => some '\x07'
  | 'b' => some '\x08'
  | 't' | '\t' => some '\t'
  | 'n' => some '\n'
  | 'v' => some '\x0b'
  | 'f' => some '\x0c'
  | 'r' => some '\r'
  | 'e' => some '\x1b'
  | ' ' => some ' '
  | '"' => some '"'
  | '/' => some '/'
  | '\\' => some '\\'
  | 'N' => some '\u0085'
  | '_' => some '\u00a0'
  | 'L' => some '\u2028'
  | 'P' => some '\u2029'
  | _ => none

/-- How many hexadecimal digits follow an escape. -/
def escapeDigits? : Char → Option Nat
  | 'x' => some 2
  | 'u' => some 4
  | 'U' => some 8
  | _ => none

/-- The character with a number. -/
def charOfNat? (n : Nat) : Option Char :=
  if h : n.isValidChar then some (Char.ofNatAux n h) else none

/-- How far the scanner is in an escape. -/
inductive EscapeState
  | outside
  /-- After the backslash. -/
  | begun
  /-- Before more digits of a number. -/
  | digits (left value : Nat)

/-- Scan what comes after a double quote, up to and including the closing one. -/
def scanDoubleQuoted : EscapeState →
    List Char → Mark → (gap : Gap) → (text : List Char) → Option (Scanned (List Char))
  | _, [], _, _, _ => none
  | .outside, c :: rest, mark, gap, text =>
    if c = '"' then some ⟨(gap.reversed ++ text).reverse, rest, mark.after c⟩
    else if isBlank c || isBreak c then
      scanDoubleQuoted .outside rest (mark.after c) (gap.add c) text
    else if atDocumentMarker mark (c :: rest) then none
    else if c = '\\' then
      scanDoubleQuoted .begun rest (mark.after c) .empty (gap.reversed ++ text)
    else scanDoubleQuoted .outside rest (mark.after c) .empty (c :: gap.reversed ++ text)
  | .begun, c :: rest, mark, _, text =>
    if isBreak c then scanDoubleQuoted .outside rest (mark.after c) (.breaks none []) text
    else
      match escapeDigits? c, shortEscape? c with
      | some left, _ => scanDoubleQuoted (.digits left 0) rest (mark.after c) .empty text
      | none, some d => scanDoubleQuoted .outside rest (mark.after c) .empty (d :: text)
      | none, none => none
  | .digits left value, c :: rest, mark, _, text =>
    match hexValue? c with
    | none => none
    | some digit =>
      let value := 16 * value + digit
      if 1 < left then
        scanDoubleQuoted (.digits (left - 1) value) rest (mark.after c) .empty text
      else
        match charOfNat? value with
        | some d => scanDoubleQuoted .outside rest (mark.after c) .empty (d :: text)
        | none => none

end DepGraph.Yaml
