import DepGraph.Yaml.Text

/-!
# Block scalars

A block scalar consists of whole lines that are indented. Its header says whether line
breaks are kept (*literal*) or folded, what becomes of the breaks at its end, and possibly
how far it is indented; if not, its first line that is not empty decides.
-/

namespace DepGraph.Yaml

/-- What becomes of the line breaks at the end of a block scalar. -/
inductive Chomping
  /-- None of them stays. -/
  | strip
  /-- One of them stays. -/
  | clip
  /-- All of them stay. -/
  | keep
deriving DecidableEq, Repr

/-- The header of a block scalar. -/
structure BlockHeader where
  chomping : Chomping := .clip
  /-- How far the lines are indented beyond what surrounds them, if it says so. -/
  increment : Option Nat := none
deriving DecidableEq, Repr

/-- The chomping that an indicator asks for. -/
def Chomping.ofChar? : Char → Option Chomping
  | '-' => some .strip
  | '+' => some .keep
  | _ => none

/-- The indentation that an indicator asks for. -/
def incrementOfChar? (c : Char) : Option Nat :=
  if c.isDigit then some (c.toNat - '0'.toNat) else none

/-- Read the two indicators of a header, either of which may be missing and come first. -/
def BlockHeader.read (text : List Char) : BlockHeader × List Char :=
  match text with
  | [] => ({}, [])
  | c :: rest =>
    match Chomping.ofChar? c, incrementOfChar? c with
    | some chomping, _ =>
      match rest.head?.bind incrementOfChar? with
      | some increment => (⟨chomping, some increment⟩, rest.tail)
      | none => (⟨chomping, none⟩, rest)
    | none, some increment =>
      match rest.head?.bind Chomping.ofChar? with
      | some chomping => (⟨chomping, some increment⟩, rest.tail)
      | none => (⟨.clip, some increment⟩, rest)
    | none, none => ({}, c :: rest)

/-- What a block scalar consists of so far; the newest characters come first. -/
structure BlockState where
  text : List Char := []
  /-- The break that ended the last line. -/
  ended : Option Char := none
  /-- The breaks of the empty lines after it. -/
  empties : List Char := []
  /-- Whether the last line began with a blank. -/
  startedBlank : Bool := false

namespace BlockState

/-- Begin a line with the character `c`: join it to the lines before it. Between two lines
of a folded scalar neither of which begins with a blank, the break becomes a space, or
vanishes where there are empty lines. -/
def beginLine (s : BlockState) (literal : Bool) (c : Char) : BlockState :=
  let startsBlank := isBlank c
  let joint : List Char :=
    if !literal && s.ended = some '\n' && !s.startedBlank && !startsBlank then
      if s.empties.isEmpty then [' '] else []
    else s.ended.toList
  { text := c :: s.empties ++ joint ++ s.text, startedBlank := startsBlank }

/-- The whole text, first character first. -/
def close (s : BlockState) (chomping : Chomping) : List Char :=
  let tail : List Char :=
    match chomping with
    | .strip => []
    | .clip => s.ended.toList
    | .keep => s.empties ++ s.ended.toList
  (tail ++ s.text).reverse

end BlockState

/-- Scan the lines of a block scalar. `indent` is the column of its lines, zero if it is to
be found out; `least` is the least that it can be found out to be, and `widest` the
greatest column that the lines so far have reached with spaces. `inLine` says whether a
line has begun. -/
def scanBlockLines (literal : Bool) (chomping : Chomping) (least : Nat) : (indent widest : Nat) →
    (inLine : Bool) → BlockState → List Char → Mark → Option (Scanned (List Char))
  | _, _, _, s, [], mark => some ⟨s.close chomping, [], mark⟩
  | indent, widest, true, s, c :: rest, mark =>
    if isBreak c then
      scanBlockLines literal chomping least indent widest false { s with ended := some c } rest
        (mark.after c)
    else
      scanBlockLines literal chomping least indent widest true { s with text := c :: s.text } rest
        (mark.after c)
  | indent, widest, false, s, c :: rest, mark =>
    let inside := indent = 0 || mark.column < indent
    if c = ' ' && inside then
      scanBlockLines literal chomping least indent widest false s rest (mark.after c)
    else if c = '\t' && inside then none
    else
      let widest := max widest mark.column
      if isBreak c then
        scanBlockLines literal chomping least indent widest false
          { s with empties := c :: s.empties } rest (mark.after c)
      else
        let indent := if indent = 0 then max widest (max least 1) else indent
        if mark.column = indent then
          scanBlockLines literal chomping least indent widest true (s.beginLine literal c) rest
            (mark.after c)
        else some ⟨s.close chomping, c :: rest, mark⟩

/-- Scan a block scalar, after the character that says which kind it is. `base` is the least
column of what is nested in the surrounding collection. The header may be followed by a
comment; an indentation of zero is none. -/
def scanBlock (literal : Bool) (base : Nat) (text : List Char) (mark : Mark) :
    Option (Scanned (List Char)) :=
  let (header, rest) := BlockHeader.read text
  let rest := rest.dropWhile isBlank
  let rest := if rest.head? = some '#' then rest.dropWhile (!isBreak ·) else rest
  let indent :=
    match header.increment with
    | some increment => base - 1 + increment
    | none => 0
  if header.increment = some 0 then none
  else
    match rest with
    | [] => some ⟨[], [], mark.over text⟩
    | c :: rest =>
      if isBreak c then
        scanBlockLines literal header.chomping base indent 0 false {} rest (mark.after c)
      else none

end DepGraph.Yaml
