import DepGraph.Yaml.Block
import DepGraph.Yaml.Plain
import DepGraph.Yaml.Quoted
import DepGraph.Yaml.Tag

/-!
# Tokens

A configuration text is cut into tokens first. Besides what is written, there are tokens
for what is only shown by the layout: where a block collection begins and ends, and that
something is a key.

That something was a key is known only when the colon after it is seen. So the scanner
remembers what could be one, a `DepGraph.Yaml.Candidate`, with its place among the tokens,
and puts the missing tokens there when the colon comes. There is at most one candidate
for every bracket that is open, and one outside of all. A candidate has to be on the same
line as its colon and not more than `DepGraph.Yaml.keyLimit` bytes before it. Where a key
*has* to stand, losing the candidate is an error.
-/

namespace DepGraph.Yaml

/-- How a scalar is written. -/
inductive Style
  | plain
  | quoted
  | literal
  | folded
deriving DecidableEq, Repr

/-- The tokens. -/
inductive Token
  | directive (d : Directive)
  | documentStart
  | documentEnd
  | blockSequenceStart
  | blockMappingStart
  | blockEnd
  | flowSequenceStart
  | flowSequenceEnd
  | flowMappingStart
  | flowMappingEnd
  | blockEntry
  | flowEntry
  | key
  | value
  | reference (name : List Char)
  | anchor (name : List Char)
  | tag (tag : RawTag)
  | scalar (style : Style) (text : List Char)
deriving DecidableEq, Repr

/-- Something that is a key if a colon follows. -/
structure Candidate where
  /-- Whether only a key can stand there. -/
  required : Bool
  /-- The number of tokens before it. -/
  position : Nat
  mark : Mark
deriving DecidableEq, Repr

/-- How many bytes there may be between where a key begins and its colon. -/
def keyLimit : Nat := 1024

/-- How far scanning has come. -/
structure Scanner where
  /-- The text that is left. -/
  rest : List Char
  mark : Mark := {}
  /-- The tokens so far, newest first. -/
  tokens : List Token := []
  /-- The columns of the block collections that are open, innermost first. -/
  indents : List Nat := []
  /-- Whether a key may begin here. -/
  keyAllowed : Bool := true
  /-- The candidate at the innermost level. -/
  candidate : Option Candidate := none
  /-- The candidates outside of each open bracket, innermost first. -/
  enclosing : List (Option Candidate) := []

namespace Scanner

/-- Whether a bracket is open. -/
def inFlow (s : Scanner) : Bool := !s.enclosing.isEmpty

/-- The least column of what is nested in the innermost block collection. -/
def base (s : Scanner) : Nat :=
  match s.indents with
  | [] => 0
  | column :: _ => column + 1

/-- The beginning of a text. -/
def start (text : List Char) : Scanner := { rest := text }

/-! ### Moving -/

/-- Append a token. -/
def push (s : Scanner) (t : Token) : Scanner := { s with tokens := t :: s.tokens }

/-- Go on behind what was scanned. -/
def goTo {α : Type} (s : Scanner) (scanned : Scanned α) : Scanner :=
  { s with rest := scanned.rest, mark := scanned.mark }

/-- Go on somewhere further on the line. -/
def goAlong (s : Scanner) (rest : List Char) : Scanner :=
  { s with rest, mark := s.mark.over (s.rest.take (s.rest.length - rest.length)) }

/-- Go over some characters on the line. -/
def drop (s : Scanner) (count : Nat) : Scanner :=
  { s with rest := s.rest.drop count, mark := s.mark.over (s.rest.take count) }

/-- Skip blanks, comments and line breaks. The arguments say whether it goes over a comment,
whether a key may begin, and what is left of the text. Outside of brackets a key may begin
on a new line, and where it may, tabs are not blanks. A byte order mark that begins a line is
skipped, too, but takes up a column. -/
def skipGap (inFlow : Bool) :
    (inComment keyAllowed : Bool) → List Char → Mark → Bool × List Char × Mark
  | _, keyAllowed, [], mark => (keyAllowed, [], mark)
  | inComment, keyAllowed, c :: rest, mark =>
    if isBreak c then skipGap inFlow false (keyAllowed || !inFlow) rest (mark.after c)
    else if inComment || c = ' ' || (c = '\t' && (inFlow || !keyAllowed)) then
      skipGap inFlow inComment keyAllowed rest (mark.after c)
    else if c = '#' then skipGap inFlow true keyAllowed rest (mark.after c)
    else if c = '\ufeff' && mark.column = 0 then
      skipGap inFlow inComment keyAllowed rest (mark.after c)
    else (keyAllowed, c :: rest, mark)

/-- Go to where the next token begins. -/
def toToken (s : Scanner) : Scanner :=
  let (keyAllowed, rest, mark) := skipGap s.inFlow false s.keyAllowed s.rest s.mark
  { s with keyAllowed, rest, mark }

/-! ### Block collections -/

/-- Close the block collections that are indented further than a column. -/
def closeBeyond (s : Scanner) (column : Nat) : Scanner :=
  if s.inFlow then s
  else
    let closed := s.indents.takeWhile (column < ·)
    { s with
      indents := s.indents.drop closed.length
      tokens := closed.map (fun _ => Token.blockEnd) ++ s.tokens }

/-- Close all block collections. -/
def closeAll (s : Scanner) : Scanner :=
  if s.inFlow then s
  else { s with indents := [], tokens := s.indents.map (fun _ => Token.blockEnd) ++ s.tokens }

/-- Insert tokens, given in their order, so that a number of tokens come before them. -/
def insertAt (s : Scanner) (position : Nat) (new : List Token) : Scanner :=
  let after := s.tokens.length - position
  { s with tokens := s.tokens.take after ++ new.reverse ++ s.tokens.drop after }

/-- Open a block collection at a column, unless one is open that far in. The tokens that
come along are its first. -/
def openAt (s : Scanner) (column position : Nat) (opening : Token) (first : List Token) :
    Scanner :=
  if !s.inFlow && s.base ≤ column then
    { s with indents := column :: s.indents }.insertAt position (opening :: first)
  else s.insertAt position first

/-- Open a block collection here, where an indicator stands that must be the first thing on
its line, or come after another such indicator. -/
def openHere (s : Scanner) (opening : Token) : Option Scanner :=
  if s.inFlow then some s
  else if s.keyAllowed then some (s.openAt s.mark.column s.tokens.length opening [])
  else none

/-! ### Candidates -/

/-- Give the candidate up, which must not be required. -/
def dropCandidate (s : Scanner) : Option Scanner :=
  if s.candidate.any (·.required) then none else some { s with candidate := none }

/-- What comes next could be a key, if one may begin here. -/
def noteCandidate (s : Scanner) : Option Scanner :=
  if s.keyAllowed then do
    let s ← s.dropCandidate
    let required := !s.inFlow && s.base = s.mark.column + 1
    return { s with candidate := some ⟨required, s.tokens.length, s.mark⟩ }
  else some s

/-- Whether a candidate is still one here. -/
def isFresh (s : Scanner) (c : Candidate) : Bool :=
  c.mark.line = s.mark.line && s.mark.bytes ≤ c.mark.bytes + keyLimit

/-! ### Fetching a token -/

/-- The scanner with a key allowed to begin here or not. -/
def allow (s : Scanner) (keyAllowed : Bool) : Scanner := { s with keyAllowed }

/-- An indicator of one character, before which no key has been left open. -/
def fetchIndicator (s : Scanner) (t : Token) (keyAllowed : Bool) : Option Scanner := do
  let s ← s.dropCandidate
  return ((s.drop 1).push t).allow keyAllowed

/-- An opening bracket. -/
def fetchOpening (s : Scanner) (t : Token) : Option Scanner := do
  let s ← s.noteCandidate
  return (({ s with candidate := none, enclosing := s.candidate :: s.enclosing }.drop 1).push t).allow
    true

/-- A closing bracket, which need not match anything here. -/
def fetchClosing (s : Scanner) (t : Token) : Option Scanner := do
  let s ← s.dropCandidate
  let s :=
    match s.enclosing with
    | [] => s
    | candidate :: enclosing => { s with candidate, enclosing }
  return ((s.drop 1).push t).allow false

/-- The dash of an item. -/
def fetchBlockEntry (s : Scanner) : Option Scanner := do
  let s ← s.openHere .blockSequenceStart
  s.fetchIndicator .blockEntry true

/-- The question mark of a key. -/
def fetchKey (s : Scanner) : Option Scanner := do
  let s ← s.openHere .blockMappingStart
  s.fetchIndicator .key !s.inFlow

/-- The colon of a value with nothing before it that could be its key. -/
def fetchValueAlone (s : Scanner) : Option Scanner := do
  let s ← s.openHere .blockMappingStart
  return (({ s with candidate := none }.drop 1).push .value).allow !s.inFlow

/-- The colon of a value. -/
def fetchValue (s : Scanner) : Option Scanner :=
  match s.candidate with
  | none => s.fetchValueAlone
  | some c =>
    if s.isFresh c then
      let s := s.openAt c.mark.column c.position .blockMappingStart [.key]
      some ((({ s with candidate := none }.drop 1).push .value).allow false)
    else if c.required then none
    else s.fetchValueAlone

/-- A marker of documents. -/
def fetchDocumentMarker (s : Scanner) (t : Token) : Option Scanner := do
  let s ← s.closeAll.dropCandidate
  return ((s.drop 3).push t).allow false

/-- A directive, which takes up its line. -/
def fetchDirective (s : Scanner) : Option Scanner := do
  let s ← s.closeAll.dropCandidate
  let (directive, rest) ← Directive.read? s.rest.tail
  let rest := rest.dropWhile isBlank
  let rest := if rest.head? = some '#' then rest.dropWhile (!isBreak ·) else rest
  if !lineEnds rest then none
  let s := ((s.goAlong rest).push (.directive directive)).allow false
  return { s with rest := rest.tail, mark := { line := s.mark.line + 1 } }

/-- Whether a name of an anchor may end here. -/
def nameEnds (text : List Char) : Bool :=
  wordEnds text || text.head?.any ['?', ':', ',', ']', '}', '%', '@', '\x60'].contains

/-- An anchor or an alias, after its indicator. -/
def fetchName (s : Scanner) (token : List Char → Token) : Option Scanner := do
  let s ← s.noteCandidate
  let name := s.rest.tail.takeWhile isWordChar
  let rest := s.rest.tail.dropWhile isWordChar
  if name.isEmpty || !nameEnds rest then none
  return ((s.goAlong rest).push (token name)).allow false

/-- A tag. -/
def fetchTag (s : Scanner) : Option Scanner := do
  let s ← s.noteCandidate
  let (tag, rest) ← RawTag.read? s.rest
  if !(wordEnds rest || (s.inFlow && rest.head? = some ',')) then none
  return ((s.goAlong rest).push (.tag tag)).allow false

/-- A block scalar. -/
def fetchBlockScalar (s : Scanner) (style : Style) : Option Scanner := do
  let s := (← s.dropCandidate).drop 1
  let scanned ← scanBlock (style = .literal) s.base s.rest s.mark
  return ((s.goTo scanned).push (.scalar style scanned.value)).allow true

/-- A quoted scalar. -/
def fetchQuoted (s : Scanner)
    (scan : List Char → Mark → Gap → List Char → Option (Scanned (List Char))) :
    Option Scanner := do
  let s := (← s.noteCandidate).drop 1
  let scanned ← scan s.rest s.mark .empty []
  return ((s.goTo scanned).push (.scalar .quoted scanned.value)).allow false

/-- A plain scalar. -/
def fetchPlain (s : Scanner) : Option Scanner := do
  let s ← s.noteCandidate
  let scanned ← scanPlain s.inFlow s.base s.rest s.mark .empty []
  return ((s.goTo scanned).push (.scalar .plain scanned.value.text)).allow scanned.value.endsLine

/-- Fetch the token that begins with a character, which is the first of the text left. -/
def fetch (s : Scanner) (c : Char) : Option Scanner :=
  let following := s.rest.tail
  if s.mark.column = 0 && c = '%' then s.fetchDirective
  else if atDocumentMarker s.mark s.rest then
    s.fetchDocumentMarker (if c = '-' then .documentStart else .documentEnd)
  else if c = '[' then s.fetchOpening .flowSequenceStart
  else if c = '{' then s.fetchOpening .flowMappingStart
  else if c = ']' then s.fetchClosing .flowSequenceEnd
  else if c = '}' then s.fetchClosing .flowMappingEnd
  else if c = ',' then s.fetchIndicator .flowEntry true
  else if c = '-' && wordEnds following then s.fetchBlockEntry
  else if c = '?' && (s.inFlow || wordEnds following) then s.fetchKey
  else if c = ':' && (s.inFlow || wordEnds following) then s.fetchValue
  else if c = '*' then s.fetchName .reference
  else if c = '&' then s.fetchName .anchor
  else if c = '!' then s.fetchTag
  else if c = '|' && !s.inFlow then s.fetchBlockScalar .literal
  else if c = '>' && !s.inFlow then s.fetchBlockScalar .folded
  else if c = '\'' then s.fetchQuoted scanSingleQuoted
  else if c = '"' then s.fetchQuoted (scanDoubleQuoted .outside)
  else if startsPlain s.inFlow s.rest then s.fetchPlain
  else none

/-- Scan the rest of the text. -/
def scan (s : Scanner) : Option (List Token) :=
  let t := s.toToken.closeBeyond s.toToken.mark.column
  match t.rest with
  | [] => t.closeAll.dropCandidate.map (·.tokens.reverse)
  | c :: _ =>
    match t.fetch c with
    | some next => if next.rest.length < s.rest.length then next.scan else none
    | none => none
termination_by s.rest.length

end Scanner

/-- **The tokens of a text**; `none` if it cannot be cut into tokens. -/
def Token.ofText? (text : String) : Option (List Token) := do
  (Scanner.start (← prepare? text.toList)).scan

end DepGraph.Yaml
