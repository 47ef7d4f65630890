import DepGraph.Yaml.Text

/-!
# Plain scalars

A plain scalar is written without any quotes and ends where something else begins: at a
colon that ends a word, at a comment, at a marker of documents, at a line that is
indented too little, and inside brackets also at a comma or a bracket. It may go over
several lines, and the gaps between its words are folded. The gap after it belongs to
nobody, but whether a line ended there matters for what may follow.
-/

namespace DepGraph.Yaml

/-- The characters that separate things inside brackets. -/
def isFlowIndicator (c : Char) : Bool := c = ',' || c = '[' || c = ']' || c = '{' || c = '}'

/-- Whether a plain scalar can begin here. -/
def startsPlain (inFlow : Bool) : List Char → Bool
  | [] => false
  | c :: rest =>
    !(isBlank c || isBreak c || isFlowIndicator c ||
        ['-', '?', ':', '#', '&', '*', '!', '|', '>', '\'', '"', '%', '@', '\x60'].contains c) ||
      (c = '-' && !(rest.head?.any isBlank)) ||
      (!inFlow && (c = '?' || c = ':') && !wordEnds rest)

/-- Whether a plain scalar ends before a character in the middle of a line. -/
def endsPlain (inFlow : Bool) (c : Char) (rest : List Char) : Bool :=
  (c = ':' && wordEnds rest) || (inFlow && isFlowIndicator c)

/-- Whether a colon stands right before something inside brackets that it cannot stand
before. -/
def isStrayColon (inFlow : Bool) (c : Char) (rest : List Char) : Bool :=
  inFlow && c = ':' && rest.head?.any fun d => isFlowIndicator d || d = '?'

/-- A plain scalar, and whether a line ended after it. -/
structure Plain where
  text : List Char
  endsLine : Bool
deriving DecidableEq, Repr

/-- Scan a plain scalar. `least` is the column that a further line has to reach, `gap` what
came after the last word, and `text` what there is so far, last character first. -/
def scanPlain (inFlow : Bool) (least : Nat) :
    List Char → Mark → (gap : Gap) → (text : List Char) → Option (Scanned Plain)
  | [], mark, gap, text => some ⟨⟨text.reverse, gap.hasBreak⟩, [], mark⟩
  | c :: rest, mark, gap, text =>
    if isBlank c || isBreak c then
      if c = '\t' && gap.hasBreak && mark.column < least then none
      else scanPlain inFlow least rest (mark.after c) (gap.add c) text
    else if !gap.isEmpty && (c = '#' || (!inFlow && mark.column < least) ||
        atDocumentMarker mark (c :: rest)) then
      some ⟨⟨text.reverse, gap.hasBreak⟩, c :: rest, mark⟩
    else if isStrayColon inFlow c rest then none
    else if endsPlain inFlow c rest then
      some ⟨⟨text.reverse, gap.hasBreak⟩, c :: rest, mark⟩
    else scanPlain inFlow least rest (mark.after c) .empty (c :: gap.reversed ++ text)

end DepGraph.Yaml
