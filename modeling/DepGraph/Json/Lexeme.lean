import DepGraph.Json.Numeral
import DepGraph.Json.Quoted

/-!
# Lexemes

The text of a document is a sequence of lexemes with blanks between them: brackets,
separators, words, numerals and quoted texts. `DepGraph.Json.Lexeme.next?` splits the
first one off. What cannot be read as a lexeme is one all the same, a broken one, and
ends the sequence; whether that matters depends on whether anybody gets that far.
-/

namespace DepGraph.Json

/-- A smallest unit of a document. -/
inductive Lexeme
  | openArray
  | closeArray
  | openObject
  | closeObject
  | comma
  | colon
  | null
  | bool (b : Bool)
  | number (n : Numeral)
  /-- A quoted text with both of its quotes; if it cannot be decoded, why. -/
  | text (content : Except Category String)
  /-- A quoted text that does not end, or not as it should. -/
  | brokenText (fault : Fault)
  /-- Anything else. -/
  | broken (fault : Fault)

namespace Lexeme

/-- The four blanks. -/
def isSpace (c : Char) : Bool := c == ' ' || c == '\t' || c == '\n' || c == '\r'

/-- Read the rest of a word letter by letter. -/
def word (lexeme : Lexeme) : List Char → List Char → Lexeme × List Char
  | [], rest => (lexeme, rest)
  | _ :: _, [] => (broken (.of .eof), [])
  | expected :: letters, c :: rest =>
    if c = expected then word lexeme letters rest else (broken (.of .malformed), [])

/-- Read a quoted text after its first quote. -/
def quoted (rest : List Char) : Lexeme × List Char :=
  match Quoted.scan true [] rest with
  | .ok (content, rest) => (text (.ok content), rest)
  | .error decoded =>
    match Quoted.scan false [] rest with
    | .ok (_, rest) => (text (.error decoded), rest)
    | .error skipped => (brokenText ⟨decoded, skipped⟩, [])

/-- Read a numeral. -/
def numeral (text : List Char) : Lexeme × List Char :=
  match Numeral.read text with
  | .ok (n, rest) => (number n, rest)
  | .error fault => (broken fault, [])

/-- The bracket or separator that a character is. -/
def mark? (c : Char) : Option Lexeme :=
  if c = '[' then some openArray
  else if c = ']' then some closeArray
  else if c = '{' then some openObject
  else if c = '}' then some closeObject
  else if c = ',' then some comma
  else if c = ':' then some colon
  else none

/-- The word that a character begins, and the rest of its letters. -/
def word? (c : Char) : Option (Lexeme × List Char) :=
  if c = 'n' then some (null, ['u', 'l', 'l'])
  else if c = 't' then some (bool true, ['r', 'u', 'e'])
  else if c = 'f' then some (bool false, ['a', 'l', 's', 'e'])
  else none

/-- Read the lexeme that begins with a given character. -/
def after (c : Char) (rest : List Char) : Lexeme × List Char :=
  match mark? c, word? c with
  | some lexeme, _ => (lexeme, rest)
  | none, some (lexeme, letters) => word lexeme letters rest
  | none, none =>
    if c = '"' then quoted rest
    else if c = '-' ∨ c.isDigit then numeral (c :: rest)
    else (broken (.of .malformed), [])

/-- **Split the first lexeme off a text**, if anything but blanks is left of it. -/
def next? (text : List Char) : Option (Lexeme × List Char) :=
  match text.dropWhile isSpace with
  | [] => none
  | c :: rest => some (after c rest)

/-! ### Every lexeme takes something -/

theorem length_word (lexeme : Lexeme) (letters text : List Char) :
    (word lexeme letters text).2.length ≤ text.length := by
  induction letters generalizing text with
  | nil => simp [word]
  | cons expected letters ih =>
    cases text with
    | nil => simp [word]
    | cons c rest =>
      have := ih rest
      simp only [word]
      split
      · simp only [List.length_cons]
        omega
      · simp

theorem length_quoted (rest : List Char) : (quoted rest).2.length ≤ rest.length := by
  unfold quoted
  split
  · rename_i found
    exact Nat.le_of_lt (Quoted.length_scan found)
  · split
    · rename_i found
      exact Nat.le_of_lt (Quoted.length_scan found)
    · simp

theorem length_numeral (c : Char) (rest : List Char) :
    (numeral (c :: rest)).2.length ≤ rest.length := by
  unfold numeral
  split
  · rename_i found
    have := Numeral.length_read found
    simp only [List.length_cons] at this
    simp only
    omega
  · simp

theorem length_after (c : Char) (rest : List Char) : (after c rest).2.length ≤ rest.length := by
  unfold after
  split
  · exact Nat.le_refl _
  · exact length_word ..
  · split
    · exact length_quoted rest
    · split
      · exact length_numeral c rest
      · simp

/-- What is left after a lexeme is shorter. -/
theorem length_next? {text rest : List Char} {lexeme : Lexeme}
    (h : next? text = some (lexeme, rest)) : rest.length < text.length := by
  unfold next? at h
  split at h
  · simp at h
  · rename_i c left found
    have taken := length_after c left
    have kept := (List.dropWhile_sublist isSpace (l := text)).length_le
    rw [found, List.length_cons] at kept
    rw [Option.some.inj h] at taken
    simp only at taken
    omega

end Lexeme

end DepGraph.Json
