/-!
# Blank text

A name that consists of white space alone says nothing, so it counts as missing. White
space is meant in the wide sense: the twenty-five characters with the Unicode property
`White_Space`, not only the ones on a keyboard.

A text is *blank* when trimming white space from both of its ends leaves nothing, which
is to say that every one of its characters is white space. Trimming only asks the
question: what is stored is always the text as it came.
-/

namespace DepGraph

/-- The characters with the Unicode property `White_Space`. -/
def whiteSpace : List Char :=
  ['\u0009', '\u000a', '\u000b', '\u000c', '\u000d', '\u0020', '\u0085', '\u00a0', '\u1680',
   '\u2000', '\u2001', '\u2002', '\u2003', '\u2004', '\u2005', '\u2006', '\u2007', '\u2008',
   '\u2009', '\u200a', '\u2028', '\u2029', '\u202f', '\u205f', '\u3000']

/-- Whether a character is white space. -/
def isWhite (c : Char) : Bool := whiteSpace.contains c

/-- The characters of a text without the white space at its two ends. -/
def trimmed (text : List Char) : List Char :=
  ((text.dropWhile isWhite).reverse.dropWhile isWhite).reverse

/-- Whether trimming a text leaves nothing. -/
def isBlank (text : String) : Bool := (trimmed text.toList).isEmpty

example : whiteSpace.length = 25 ∧ whiteSpace.Pairwise (· < ·) := by decide

end DepGraph
