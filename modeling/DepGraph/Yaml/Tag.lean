import DepGraph.Yaml.Text

/-!
# Tags

A tag says what kind of value a node is. It is written as a *handle* and a suffix, and the
handle stands for a longer beginning, either one of the two standard ones or one that a
directive at the head of the document declares. A tag is a sequence of octets: where it
has percent signs, these and two digits each stand for an octet, and an octet zero ends
it.
-/

namespace DepGraph.Yaml

/-- A tag as it is written. -/
structure RawTag where
  handle : List Char
  suffix : List UInt8
deriving DecidableEq, Repr

/-! ### Octets -/

/-- Whether a character may occur in a tag as itself. -/
def isTagChar (c : Char) : Bool := isWordChar c || ";/?:@&=+$.!~*'()".toList.contains c

/-- Whether a character may occur in a tag only where nothing else could be meant. -/
def isBracketedTagChar (c : Char) : Bool := c = ',' || c = '[' || c = ']'

/-- The octet of an ASCII character. -/
def octetOfChar (c : Char) : UInt8 := c.toNat.toUInt8

/-- How many octets follow the first one of a character in UTF-8. -/
def continuationCount? (octet : Nat) : Option Nat :=
  if octet < 0x80 then some 0
  else if 0xc0 ≤ octet && octet < 0xe0 then some 1
  else if 0xe0 ≤ octet && octet < 0xf0 then some 2
  else if 0xf0 ≤ octet && octet < 0xf8 then some 3
  else none

/-- Read the characters of a tag as octets, as far as they go. A number of octets is still
missing from a character in UTF-8. -/
def readOctets (bracketed : Bool) : (missing : Nat) → List Char → Option (List UInt8 × List Char)
  | missing, '%' :: a :: b :: rest => do
    let octet := 16 * (← hexValue? a) + (← hexValue? b)
    let missing ←
      match missing with
      | 0 => continuationCount? octet
      | left + 1 => if 0x80 ≤ octet && octet < 0xc0 then some left else none
    let (octets, rest) ← readOctets bracketed missing rest
    return (octet.toUInt8 :: octets, rest)
  | 0, c :: rest =>
    if isTagChar c || (bracketed && isBracketedTagChar c) then do
      let (octets, rest) ← readOctets bracketed 0 rest
      return (octetOfChar c :: octets, rest)
    else if c = '%' then none
    else some ([], c :: rest)
  | 0, [] => some ([], [])
  | _ + 1, _ => none

/-- The octets before the first zero. -/
def beforeZero (octets : List UInt8) : List UInt8 := octets.takeWhile (· ≠ 0)

/-- Read at least one character of a tag. -/
def readTagText? (bracketed : Bool) (text : List Char) : Option (List UInt8 × List Char) := do
  let (octets, rest) ← readOctets bracketed 0 text
  if octets.isEmpty then none else some (beforeZero octets, rest)

/-! ### Tags in front of a node -/

/-- Read a handle: an exclamation mark, or a word between two of them. Outside of
directives the second one may be missing. -/
def readHandle? (declared : Bool) : List Char → Option (List Char × List Char)
  | '!' :: rest =>
    let word := rest.takeWhile isWordChar
    match rest.dropWhile isWordChar with
    | '!' :: rest => some ('!' :: word ++ ['!'], rest)
    | rest => if declared && !word.isEmpty then none else some ('!' :: word, rest)
  | _ => none

/-- Read a tag. The exclamation mark alone is a tag of its own. -/
def RawTag.read? : List Char → Option (RawTag × List Char)
  | '!' :: '<' :: rest => do
    let (suffix, rest) ← readTagText? true rest
    match rest with
    | '>' :: rest => return (⟨[], suffix⟩, rest)
    | _ => none
  | text => do
    let (handle, rest) ← readHandle? false text
    if 1 < handle.length && handle.getLast? = some '!' then
      let (suffix, rest) ← readTagText? false rest
      return (⟨handle, suffix⟩, rest)
    else
      let (octets, rest) ← readOctets false 0 rest
      let suffix := beforeZero (handle.tail.map octetOfChar ++ octets)
      if suffix.isEmpty then return (⟨[], [octetOfChar '!']⟩, rest)
      else return (⟨['!'], suffix⟩, rest)

/-! ### Directives -/

/-- What a directive at the head of a document declares. -/
inductive Directive
  | version (major minor : Nat)
  | tag (handle : List Char) (beginning : List UInt8)
deriving DecidableEq, Repr

/-- Read a number of at most nine digits. -/
def readShortNumber? (text : List Char) : Option (Nat × List Char) :=
  let digits := text.takeWhile Char.isDigit
  if digits.isEmpty || 9 < digits.length then none
  else some (Nat.ofDigitChars 10 digits 0, text.dropWhile Char.isDigit)

/-- Read a directive after its percent sign. -/
def Directive.read? (text : List Char) : Option (Directive × List Char) := do
  let name := text.takeWhile isWordChar
  let rest := text.dropWhile isWordChar
  if name.isEmpty || !wordEnds rest then none
  let rest := rest.dropWhile isBlank
  match String.ofList name with
  | "YAML" =>
    let (major, rest) ← readShortNumber? rest
    match rest with
    | '.' :: rest =>
      let (minor, rest) ← readShortNumber? rest
      return (version major minor, rest)
    | _ => none
  | "TAG" =>
    let (handle, rest) ← readHandle? true rest
    if !(rest.head?.any isBlank) then none
    let (beginning, rest) ← readTagText? true (rest.dropWhile isBlank)
    if !wordEnds rest then none
    return (tag handle beginning, rest)
  | _ => none

/-- What handles stand for. -/
abbrev Handles := List (List Char × List UInt8)

/-- The octets of a text. -/
def octetsOf (text : String) : List UInt8 := text.toUTF8.toList

/-- The two standard handles. -/
def standardHandles : Handles :=
  [(['!'], octetsOf "!"), (['!', '!'], octetsOf "tag:yaml.org,2002:")]

/-- What the handles stand for under some directives; `none` if these do not go together or
are not for this version. -/
def Directive.handles? (directives : List Directive) : Option Handles := do
  let versions := directives.filterMap fun
    | version major minor => some (major, minor)
    | tag .. => none
  let declared := directives.filterMap fun
    | version .. => none
    | tag handle beginning => some (handle, beginning)
  if 1 < versions.length then none
  if versions.any fun (major, minor) => major != 1 || (minor != 1 && minor != 2) then none
  if !(declared.map (·.1)).Nodup then none
  return declared ++ standardHandles

/-- The whole tag; `none` if nothing is known about its handle. -/
def RawTag.resolve? (tag : RawTag) (handles : Handles) : Option (List UInt8) :=
  if tag.handle.isEmpty then some tag.suffix
  else (handles.lookup tag.handle).map (· ++ tag.suffix)

end DepGraph.Yaml
