import DepGraph.Yaml.Token

/-!
# Nodes

A document is a tree of nodes: scalars, sequences and mappings. Any node may be given an
anchor, and an alias stands for the node with an anchor.

The tree is built along the tokens in a single pass. What has to be remembered is where
the node that is being read belongs – a `DepGraph.Yaml.Place`, which is a collection with
all that was read of it – and the places of the collections around it. Nodes may also be
empty, and then no token shows them: that a node is empty, and that a value or a sequence
without brackets is over, is seen from the token that comes instead
(`DepGraph.Yaml.Reader.beforeToken`).

Anchors are numbered. A name is given the number of names that are known at the time, so
giving it again moves it to a new number; the next new name then gets the same number.
Of several nodes with the same number the last one counts.
-/

namespace DepGraph.Yaml

/-- A node. The number of its anchor, if it has one, comes first. -/
inductive Node
  | scalar (anchor : Option Nat) (tag : Option (List UInt8)) (style : Style) (text : List Char)
  | sequence (anchor : Option Nat) (items : List Node)
  | mapping (anchor : Option Nat) (members : List (Node × Node))
  /-- The node with an anchor. -/
  | reference (anchor : Nat)
deriving Inhabited

/-- The node that is not written at all. -/
def Node.empty : Node := .scalar none none .plain []

/-! ### Anchors -/

/-- The names of anchors with their numbers, newest first. -/
abbrev Anchors := List (List Char × Nat)

/-- How many names there are. -/
def Anchors.count (names : Anchors) : Nat := (names.map (·.1)).eraseDups.length

/-- The names after one has been given, and its number. -/
def Anchors.give (names : Anchors) (name : List Char) : Anchors × Nat :=
  ((name, names.count) :: names, names.count)

/-! ### Places -/

/-- What stands before a node: a tag and the name of an anchor. -/
structure Properties where
  anchor : Option (List Char) := none
  tag : Option (List UInt8) := none
deriving DecidableEq, Repr

/-- Whether there are none. -/
def Properties.isEmpty (p : Properties) : Bool := p.anchor.isNone && p.tag.isNone

/-- Where a node belongs: a collection, with its anchor and what has been read of it, last
one first. -/
inductive Place
  | root
  /-- An item after a dash. -/
  | blockItem (anchor : Option Nat) (items : List Node)
  /-- An item after a dash of a sequence that is not indented. -/
  | flatItem (anchor : Option Nat) (items : List Node)
  | blockKey (anchor : Option Nat) (members : List (Node × Node))
  | blockValue (anchor : Option Nat) (members : List (Node × Node)) (key : Node)
  /-- An item between brackets. -/
  | flowItem (anchor : Option Nat) (items : List Node)
  /-- The key of an item between brackets that is a mapping of a single member. -/
  | pairKey (anchor : Option Nat) (items : List Node)
  | pairValue (anchor : Option Nat) (items : List Node) (key : Node)
  /-- A key between braces. -/
  | flowKey (anchor : Option Nat) (members : List (Node × Node))
  /-- A key between braces that no colon and no question mark shows to be one. -/
  | loneKey (anchor : Option Nat) (members : List (Node × Node))
  | flowValue (anchor : Option Nat) (members : List (Node × Node)) (key : Node)

namespace Place

/-- Whether block collections may begin here. -/
def allowsBlock : Place → Bool
  | root | blockItem .. | flatItem .. | blockKey .. | blockValue .. => true
  | _ => false

/-- Whether sequences that are not indented may begin here. -/
def allowsFlat : Place → Bool
  | blockKey .. | blockValue .. => true
  | _ => false

/-- Whether a token shows that the node here is empty. -/
def isEmptyBefore (p : Place) (t : Token) : Bool :=
  match p with
  | root => t = .documentEnd
  | blockItem .. => t = .blockEntry || t = .blockEnd
  | flatItem .. => t = .blockEntry || t = .key || t = .value || t = .blockEnd
  | blockKey .. | blockValue .. => t = .key || t = .value || t = .blockEnd
  | pairValue .. => t = .flowEntry || t = .flowSequenceEnd
  | flowKey .. => t = .value || t = .flowEntry || t = .flowMappingEnd
  | flowValue .. => t = .flowEntry || t = .flowMappingEnd
  | flowItem .. | pairKey .. | loneKey .. => false

end Place

/-- What is to come at the innermost place. -/
inductive Expectation
  /-- A node, of which these properties have been read. -/
  | node (properties : Properties)
  /-- An indicator of the next node of the collection, or the end of it. -/
  | entry
  /-- A comma, or the end of the collection. -/
  | comma

/-- How far reading has come. -/
inductive Progress
  /-- Before the document. -/
  | before (directives : List Directive)
  /-- In the document. -/
  | inside (expect : Expectation) (place : Place) (outer : List Place)
  /-- After the document. -/
  | after (root : Node)

/-- The state of reading. -/
structure Reader where
  progress : Progress := .before []
  handles : Handles := standardHandles
  anchors : Anchors := []

namespace Reader

/-! ### Nodes in their places -/

/-- Put a node that is complete in its place. -/
def put (r : Reader) (n : Node) (place : Place) (outer : List Place) : Reader :=
  { r with progress :=
      match place with
      | .root => .after n
      | .blockItem a items => .inside .entry (.blockItem a (n :: items)) outer
      | .flatItem a items => .inside .entry (.flatItem a (n :: items)) outer
      | .blockKey a members => .inside .entry (.blockValue a members n) outer
      | .blockValue a members key => .inside .entry (.blockKey a ((key, n) :: members)) outer
      | .flowItem a items => .inside .comma (.flowItem a (n :: items)) outer
      | .pairKey a items => .inside .entry (.pairValue a items n) outer
      | .pairValue a items key =>
        .inside .comma (.flowItem a (.mapping none [(key, n)] :: items)) outer
      | .flowKey a members => .inside .entry (.flowValue a members n) outer
      | .loneKey a members => .inside .comma (.flowKey a ((n, .empty) :: members)) outer
      | .flowValue a members key => .inside .comma (.flowKey a ((key, n) :: members)) outer }

/-- Put a collection that is complete in the place around it. -/
def close (r : Reader) (n : Node) : List Place → Option Reader
  | [] => none
  | place :: outer => some (r.put n place outer)

/-- Expect something at a place. -/
def expect (r : Reader) (e : Expectation) (place : Place) (outer : List Place) : Reader :=
  { r with progress := .inside e place outer }

/-- Note the anchor of a node that begins. -/
def giveAnchor (r : Reader) (p : Properties) : Reader × Option Nat :=
  match p.anchor with
  | none => (r, none)
  | some name =>
    let (anchors, number) := r.anchors.give name
    ({ r with anchors }, some number)

/-- Put a scalar in its place. -/
def putScalar (r : Reader) (p : Properties) (style : Style) (text : List Char) (place : Place)
    (outer : List Place) : Reader :=
  let (r, anchor) := r.giveAnchor p
  r.put (.scalar anchor p.tag style text) place outer

/-- Begin a collection. -/
def enter (r : Reader) (p : Properties) (e : Expectation) (inner : Option Nat → Place)
    (place : Place) (outer : List Place) : Reader :=
  let (r, anchor) := r.giveAnchor p
  r.expect e (inner anchor) (place :: outer)

/-! ### Tokens -/

/-- Read a token where a node is expected. -/
def readNode (r : Reader) (p : Properties) (place : Place) (outer : List Place) (t : Token) :
    Option Reader :=
  match t with
  | .reference name =>
    if p.isEmpty then (r.anchors.lookup name).map fun number => r.put (.reference number) place outer
    else none
  | .anchor name =>
    if p.anchor.isNone then some (r.expect (.node { p with anchor := some name }) place outer)
    else none
  | .tag tag =>
    if p.tag.isNone then
      (tag.resolve? r.handles).map fun tag =>
        r.expect (.node { p with tag := some tag }) place outer
    else none
  | .scalar style text => some (r.putScalar p style text place outer)
  | .flowSequenceStart => some (r.enter p .entry (.flowItem · []) place outer)
  | .flowMappingStart => some (r.enter p .entry (.flowKey · []) place outer)
  | .blockSequenceStart =>
    if place.allowsBlock then some (r.enter p .entry (.blockItem · []) place outer) else none
  | .blockMappingStart =>
    if place.allowsBlock then some (r.enter p .entry (.blockKey · []) place outer) else none
  | .blockEntry =>
    if place.allowsFlat then some (r.enter p (.node {}) (.flatItem · []) place outer) else none
  | .value | .flowEntry | .flowSequenceEnd =>
    match place with
    | .pairKey .. => if p.isEmpty then some (r.put .empty place outer) else none
    | _ => none
  | _ => none

/-- Read a token where an entry or the end of a collection is expected. -/
def readEntry (r : Reader) (place : Place) (outer : List Place) (t : Token) : Option Reader :=
  match place, t with
  | .blockItem a items, .blockEnd => r.close (.sequence a items.reverse) outer
  | .blockItem .., .blockEntry | .flatItem .., .blockEntry => some (r.expect (.node {}) place outer)
  | .blockKey a members, .blockEnd => r.close (.mapping a members.reverse) outer
  | .blockKey .., .key | .flowKey .., .key => some (r.expect (.node {}) place outer)
  | .blockValue .., .value | .pairValue .., .value | .flowValue .., .value =>
    some (r.expect (.node {}) place outer)
  | .flowItem a items, .flowSequenceEnd => r.close (.sequence a items.reverse) outer
  | .flowItem a items, .key => some (r.expect (.node {}) (.pairKey a items) outer)
  | .flowItem .., t => r.readNode {} place outer t
  | .flowKey a members, .flowMappingEnd => r.close (.mapping a members.reverse) outer
  | .flowKey a members, t => r.readNode {} (.loneKey a members) outer t
  | _, _ => none

/-- Read a token where a comma or the end of a collection is expected. -/
def readComma (r : Reader) (place : Place) (outer : List Place) (t : Token) : Option Reader :=
  match place, t with
  | _, .flowEntry => some (r.expect .entry place outer)
  | .flowItem a items, .flowSequenceEnd => r.close (.sequence a items.reverse) outer
  | .flowKey a members, .flowMappingEnd => r.close (.mapping a members.reverse) outer
  | _, _ => none

/-- Whether a token continues a node of which properties have been read. -/
def continuesNode (p : Properties) (place : Place) : Token → Bool
  | .anchor _ => p.anchor.isNone
  | .tag _ => p.tag.isNone
  | .scalar .. | .flowSequenceStart | .flowMappingStart => true
  | .blockSequenceStart | .blockMappingStart => place.allowsBlock
  | .blockEntry => place.allowsFlat
  | _ => false

/-- If a token shows that the node expected here is empty, put the empty node in its place. -/
def fillEmpty (r : Reader) (t : Token) : Reader :=
  match r.progress with
  | .inside (.node p) place outer =>
    if p.isEmpty then
      if place.isEmptyBefore t then r.put .empty place outer else r
    else if continuesNode p place t then r
    else r.putScalar p .plain [] place outer
  | _ => r

/-- If a token shows that a sequence without brackets or indentation is over, close it. -/
def closeFlat (r : Reader) (t : Token) : Reader :=
  match r.progress with
  | .inside .entry (.flatItem a items) outer =>
    if t = .blockEntry then r else (r.close (.sequence a items.reverse) outer).getD r
  | _ => r

/-- If a token shows that a member has no value, let the value be empty. -/
def fillValue (r : Reader) (t : Token) : Reader :=
  match r.progress with
  | .inside .entry place outer =>
    match place with
    | .blockValue .. | .pairValue .. | .flowValue .. =>
      if t = .value then r else r.put .empty place outer
    | _ => r
  | _ => r

/-- Do what a token shows before it is read itself. -/
def beforeToken (r : Reader) (t : Token) : Reader := ((r.fillEmpty t).closeFlat t).fillValue t

/-- Read a token before the document, or the first one of it. -/
def readBefore (r : Reader) (directives : List Directive) (t : Token) : Option Reader :=
  match t with
  | .directive d => some { r with progress := .before (directives ++ [d]) }
  | .documentStart => do
    let handles ← Directive.handles? directives
    return { r with handles, progress := .inside (.node {}) .root [] }
  | .documentEnd => none
  | t => if directives.isEmpty then r.readNode {} .root [] t else none

/-- Read a token. -/
def read (r : Reader) (t : Token) : Option Reader :=
  let r := r.beforeToken t
  match r.progress with
  | .before directives => r.readBefore directives t
  | .inside (.node p) place outer => r.readNode p place outer t
  | .inside .entry place outer => r.readEntry place outer t
  | .inside .comma place outer => r.readComma place outer t
  | .after _ => if t = .documentEnd then some r else none

/-- The document, if it is complete at the end of the text. It may have no node at all. -/
def finish (r : Reader) : Option (Option Node) :=
  match r.progress with
  | .before directives => if directives.isEmpty then some none else none
  | .inside (.node p) .root [] =>
    match (r.putScalar p .plain [] .root []).progress with
    | .after root => some (some root)
    | _ => none
  | .inside .. => none
  | .after root => some (some root)

end Reader

end DepGraph.Yaml
