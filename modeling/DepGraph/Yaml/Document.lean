import DepGraph.Yaml.Node

/-!
# Documents

A text holds at most one document, and a document at most one node at its root. Aliases are
followed when something is asked of the node that they stand for, and not before, so a
document may refer to itself.
-/

namespace DepGraph.Yaml

namespace Node

mutual

/-- The nodes with an anchor, each with its number, in the order in which they begin. -/
def anchored (n : Node) : List (Nat × Node) :=
  match n with
  | scalar anchor .. => (anchor.map (·, n)).toList
  | sequence anchor items => (anchor.map (·, n)).toList ++ anchoredItems items
  | mapping anchor members => (anchor.map (·, n)).toList ++ anchoredMembers members
  | reference _ => []

/-- The nodes with an anchor among some items. -/
def anchoredItems : List Node → List (Nat × Node)
  | [] => []
  | n :: ns => n.anchored ++ anchoredItems ns

/-- The nodes with an anchor among some keys and values. -/
def anchoredMembers : List (Node × Node) → List (Nat × Node)
  | [] => []
  | (key, value) :: members => key.anchored ++ value.anchored ++ anchoredMembers members

end

end Node

/-- A document. -/
structure Document where
  root : Option Node

namespace Document

/-- The document that some tokens make up; `none` if they make up none. -/
def ofTokens? (tokens : List Token) : Option Document := do
  return ⟨← (← tokens.foldlM Reader.read {}).finish⟩

/-- **The document of a text**; `none` if the text is not well formed. -/
def ofText? (text : String) : Option Document := do
  ofTokens? (← Token.ofText? text)

/-- The node that a node stands for: for aliases, the last one with their number. -/
def follow? (d : Document) : Node → Option Node
  | .reference number => do (← d.root).anchored.reverse.lookup number
  | n => some n

/-- The text of a scalar. -/
def text? (d : Document) (n : Node) : Option String := do
  match ← d.follow? n with
  | .scalar _ _ _ text => return String.ofList text
  | _ => none

/-- The members of a mapping. A plain scalar with nothing in it has none. -/
def members? (d : Document) (n : Node) : Option (List (Node × Node)) := do
  match ← d.follow? n with
  | .mapping _ members => return members
  | .scalar _ _ .plain [] => return []
  | _ => none

/-- The members that have one of the known names. All names have to be texts, and none of
the known ones may be there twice. -/
def fields? (d : Document) (known : List String) (n : Node) : Option (List (String × Node)) := do
  let named ← (← d.members? n).mapM fun (key, value) => do return (← d.text? key, value)
  let found := named.filter fun (name, _) => known.contains name
  if (found.map (·.1)).Nodup then some found else none

end Document

end DepGraph.Yaml
