import DepGraph.Proofs.Yaml.Lines
import DepGraph.Yaml.Document

/-!
# The node of a mapping

Reading the tokens of a mapping puts its members one after the other into the place that is open,
without any regard to what they are (`DepGraph.Yaml.Reader.foldlM_read_members`). The document of
such a text is known then: it has the mapping under its heading, or an empty node if there is no
member to show that something is there (`DepGraph.Yaml.Document.ofText?_block`).
-/

namespace DepGraph.Yaml

namespace Member

/-- The key and the value that a member stands for. -/
def nodes (m : Member) : Node × Node :=
  (.scalar none none .plain m.name, .scalar none none .plain m.value)

/-- The node of a mapping. -/
def mapping : List Member → Node
  | [] => .empty
  | m :: ms => .mapping none ((m :: ms).map nodes)

end Member

namespace Reader

variable {handles : Handles} {anchors : Anchors} {outer : List Place}

/-- A member is read into the mapping that is open. -/
theorem foldlM_read_member (m : Member) (before : List (Node × Node)) :
    m.tokens.foldlM Reader.read
        ⟨.inside .entry (.blockKey none before) outer, handles, anchors⟩ =
      some ⟨.inside .entry (.blockKey none (m.nodes :: before)) outer, handles, anchors⟩ :=
  rfl

/-- **Members are read** one after the other. -/
theorem foldlM_read_members (members : List Member) (before : List (Node × Node)) :
    (members.flatMap Member.tokens).foldlM Reader.read
        ⟨.inside .entry (.blockKey none before) outer, handles, anchors⟩ =
      some ⟨.inside .entry (.blockKey none ((members.map Member.nodes).reverse ++ before)) outer,
        handles, anchors⟩ := by
  induction members generalizing before with
  | nil => rfl
  | cons m members ih =>
    rw [List.flatMap_cons, List.foldlM_append, foldlM_read_member]
    refine (ih (m.nodes :: before)).trans ?_
    simp only [List.map_cons, List.reverse_cons, List.append_assoc, List.singleton_append]

/-- **A mapping is read** as the value of a key. -/
theorem foldlM_read_mapping (members : List Member) (before : List (Node × Node)) (key : Node) :
    (Member.mappingTokens members ++ [Token.blockEnd]).foldlM Reader.read
        ⟨.inside (.node {}) (.blockValue none before key) [.root], handles, anchors⟩ =
      some ⟨.after (.mapping none ((key, Member.mapping members) :: before).reverse), handles,
        anchors⟩ := by
  rcases members with _ | ⟨m, ms⟩
  · rfl
  · have hopen : (⟨.inside (.node {}) (.blockValue none before key) [.root], handles,
        anchors⟩ : Reader).read .blockMappingStart =
          some ⟨.inside .entry (.blockKey none []) [.blockValue none before key, .root], handles,
            anchors⟩ := rfl
    rw [Member.mappingTokens, List.cons_append, List.foldlM_cons, hopen, List.append_assoc]
    refine (List.foldlM_append ..).trans ?_
    rw [foldlM_read_members, List.append_nil]
    -- one token ends the mapping, and the other what it is the value in
    have hclose : (⟨.inside .entry (.blockKey none ((m :: ms).map Member.nodes).reverse)
        [.blockValue none before key, .root], handles, anchors⟩ : Reader).read .blockEnd =
          some ⟨.inside .entry (.blockKey none
            ((key, .mapping none ((m :: ms).map Member.nodes).reverse.reverse) :: before)) [.root],
              handles, anchors⟩ := rfl
    rw [List.reverse_reverse] at hclose
    rw [Option.bind_eq_bind, Option.bind_some, List.singleton_append, List.foldlM_cons, hclose]
    rfl

end Reader

namespace Document

variable {heading : List Char} {indent gap : Nat} {members : List Member}

/-- The document with a mapping under a heading. -/
def block (heading : List Char) (members : List Member) : Document :=
  ⟨some (.mapping none [(.scalar none none .plain heading, Member.mapping members)])⟩

theorem ofTokens?_blockTokens (heading : List Char) (members : List Member) :
    ofTokens? (Member.blockTokens heading members) = some (block heading members) := by
  have hread : (Member.blockTokens heading members).foldlM Reader.read {} =
      some ⟨.after (.mapping none [(.scalar none none .plain heading, Member.mapping members)]),
        standardHandles, []⟩ := by
    rw [Member.blockTokens, List.append_assoc, List.foldlM_append]
    exact Reader.foldlM_read_mapping members [] _
  rw [ofTokens?, hread]
  rfl

/-- **The document of a text.** -/
theorem ofText?_block (hheading : IsWord heading) (hshort : String.utf8Len heading ≤ keyLimit)
    (hmembers : ∀ m ∈ members, m.Legible) :
    ofText? (String.ofList (Member.block heading indent gap members)) =
      if ∀ m ∈ members, String.utf8Len m.name ≤ keyLimit then some (block heading members)
      else none := by
  rw [ofText?, Token.ofText?_block hheading hshort hmembers]
  split_ifs
  · exact ofTokens?_blockTokens heading members
  · rfl

end Document

end DepGraph.Yaml
