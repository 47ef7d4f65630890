import DepGraph.Proofs.Json.Lenient
import DepGraph.Wire

/-!
# Batches in any layout

A batch is an object with an object for each of its edges, and it can be written in many ways
(`DepGraph.Batch.entries`): the members of every object may come in any order and others may stand
between them, what is missing or empty may be left out, and so on. It is always the same batch that
is read (`DepGraph.Batch.read_in_any_layout`).

A weight may be written as any numeral that is read as the weight.
-/

namespace DepGraph

open Json

/-- **What an object may have for a descriptor.** -/
def Descriptor.entries (d : Descriptor) : List Entry :=
  [.optional "sourcePath" d.sourcePath Quoted.Quotes,
    .optional "targetPath" d.targetPath Quoted.Quotes,
    .optional "depType" d.depType Quoted.Quotes,
    .optional "weight" d.weight fun x text =>
      Numeral.IsNumeral text ∧ Codec.real.ofText (String.ofList text) = .ok x]

/-- **What an object may have for a batch.** -/
def Batch.entries (b : Batch) : List Entry :=
  [.withDefault "repoId" b.repoId "" Quoted.Quotes,
    .withDefault "analysisId" b.analysisId "" Quoted.Quotes,
    .withDefault "edges" b.edges [] fun edges text => ∃ items,
      List.Forall₂ (fun item (d : Descriptor) => WritesRecord d.entries item) items edges ∧
        WritesArray items text]

theorem Descriptor.takes {d : Descriptor} {text : List Char} (h : WritesRecord d.entries text) :
    Descriptor.codec.Takes text d := by
  refine .of_parts ?_ rfl (by decide) h
  exact ⟨.optional (fun _ _ => Codec.takes_text) nofun "sourcePath" d.sourcePath,
    .optional (fun _ _ => Codec.takes_text) nofun "targetPath" d.targetPath,
    .optional (fun _ _ => Codec.takes_text) nofun "depType" d.depType,
    .optional (fun _ _ hx => Codec.takes_real hx.1 hx.2) nofun "weight" d.weight, trivial⟩

/-- **A batch is read as it is, however it is written.** -/
theorem Batch.read_in_any_layout {b : Batch} {record : List Char} {text : String}
    (h : WritesRecord b.entries record) (hpads : Pads record text.toList) :
    Batch.codec.ofText text = .ok b := by
  have hedges : ∀ text, (∃ items,
      List.Forall₂ (fun item (d : Descriptor) => WritesRecord d.entries item) items b.edges ∧
        WritesArray items text) → Descriptor.codec.list.Takes text b.edges := by
    rintro text ⟨items, hitems, htext⟩
    exact Codec.takes_list (hitems.imp fun _ _ => Descriptor.takes) htext
  have htakes : Batch.codec.Takes record b := by
    refine .of_parts ?_ rfl (by decide) h
    exact ⟨.withDefault (fun _ => Codec.takes_text) "repoId" "",
      .withDefault (fun _ => Codec.takes_text) "analysisId" "",
      .withDefault hedges "edges" [], trivial⟩
  rw [← String.ofList_toList (s := text)]
  exact htakes.ofText hpads

/-- A batch whose fields stand in another order and beside others, with escapes, blanks and things
that are left out. -/
theorem Batch.read_in_any_layout_scrambled :
    let text := " \x7b\"x\":[1e400,\"\\ud800\"],\"edges\":[\x7b \"weight\":2.50\x7d]," ++
      "\"re\\u0070oId\":\"\\uD835\\udcb3\"\x7d\n"
    Batch.codec.ofText text = .ok ⟨"𝒳", "", [⟨none, none, none, some 2.5⟩]⟩ := by
  intro text
  have hnumeral : Numeral.IsNumeral "1e400".toList :=
    ⟨[], ['1'], [], ['e', '4', '0', '0'],
      { sign := .inl rfl
        whole := ⟨by decide, by decide⟩
        fraction := .inl rfl
        exponent := .inr ⟨'e', [], ['4', '0', '0'], by decide, .inl rfl, by decide, rfl⟩ },
      rfl⟩
  have hhalf : Quoted.IsQuoted "\"\\ud800\"".toList := by
    refine ⟨["\\ud800".toList], List.forall_mem_singleton.mpr (.unit (n := 0xD800) ?_), rfl⟩
    exact ⟨_, _, _, _, by decide, by decide, by decide, by decide, rfl⟩
  have hother : IsValue "[1e400,\"\\ud800\"]".toList := by
    refine @IsValue.array ["1e400".toList, "\"\\ud800\"".toList] _ ?_
      (.items (by simp) (.cons (.refl _) (.cons (.refl _) .nil)))
    rw [List.forall_mem_cons, List.forall_mem_singleton]
    exact ⟨.numeral hnumeral, .quoted hhalf⟩
  have hweight : Numeral.IsNumeral "2.50".toList :=
    ⟨[], ['2'], ['.', '5', '0'], [],
      { sign := .inl rfl
        whole := ⟨by decide, by decide⟩
        fraction := .inr ⟨['5', '0'], by decide, rfl⟩
        exponent := .inl rfl },
      rfl⟩
  have hrepoId : Quoted.Quotes "repoId" "\"re\\u0070oId\"".toList := by
    refine ⟨[['r'], ['e'], "\\u0070".toList, ['o'], ['I'], ['d']], ?_, rfl⟩
    have hp : Quoted.Spells 'p' "\\u0070".toList :=
      @Quoted.Spells.units 'p' ["\\u0070".toList]
        (.cons ⟨_, _, _, _, by decide, by decide, by decide, by decide, rfl⟩ .nil)
    refine .cons (.plain ?_ ?_ ?_) (.cons (.plain ?_ ?_ ?_) (.cons hp (.cons (.plain ?_ ?_ ?_)
      (.cons (.plain ?_ ?_ ?_) (.cons (.plain ?_ ?_ ?_) .nil))))) <;> decide
  have hrepo : Quoted.Quotes "𝒳" "\"\\uD835\\udcb3\"".toList := by
    refine ⟨["\\uD835\\udcb3".toList], .cons ?_ .nil, rfl⟩
    refine @Quoted.Spells.units '𝒳' ["\\uD835".toList, "\\udcb3".toList] (.cons ?_ (.cons ?_ .nil))
    · exact ⟨_, _, _, _, by decide, by decide, by decide, by decide, rfl⟩
    · exact ⟨_, _, _, _, by decide, by decide, by decide, by decide, rfl⟩
  have hedge : WritesRecord (Descriptor.entries ⟨none, none, none, some 2.5⟩)
      "\x7b \"weight\":2.50\x7d".toList := by
    refine ⟨[[], [], [], [("weight", "2.50".toList)]], [], [("weight", "2.50".toList)],
      [("\"weight\"".toList, "2.50".toList)], ?_, by simp, .refl _, ?_, ?_⟩
    · exact .cons (.lacking rfl) (.cons (.lacking rfl) (.cons (.lacking rfl)
        (.cons (.member ⟨hweight, by decide +kernel⟩) .nil)))
    · exact .cons ⟨Quoted.quotes_write "weight", rfl⟩ .nil
    · exact ⟨["\"weight\":2.50".toList], .cons ⟨[], [], blanks_nil, blanks_nil, rfl⟩ .nil,
        .items (by simp) (.cons ⟨[' '], [], by decide, blanks_nil, rfl⟩ .nil)⟩
  have hedges : WritesArray ["\x7b \"weight\":2.50\x7d".toList]
      "[\x7b \"weight\":2.50\x7d]".toList :=
    .items (by simp) (.cons (.refl _) .nil)
  have hjoined : List.Forall₂ Joins
      [("\"x\"".toList, "[1e400,\"\\ud800\"]".toList),
        ("\"edges\"".toList, "[\x7b \"weight\":2.50\x7d]".toList),
        ("\"re\\u0070oId\"".toList, "\"\\uD835\\udcb3\"".toList)]
      ["\"x\":[1e400,\"\\ud800\"]".toList, "\"edges\":[\x7b \"weight\":2.50\x7d]".toList,
        "\"re\\u0070oId\":\"\\uD835\\udcb3\"".toList] :=
    .cons ⟨[], [], blanks_nil, blanks_nil, rfl⟩ (.cons ⟨[], [], blanks_nil, blanks_nil, rfl⟩
      (.cons ⟨[], [], blanks_nil, blanks_nil, rfl⟩ .nil))
  refine read_in_any_layout ⟨[[("repoId", "\"\\uD835\\udcb3\"".toList)], [],
      [("edges", "[\x7b \"weight\":2.50\x7d]".toList)]],
    [("x", "[1e400,\"\\ud800\"]".toList)],
    [("x", "[1e400,\"\\ud800\"]".toList), ("edges", "[\x7b \"weight\":2.50\x7d]".toList),
      ("repoId", "\"\\uD835\\udcb3\"".toList)], _, ?_, ?_, by decide, ?_, _, hjoined,
      .items (by simp) (.cons (.refl _) (.cons (.refl _) (.cons (.refl _) .nil)))⟩
    ⟨[' '], ['\n'], by decide, by decide, by decide +kernel⟩
  · exact .cons (.member hrepo) (.cons (.lacking rfl)
      (.cons (.member ⟨_, .cons hedge .nil, hedges⟩) .nil))
  · exact List.forall_mem_singleton.mpr ⟨by decide, hother⟩
  · exact .cons ⟨Quoted.quotes_write "x", rfl⟩ (.cons ⟨Quoted.quotes_write "edges", rfl⟩
      (.cons ⟨hrepoId, rfl⟩ .nil))

end DepGraph
