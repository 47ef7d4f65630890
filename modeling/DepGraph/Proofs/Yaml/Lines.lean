import DepGraph.Proofs.Yaml.Words

/-!
# A mapping of words, line by line

A block mapping has a line for every member. This file follows the scanner along such lines, where
each member is a name and a value that are words.

Nothing tells the scanner in advance that a word is a name. It begins as any plain scalar does, and
is a candidate for a key. The colon then makes it one, unless it is too far away: a name of up to
`DepGraph.Yaml.keyLimit` bytes is a key, and a longer one cannot be scanned at all
(`DepGraph.Yaml.Scanner.scan_key`). The first member of a mapping also opens it. The value ends
where its line does, as the line after it is not indented any further
(`DepGraph.Yaml.Scanner.scan_member`).

So the tokens of the lines are those of the members, one after the other
(`DepGraph.Yaml.Scanner.scan_members`), and the tokens of a text are known that consists of a
heading and a mapping under it (`DepGraph.Yaml.Token.ofText?_block`).
-/

namespace DepGraph.Yaml

/-! ### Members -/

/-- A member of a mapping of words. -/
structure Member where
  name : List Char
  value : List Char

namespace Member

/-- A member that is made of words. -/
structure Legible (m : Member) : Prop where
  name : IsWord m.name
  value : IsWord m.value

/-- What a line says: the name, and the value after a colon and spaces. -/
def entry (gap : Nat) (m : Member) : List Char :=
  m.name ++ ':' :: (List.replicate (gap + 1) ' ' ++ (m.value ++ ['\n']))

/-- The line of a member. -/
def line (indent gap : Nat) (m : Member) : List Char := List.replicate indent ' ' ++ m.entry gap

/-- The tokens of a member. -/
def tokens (m : Member) : List Token :=
  [.key, .scalar .plain m.name, .value, .scalar .plain m.value]

namespace Legible

variable {m : Member} {mark : Mark} {rest : List Char}

/-- Nothing is skipped before what a line says. -/
theorem skipGap_entry (h : m.Legible) (gap : Nat) :
    Scanner.skipGap false false true (m.entry gap ++ rest) mark =
      (true, m.entry gap ++ rest, mark) := by
  rw [entry, List.append_assoc]
  exact Scanner.skipGap_of_isWord h.name

/-- The line of a member that is indented no further ends the scalar before it. -/
theorem scanPlain_line (h : m.Legible) (indent gap : Nat) (text : List Char) :
    scanPlain false (indent + 1) ('\n' :: (m.line indent gap ++ rest)) mark .empty text =
      some ⟨⟨text.reverse, true⟩, m.entry gap ++ rest, ⟨mark.line + 1, indent, indent⟩⟩ := by
  obtain ⟨c, more, hname, hc⟩ := h.name.exists_cons
  rw [line, entry, hname]
  simp only [List.append_assoc, List.cons_append]
  exact scanPlain_break hc (Nat.lt_succ_self _)

end Legible

end Member

namespace Scanner

/-! ### One token -/

/-- Block collections stay open if they are not indented any further. -/
theorem closeBeyond_eq {s : Scanner} {column : Nat} (h : ∀ i ∈ s.indents, i ≤ column) :
    s.closeBeyond column = s := by
  have hclosed : s.indents.takeWhile (column < ·) = [] := by
    rcases hindents : s.indents with _ | ⟨i, indents⟩
    · rfl
    · rw [hindents] at h
      exact List.takeWhile_cons_of_neg (by simpa using h i (List.mem_cons_self ..))
  rw [closeBeyond, hclosed]
  exact ite_self s

/-- **Scanning goes on** behind the token that begins next. -/
theorem scan_eq {s t : Scanner} {c : Char} {rest : List Char} (ht : s.toToken = t)
    (hrest : t.rest = c :: rest) (hindents : ∀ i ∈ t.indents, i ≤ t.mark.column)
    (hless : ∀ next ∈ t.fetch c, next.rest.length < t.rest.length) :
    s.scan = (t.fetch c).bind scan := by
  have hle : t.rest.length ≤ s.rest.length := ht ▸ length_rest_toToken_le s
  rw [scan, ht, closeBeyond_eq hindents, hrest]
  dsimp only
  rcases hfetch : t.fetch c with _ | next
  · rfl
  · exact if_pos ((hless next hfetch).trans_le hle)

/-- The least column of what is nested in the innermost of some block collections. -/
def least (indents : List Nat) : Nat := base { rest := [], indents }

section Lines

variable {text rest following name : List Char} {mark mark' next : Mark} {tokens : List Token}
  {indents : List Nat} {keyAllowed allowed : Bool}

/-- Outside of brackets a token begins after the gap. -/
theorem toToken_eq {candidate : Option Candidate}
    (htoken : skipGap false false keyAllowed text mark = (allowed, rest, mark')) :
    (⟨text, mark, tokens, indents, keyAllowed, candidate, []⟩ : Scanner).toToken =
      ⟨rest, mark', tokens, indents, allowed, candidate, []⟩ := by
  rw [toToken]
  simp only [inFlow, List.isEmpty_nil, Bool.not_true, htoken]

/-- **The end of the text** closes all that is open. -/
theorem scan_end (htoken : skipGap false false keyAllowed text mark = (true, [], mark')) :
    (⟨text, mark, tokens, indents, keyAllowed, none, []⟩ : Scanner).scan =
      some (tokens.reverse ++ List.replicate indents.length .blockEnd) := by
  have hclosed := (List.takeWhile_sublist (mark'.column < ·) (l := indents)).length_le
  rw [scan, toToken_eq htoken]
  simp only [closeBeyond, closeAll, dropCandidate, inFlow, List.isEmpty_nil, Bool.not_true,
    Bool.false_eq_true, ↓reduceIte, Option.any_none, Option.map_some, Option.some.injEq,
    List.map_const', List.length_drop]
  rw [← List.append_assoc, List.replicate_append_replicate, Nat.sub_add_cancel hclosed,
    List.reverse_append, List.reverse_replicate]

/-- A plain scalar is a candidate if a key may begin. -/
theorem fetchPlain_eq {scanned : Scanned Plain} (tokens : List Token) (keyAllowed : Bool)
    (hscan : scanPlain false (least indents) rest mark .empty [] = some scanned) :
    ∃ required, (⟨rest, mark, tokens, indents, keyAllowed, none, []⟩ : Scanner).fetchPlain =
      some ⟨scanned.rest, scanned.mark, .scalar .plain scanned.value.text :: tokens, indents,
        scanned.value.endsLine, if keyAllowed then some ⟨required, tokens.length, mark⟩ else none,
        []⟩ := by
  have hscan' : ∀ candidate, scanPlain false
      (base ⟨rest, mark, tokens, indents, keyAllowed, candidate, []⟩) rest mark .empty [] =
        some scanned := fun _ => hscan
  refine ⟨least indents = mark.column + 1, ?_⟩
  rw [fetchPlain, noteCandidate]
  cases keyAllowed
  · simp [inFlow, hscan', goTo, push, allow]
  · simp [inFlow, dropCandidate, hscan', goTo, push, allow]
    rfl

/-- **A word is scanned as a plain scalar** if the scalar ends with it. -/
theorem scan_word {word : List Char} {endsLine : Bool} (tokens : List Token)
    (hword : IsWord word) (hindents : ∀ i ∈ indents, i ≤ mark'.column)
    (htoken : skipGap false false keyAllowed text mark = (allowed, word ++ following, mark'))
    (hends : ∀ text, scanPlain false (least indents) following (mark'.over word) .empty text =
      some ⟨⟨text.reverse, endsLine⟩, rest, next⟩)
    (hless : rest.length ≤ following.length) :
    ∃ required, (⟨text, mark, tokens, indents, keyAllowed, none, []⟩ : Scanner).scan =
      (⟨rest, next, .scalar .plain word :: tokens, indents, endsLine,
        if allowed then some ⟨required, tokens.length, mark'⟩ else none, []⟩ : Scanner).scan := by
  obtain ⟨required, hplain⟩ := fetchPlain_eq tokens allowed
    ((scanPlain_append hword.isLetter mark' []).trans (hends _))
  obtain ⟨c, more, rfl, hc⟩ := hword.exists_cons
  have hfetch := (fetch_of_isLetter hc rfl rfl).trans hplain
  refine ⟨required, (scan_eq (toToken_eq htoken) rfl hindents ?_).trans ?_⟩
  · rw [hfetch]
    rintro _ ⟨⟩
    simp only [List.length_append, List.length_cons]
    omega
  · rw [hfetch, List.append_nil, List.reverse_reverse]
    rfl

/-! ### Names -/

/-- Whether a collection at a column opens a new level of nesting. -/
def opens (indents : List Nat) (column : Nat) : Bool := least indents ≤ column

/-- The columns of the collections that are open when there is one at a column. -/
def nested (indents : List Nat) (column : Nat) : List Nat :=
  if opens indents column then column :: indents else indents

/-- The token that shows a mapping that is opened at a column, if it is. -/
def opening (indents : List Nat) (column : Nat) : List Token :=
  if opens indents column then [.blockMappingStart] else []

theorem reverse_opening (column : Nat) :
    (opening indents column).reverse = opening indents column := by
  rw [opening]
  split_ifs
  · rfl
  · rfl

/-- A mapping that begins with the last token is opened before this token, if it is not open. -/
theorem openAt_eq {candidate : Option Candidate} (column : Nat) (last : Token) :
    (⟨rest, mark, last :: tokens, indents, keyAllowed, candidate, []⟩ : Scanner).openAt column
        tokens.length .blockMappingStart [.key] =
      ⟨rest, mark, last :: .key :: (opening indents column ++ tokens), nested indents column,
        keyAllowed, candidate, []⟩ := by
  have hbase : base ⟨rest, mark, last :: tokens, indents, keyAllowed, candidate, []⟩ ≤ column ↔
      opens indents column := decide_eq_true_iff.symm
  rw [openAt, nested, opening]
  by_cases hopens : opens indents column
  · simp [inFlow, hbase, hopens, insertAt]
  · simp [inFlow, hbase, hopens, insertAt]

/-- **A colon makes the last token a key**, as long as it is near enough. -/
theorem scan_colon {required : Bool} {start : Mark} {last : Token} (hrest : wordEnds rest)
    (hline : start.line = mark.line) (hindents : ∀ i ∈ indents, i ≤ mark.column) :
    (⟨':' :: rest, mark, last :: tokens, indents, false, some ⟨required, tokens.length, start⟩,
        []⟩ : Scanner).scan =
      if mark.bytes ≤ start.bytes + keyLimit then
        (⟨rest, mark.after ':', .value :: last :: .key :: (opening indents start.column ++ tokens),
          nested indents start.column, false, none, []⟩ : Scanner).scan
      else none := by
  have hfetch : (⟨':' :: rest, mark, last :: tokens, indents, false,
      some ⟨required, tokens.length, start⟩, []⟩ : Scanner).fetch ':' =
        if mark.bytes ≤ start.bytes + keyLimit then
          some ⟨rest, mark.after ':',
            .value :: last :: .key :: (opening indents start.column ++ tokens),
            nested indents start.column, false, none, []⟩
        else none := by
    rw [fetch_colon rfl hrest, fetchValue]
    simp only [isFresh, hline, decide_true, Bool.true_and, decide_eq_true_eq, openAt_eq]
    -- without a candidate no key may begin here, whether it had to be one or not
    split_ifs
    · rfl
    · rfl
    · rfl
  refine (scan_eq (toToken_eq skipGap_colon) rfl hindents ?_).trans ?_
  · rw [hfetch]
    split_ifs
    · rintro _ ⟨⟩
      exact Nat.lt_succ_self _
    · rintro _ ⟨⟩
  · rw [hfetch]
    split_ifs
    · rfl
    · rfl

/-- **A name is a key** if it is not too long, and cannot be read otherwise. -/
theorem scan_key (hname : IsWord name) (hrest : wordEnds rest)
    (hindents : ∀ i ∈ indents, i ≤ mark'.column)
    (htoken : skipGap false false keyAllowed text mark = (true, name ++ ':' :: rest, mark')) :
    (⟨text, mark, tokens, indents, keyAllowed, none, []⟩ : Scanner).scan =
      if String.utf8Len name ≤ keyLimit then
        (⟨rest, (mark'.over name).after ':',
          .value :: .scalar .plain name :: .key :: (opening indents mark'.column ++ tokens),
          nested indents mark'.column, false, none, []⟩ : Scanner).scan
      else none := by
  have hover := hname.over_eq mark'
  obtain ⟨required, hscan⟩ := scan_word tokens hname hindents htoken
    (fun _ => scanPlain_colon hrest) (Nat.le_refl _)
  have hcolumn : ∀ i ∈ indents, i ≤ (mark'.over name).column := by
    intro i hi
    rw [hover]
    exact (hindents i hi).trans (Nat.le_add_right ..)
  refine hscan.trans ((scan_colon hrest (by rw [hover]) hcolumn).trans ?_)
  simp only [hover, Nat.add_le_add_iff_left]

/-! ### Lines -/

theorem least_nested {column : Nat} (hindents : ∀ i ∈ indents, i ≤ column) :
    least (nested indents column) = column + 1 := by
  rw [nested]
  split_ifs with hopens
  · rfl
  · have hlt : column < least indents := by simpa [opens] using hopens
    rcases indents with _ | ⟨i, indents⟩
    · cases hlt
    · exact Nat.le_antisymm (Nat.succ_le_succ (hindents i (List.mem_cons_self ..))) hlt

theorem nested_le {column : Nat} (hindents : ∀ i ∈ indents, i ≤ column) :
    ∀ i ∈ nested indents column, i ≤ column := by
  rw [nested]
  split_ifs
  · exact List.forall_mem_cons.mpr ⟨Nat.le_refl _, hindents⟩
  · exact hindents

/-- **A line is scanned** to its end, where the next one begins. -/
theorem scan_member {m : Member} {gap : Nat} (hm : m.Legible)
    (hindents : ∀ i ∈ indents, i ≤ mark'.column)
    (htoken : skipGap false false keyAllowed text mark = (true, m.entry gap ++ following, mark'))
    (hnext : ∀ mark text, mark.line = mark'.line →
      scanPlain false (mark'.column + 1) ('\n' :: following) mark .empty text =
        some ⟨⟨text.reverse, true⟩, rest, next⟩)
    (hless : rest.length ≤ following.length) :
    (⟨text, mark, tokens, indents, keyAllowed, none, []⟩ : Scanner).scan =
      if String.utf8Len m.name ≤ keyLimit then
        (⟨rest, next, m.tokens.reverse ++ (opening indents mark'.column ++ tokens),
          nested indents mark'.column, true, none, []⟩ : Scanner).scan
      else none := by
  have hentry : m.entry gap ++ following =
      m.name ++ ':' :: (List.replicate (gap + 1) ' ' ++ (m.value ++ '\n' :: following)) := by
    simp only [Member.entry, List.append_assoc, List.cons_append, List.nil_append]
  -- where the value begins
  have hcolon : ((mark'.over m.name).after ':').over (List.replicate (gap + 1) ' ') =
      ⟨mark'.line, mark'.column + m.name.length + 1 + (gap + 1),
        mark'.bytes + String.utf8Len m.name + 1 + (gap + 1)⟩ := by
    rw [hm.name.over_eq, Mark.over_spaces]
    rfl
  have hgap : skipGap false false false
      (List.replicate (gap + 1) ' ' ++ (m.value ++ '\n' :: following))
      ((mark'.over m.name).after ':') =
        (false, m.value ++ '\n' :: following,
          ((mark'.over m.name).after ':').over (List.replicate (gap + 1) ' ')) := by
    rw [skipGap_spaces]
    exact skipGap_of_isWord hm.value
  rw [scan_key hm.name rfl hindents (htoken.trans (by rw [hentry]))]
  refine if_congr Iff.rfl ?_ rfl
  have hvalue : ∀ i ∈ nested indents mark'.column,
      i ≤ (((mark'.over m.name).after ':').over (List.replicate (gap + 1) ' ')).column := by
    intro i hi
    have hle := nested_le hindents i hi
    rw [hcolon]
    dsimp only
    omega
  have hends : ∀ text, scanPlain false (least (nested indents mark'.column)) ('\n' :: following)
      ((((mark'.over m.name).after ':').over (List.replicate (gap + 1) ' ')).over m.value) .empty
      text = some ⟨⟨text.reverse, true⟩, rest, next⟩ := by
    intro text
    rw [least_nested hindents]
    refine hnext _ _ ?_
    rw [hcolon, hm.value.over_eq]
  obtain ⟨_, hscan⟩ := scan_word _ hm.value hvalue hgap hends (hless.trans (Nat.le_succ _))
  exact hscan

/-- A mapping that is open at a column is not opened there again. -/
theorem nested_nested {column : Nat} (hindents : ∀ i ∈ indents, i ≤ column) :
    opening (nested indents column) column = [] ∧
      nested (nested indents column) column = nested indents column := by
  have hopens : ¬ opens (nested indents column) column := by
    rw [opens, least_nested hindents, decide_eq_true_eq]
    exact Nat.not_succ_le_self _
  exact ⟨if_neg hopens, if_neg hopens⟩

/-- **The lines of a mapping** give the tokens of its members, unless a name is too long. -/
theorem scan_members {m : Member} {ms : List Member} {gap : Nat}
    (hms : ∀ m' ∈ m :: ms, m'.Legible) (hindents : ∀ i ∈ indents, i ≤ mark'.column)
    (htoken : skipGap false false keyAllowed text mark =
      (true, m.entry gap ++ ms.flatMap (Member.line mark'.column gap), mark')) :
    (⟨text, mark, tokens, indents, keyAllowed, none, []⟩ : Scanner).scan =
      if ∀ m' ∈ m :: ms, String.utf8Len m'.name ≤ keyLimit then
        some (tokens.reverse ++ opening indents mark'.column ++ (m :: ms).flatMap Member.tokens ++
          List.replicate (nested indents mark'.column).length .blockEnd)
      else none := by
  obtain ⟨hm, hms'⟩ := List.forall_mem_cons.mp hms
  clear hms
  -- the mapping may have to be opened for the first of the lines, but is open for those after it
  induction ms generalizing m text mark mark' tokens indents keyAllowed with
  | nil =>
    have hnext : ∀ mark text, mark.line = mark'.line →
        scanPlain false (mark'.column + 1) ['\n'] mark .empty text =
          some ⟨⟨text.reverse, true⟩, [], ⟨mark'.line + 1, 0, 0⟩⟩ := by
      intro mark text hline
      rw [scanPlain_end, ← hline]
      rfl
    rw [scan_member hm hindents htoken hnext (Nat.le_refl _), scan_end rfl]
    simp only [List.mem_singleton, forall_eq, List.reverse_append, List.reverse_reverse,
      List.flatMap_singleton, reverse_opening]
  | cons m' ms ih =>
    obtain ⟨hm', hms⟩ := List.forall_mem_cons.mp hms'
    have hnext : ∀ mark text, mark.line = mark'.line →
        scanPlain false (mark'.column + 1)
          ('\n' :: (m' :: ms).flatMap (Member.line mark'.column gap)) mark .empty text =
            some ⟨⟨text.reverse, true⟩, m'.entry gap ++ ms.flatMap (Member.line mark'.column gap),
              ⟨mark'.line + 1, mark'.column, mark'.column⟩⟩ := by
      intro mark text hline
      rw [List.flatMap_cons, ← hline]
      exact hm'.scanPlain_line mark'.column gap text
    have hless : (m'.entry gap ++ ms.flatMap (Member.line mark'.column gap)).length ≤
        ((m' :: ms).flatMap (Member.line mark'.column gap)).length := by
      rw [List.flatMap_cons, Member.line, List.append_assoc, List.length_append, List.length_append]
      simp only [List.length_append]
      omega
    rw [scan_member hm hindents htoken hnext hless]
    have hnested : ∀ i ∈ nested indents mark'.column,
        i ≤ (⟨mark'.line + 1, mark'.column, mark'.column⟩ : Mark).column := nested_le hindents
    obtain ⟨hopening, hopen⟩ := nested_nested hindents
    by_cases hlong : String.utf8Len m.name ≤ keyLimit
    · rw [if_pos hlong, ih hnested (hm'.skipGap_entry gap) hm' hms, hopening, hopen]
      simp [hlong, reverse_opening]
    · rw [if_neg hlong, if_neg fun h => hlong (h m (List.mem_cons_self ..))]

end Lines

end Scanner

/-! ### Texts -/

namespace Member

/-- A text with a mapping that has a heading. -/
def block (heading : List Char) (indent gap : Nat) (members : List Member) : List Char :=
  heading ++ ':' :: '\n' :: members.flatMap (line (indent + 1) gap)

/-- The tokens of a mapping. Without any members no mapping can be seen. -/
def mappingTokens : List Member → List Token
  | [] => []
  | m :: ms => .blockMappingStart :: ((m :: ms).flatMap tokens ++ [.blockEnd])

/-- The tokens of a mapping that has a heading. -/
def blockTokens (heading : List Char) (members : List Member) : List Token :=
  [.blockMappingStart, .key, .scalar .plain heading, .value] ++ mappingTokens members ++ [.blockEnd]

end Member

section Texts

variable {heading : List Char} {indent gap : Nat} {members : List Member}

theorem Scanner.scan_block (hheading : IsWord heading)
    (hshort : String.utf8Len heading ≤ keyLimit) (hmembers : ∀ m ∈ members, m.Legible) :
    (start (Member.block heading indent gap members)).scan =
      if ∀ m ∈ members, String.utf8Len m.name ≤ keyLimit then
        some (Member.blockTokens heading members)
      else none := by
  refine (scan_key hheading rfl (List.forall_mem_nil _) (skipGap_of_isWord hheading)).trans ?_
  rw [if_pos hshort]
  rcases members with _ | ⟨m, ms⟩
  · rw [scan_end rfl, if_pos (List.forall_mem_nil _)]
    rfl
  · obtain ⟨hm, -⟩ := List.forall_mem_cons.mp hmembers
    have hgap : ∀ mark : Mark, skipGap false false false
        ('\n' :: (m :: ms).flatMap (Member.line (indent + 1) gap)) mark =
          (true, m.entry gap ++ ms.flatMap (Member.line (indent + 1) gap),
            ⟨mark.line + 1, indent + 1, indent + 1⟩) := by
      intro mark
      rw [skipGap_break, List.flatMap_cons, Member.line, List.append_assoc, skipGap_spaces,
        Mark.over_indent]
      exact hm.skipGap_entry gap
    have hindents : ∀ line, ∀ i ∈ nested [] 0,
        i ≤ (⟨line, indent + 1, indent + 1⟩ : Mark).column := by
      intro line i hi
      obtain rfl := List.mem_singleton.mp hi
      exact Nat.zero_le _
    refine (scan_members hmembers (hindents _) (hgap _)).trans (if_congr Iff.rfl ?_ rfl)
    simp [Member.blockTokens, Member.mappingTokens, opening, nested, opens, least, base]

/-- **The tokens of a text.** -/
theorem Token.ofText?_block (hheading : IsWord heading)
    (hshort : String.utf8Len heading ≤ keyLimit) (hmembers : ∀ m ∈ members, m.Legible) :
    ofText? (String.ofList (Member.block heading indent gap members)) =
      if ∀ m ∈ members, String.utf8Len m.name ≤ keyLimit then
        some (Member.blockTokens heading members)
      else none := by
  have hletters : ∀ c ∈ Member.block heading indent gap members,
      isLetter c ∨ c = ' ' ∨ c = ':' ∨ c = '\n' := by
    intro c hc
    simp only [Member.block, Member.line, Member.entry, List.mem_append, List.mem_cons,
      List.mem_flatMap, List.mem_replicate, List.not_mem_nil, or_false] at hc
    rcases hc with hc | rfl | rfl | ⟨m, hm, ⟨-, rfl⟩ | hc | rfl | ⟨-, rfl⟩ | hc | rfl⟩
    · exact Or.inl (hheading.isLetter c hc)
    · simp
    · simp
    · simp
    · exact Or.inl ((hmembers m hm).name.isLetter c hc)
    · simp
    · simp
    · exact Or.inl ((hmembers m hm).value.isLetter c hc)
    · simp
  rw [ofText?, String.toList_ofList, prepare?_eq_some hletters]
  exact Scanner.scan_block hheading hshort hmembers

end Texts

end DepGraph.Yaml
