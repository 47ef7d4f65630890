import DepGraph.Yaml.Token
import Mathlib.Data.String.Basic

/-!
# Words in a configuration text

Most of what a configuration says is said in *words*: letters, digits and underscores. The
letters and digits of all scripts are welcome, and beyond ASCII so is every other character that
may occur in a text, except for those that end a line and the byte order mark
(`DepGraph.Yaml.isLetter`).

What makes words simple is that no character of a word means anything to the scanner. A word
begins a plain scalar wherever it stands, no matter what comes next
(`DepGraph.Yaml.Scanner.fetch_of_isLetter`), and it is part of the scalar to its end
(`DepGraph.Yaml.scanPlain_append`). What may follow a word in a block mapping is a colon, which
ends the scalar on the line, or the end of the line. In the latter case the scanner goes on to see
whether the next line belongs to the scalar, which depends on how far it is indented.
-/

namespace DepGraph.Yaml

/-! ### Letters -/

/-- Whether a character may be part of a word. -/
def isLetter (c : Char) : Bool :=
  c.isAlphanum || c = '_' || ('\u00a0' ≤ c && isAllowed c && !isBreak c && c ≠ '\ufeff')

/-- A word: some letters, digits and underscores. -/
structure IsWord (word : List Char) : Prop where
  ne_nil : word ≠ []
  isLetter : ∀ c ∈ word, isLetter c

instance (word : List Char) : Decidable (IsWord word) :=
  decidable_of_iff (!word.isEmpty && word.all Yaml.isLetter) (by
    rw [Bool.and_eq_true, Bool.not_eq_true', List.isEmpty_eq_false_iff, List.all_eq_true]
    exact ⟨fun h => ⟨h.1, h.2⟩, fun h => ⟨h.ne_nil, h.isLetter⟩⟩)

/-- A word begins with a letter. -/
theorem IsWord.exists_cons {word : List Char} (h : IsWord word) :
    ∃ c rest, word = c :: rest ∧ Yaml.isLetter c := by
  obtain ⟨c, rest, rfl⟩ := List.exists_cons_of_ne_nil h.ne_nil
  exact ⟨c, rest, rfl, h.isLetter c (List.mem_cons_self ..)⟩

section Letters

variable {c : Char}

/-- A letter is none of the characters that are not letters. -/
theorem ne_of_isLetter {d : Char} (h : isLetter c) (hd : isLetter d = false) : c ≠ d := by
  rintro rfl
  rw [h] at hd
  exact Bool.noConfusion hd

theorem isAllowed_of_isAlphanum (h : c.isAlphanum) : isAllowed c := by
  -- capital letters, small letters and digits, each by their bounds
  change ((decide ('A'.val ≤ c.val ∧ c.val ≤ 'Z'.val) ||
    (decide ('a'.val ≤ c.val) && decide (c.val ≤ 'z'.val))) || c.isDigit) = true at h
  simp only [Char.isDigit, UInt32.le_iff_toNat_le, Bool.or_eq_true, Bool.and_eq_true,
    decide_eq_true_eq, Char.reduceVal, UInt32.reduceToNat, Char.toNat_val] at h
  simp only [isAllowed, Char.le_def, UInt32.le_iff_toNat_le, Bool.or_eq_true, Bool.and_eq_true,
    decide_eq_true_eq, Char.reduceVal, UInt32.reduceToNat, Char.toNat_val]
  omega

theorem isAllowed_of_isLetter (h : isLetter c) : isAllowed c := by
  simp only [isLetter, Bool.or_eq_true, Bool.and_eq_true, decide_eq_true_eq] at h
  rcases h with (h | rfl) | ⟨⟨⟨-, h⟩, -⟩, -⟩
  · exact isAllowed_of_isAlphanum h
  · decide
  · exact h

theorem isBreak_of_isLetter (h : isLetter c) : isBreak c = false := by
  rw [isBreak, decide_eq_false (ne_of_isLetter h rfl), decide_eq_false (ne_of_isLetter h rfl),
    decide_eq_false (ne_of_isLetter h rfl)]
  rfl

theorem isBlank_of_isLetter (h : isLetter c) : isBlank c = false := by
  rw [isBlank, decide_eq_false (ne_of_isLetter h rfl), decide_eq_false (ne_of_isLetter h rfl)]
  rfl

end Letters

/-- A text of words with spaces, colons and ordinary line breaks between them is ready for
scanning as it is. -/
theorem prepare?_eq_some {text : List Char}
    (h : ∀ c ∈ text, isLetter c ∨ c = ' ' ∨ c = ':' ∨ c = '\n') : prepare? text = some text := by
  have hallowed : text.all isAllowed := by
    refine List.all_eq_true.mpr fun c hc => ?_
    obtain hletter | rfl | rfl | rfl := h c hc
    · exact isAllowed_of_isLetter hletter
    all_goals rfl
  have hbreak : ∀ c ∈ text, c ≠ '\r' ∧ c ≠ '\u0085' := by
    intro c hc
    obtain hletter | rfl | rfl | rfl := h c hc
    · exact ⟨ne_of_isLetter hletter rfl, ne_of_isLetter hletter rfl⟩
    all_goals decide
  rw [prepare?, if_pos hallowed]
  refine congrArg some ?_
  clear h hallowed
  induction text with
  | nil => rfl
  | cons c text ih =>
    obtain ⟨⟨hreturn, hnext⟩, htext⟩ := List.forall_mem_cons.mp hbreak
    rw [normaliseBreaks, ih htext]
    · simp [hreturn, hnext]
    · rintro _ rfl
      exact absurd rfl hreturn

/-! ### Where characters lead -/

/-- Characters on one line lead along this line. -/
theorem Mark.over_eq {passed : List Char} (h : ∀ c ∈ passed, isBreak c = false) (m : Mark) :
    m.over passed =
      ⟨m.line, m.column + passed.length, m.bytes + String.utf8Len passed⟩ := by
  induction passed generalizing m with
  | nil => rfl
  | cons c passed ih =>
    obtain ⟨hc, hpassed⟩ := List.forall_mem_cons.mp h
    rw [Mark.over, List.foldl_cons]
    refine (ih hpassed (m.after c)).trans ?_
    rw [after, hc, String.utf8Len_cons, List.length_cons]
    simp only [Bool.false_eq_true, ↓reduceIte, Mark.mk.injEq, true_and]
    omega

theorem utf8Len_replicate (count : Nat) (c : Char) :
    String.utf8Len (List.replicate count c) = count * c.utf8Size := by
  induction count with
  | zero => exact (Nat.zero_mul _).symm
  | succ count ih => rw [List.replicate_succ, String.utf8Len_cons, ih, Nat.succ_mul]

/-- Spaces lead along the line. -/
theorem Mark.over_spaces (m : Mark) (count : Nat) :
    m.over (List.replicate count ' ') = ⟨m.line, m.column + count, m.bytes + count⟩ := by
  rw [over_eq fun c hc => (List.mem_replicate.mp hc).2 ▸ rfl, List.length_replicate,
    utf8Len_replicate]
  exact congrArg (Mark.mk _ _ <| m.bytes + ·) (Nat.mul_one count)

/-- A line break and spaces lead into the next line. -/
theorem Mark.over_indent (m : Mark) (indent : Nat) :
    (m.after '\n').over (List.replicate indent ' ') = ⟨m.line + 1, indent, indent⟩ := by
  rw [over_spaces]
  simp [after, isBreak]

/-- Words lead along the line. -/
theorem IsWord.over_eq {word : List Char} (h : IsWord word) (m : Mark) :
    m.over word = ⟨m.line, m.column + word.length, m.bytes + String.utf8Len word⟩ :=
  Mark.over_eq (fun c hc => isBreak_of_isLetter (h.isLetter c hc)) m

/-! ### Plain scalars -/

section Plain

variable {least : Nat} {mark : Mark} {text rest : List Char}

/-- **A word is part of a plain scalar** to its end. -/
theorem scanPlain_append {word : List Char} (h : ∀ c ∈ word, isLetter c) (mark : Mark)
    (text : List Char) :
    scanPlain false least (word ++ rest) mark .empty text =
      scanPlain false least rest (mark.over word) .empty (word.reverse ++ text) := by
  induction word generalizing mark text with
  | nil => rfl
  | cons c word ih =>
    obtain ⟨hc, hword⟩ := List.forall_mem_cons.mp h
    have hcolon : c ≠ ':' := ne_of_isLetter hc rfl
    rw [List.cons_append, scanPlain]
    simp only [isBlank_of_isLetter hc, isBreak_of_isLetter hc, Gap.empty, Gap.isEmpty,
      isStrayColon, endsPlain, hcolon, Gap.reversed, Bool.or_self, Bool.false_eq_true,
      ↓reduceIte, Bool.not_true, Bool.false_and, decide_false]
    rw [List.reverse_cons, List.append_assoc]
    exact ih hword (mark.after c) (c :: text)

/-- A colon that ends a word ends a plain scalar. -/
theorem scanPlain_colon (h : wordEnds rest) :
    scanPlain false least (':' :: rest) mark .empty text =
      some ⟨⟨text.reverse, false⟩, ':' :: rest, mark⟩ := by
  rw [scanPlain]
  simp [isBlank, isBreak, Gap.empty, Gap.isEmpty, Gap.hasBreak, isStrayColon, endsPlain, h]

/-- Spaces at the beginning of a line leave a gap as it is. -/
theorem scanPlain_spaces (count : Nat) (mark : Mark) (first : Option Char) (others : List Char) :
    scanPlain false least (List.replicate count ' ' ++ rest) mark (.breaks first others) text =
      scanPlain false least rest (mark.over (List.replicate count ' ')) (.breaks first others)
        text := by
  induction count generalizing mark with
  | zero => rfl
  | succ count ih =>
    rw [List.replicate_succ, List.cons_append, scanPlain]
    simp only [isBlank, isBreak, Gap.add]
    exact ih (mark.after ' ')

/-- **A line that is indented too little** ends a plain scalar. -/
theorem scanPlain_break {c : Char} (hc : isLetter c) {indent : Nat} (hindent : indent < least) :
    scanPlain false least ('\n' :: (List.replicate indent ' ' ++ c :: rest)) mark .empty text =
      some ⟨⟨text.reverse, true⟩, c :: rest, ⟨mark.line + 1, indent, indent⟩⟩ := by
  rw [scanPlain]
  simp only [isBlank, isBreak, Gap.empty, Gap.add]
  refine (scanPlain_spaces indent _ _ _).trans ?_
  rw [Mark.over_indent, scanPlain]
  simp [isBlank_of_isLetter hc, isBreak_of_isLetter hc, Gap.isEmpty, Gap.hasBreak, hindent]

/-- So does the end of the text. -/
theorem scanPlain_end :
    scanPlain false least ['\n'] mark .empty text =
      some ⟨⟨text.reverse, true⟩, [], mark.after '\n'⟩ := by
  simp [scanPlain, isBlank, isBreak, Gap.empty, Gap.add, Gap.hasBreak]

end Plain

namespace Scanner

/-! ### Where a token begins -/

section Gaps

variable {inFlow keyAllowed : Bool} {rest : List Char} {mark : Mark}

/-- Nothing is skipped before a letter. -/
theorem skipGap_of_isLetter {c : Char} (hc : isLetter c) :
    skipGap inFlow false keyAllowed (c :: rest) mark = (keyAllowed, c :: rest, mark) := by
  have hspace : c ≠ ' ' := ne_of_isLetter hc rfl
  have htab : c ≠ '\t' := ne_of_isLetter hc rfl
  have hcomment : c ≠ '#' := ne_of_isLetter hc rfl
  have horder : c ≠ '\ufeff' := ne_of_isLetter hc rfl
  rw [skipGap]
  simp [isBreak_of_isLetter hc, hspace, htab, hcomment, horder]

/-- Nothing is skipped before a word. -/
theorem skipGap_of_isWord {word : List Char} (hword : IsWord word) :
    skipGap inFlow false keyAllowed (word ++ rest) mark = (keyAllowed, word ++ rest, mark) := by
  obtain ⟨c, more, rfl, hc⟩ := hword.exists_cons
  exact skipGap_of_isLetter hc

theorem skipGap_colon :
    skipGap inFlow false keyAllowed (':' :: rest) mark = (keyAllowed, ':' :: rest, mark) := by
  rw [skipGap]
  simp [isBreak]

theorem skipGap_spaces (count : Nat) (mark : Mark) :
    skipGap inFlow false keyAllowed (List.replicate count ' ' ++ rest) mark =
      skipGap inFlow false keyAllowed rest (mark.over (List.replicate count ' ')) := by
  induction count generalizing mark with
  | zero => rfl
  | succ count ih =>
    rw [List.replicate_succ, List.cons_append, skipGap]
    simp only [isBreak]
    exact ih (mark.after ' ')

/-- Outside of brackets a key may begin on a new line. -/
theorem skipGap_break :
    skipGap false false keyAllowed ('\n' :: rest) mark =
      skipGap false false true rest (mark.after '\n') := by
  rw [skipGap]
  simp [isBreak]

/-- What is left after a gap is not longer than before. -/
theorem length_skipGap_le (inFlow inComment keyAllowed : Bool) (text : List Char) (mark : Mark) :
    (skipGap inFlow inComment keyAllowed text mark).2.1.length ≤ text.length := by
  induction text generalizing inComment keyAllowed mark with
  | nil => exact Nat.le_refl _
  | cons c text ih =>
    rw [skipGap, List.length_cons]
    split_ifs
    case neg => exact Nat.le_refl _
    all_goals exact (ih _ _ _).trans (Nat.le_succ _)

end Gaps

theorem length_rest_toToken_le (s : Scanner) : s.toToken.rest.length ≤ s.rest.length :=
  length_skipGap_le ..

/-! ### The token that begins with a character -/

/-- A letter begins no marker of documents. -/
theorem atDocumentMarker_of_isLetter {c : Char} (hc : isLetter c) (mark : Mark)
    (rest : List Char) : atDocumentMarker mark (c :: rest) = false := by
  have hdash : c ≠ '-' := ne_of_isLetter hc rfl
  have hdot : c ≠ '.' := ne_of_isLetter hc rfl
  rcases rest with _ | ⟨b, _ | ⟨d, rest⟩⟩
  · rfl
  · rfl
  · simp [atDocumentMarker, hdash, hdot]

/-- A letter can begin a plain scalar. -/
theorem startsPlain_of_isLetter {c : Char} (hc : isLetter c) (rest : List Char) :
    startsPlain false (c :: rest) = true := by
  have hindicators : ∀ indicators : List Char, indicators.all (isLetter · = false) →
      indicators.contains c = false := by
    intro indicators h
    rw [List.contains_eq_mem, decide_eq_false]
    intro hmem
    exact ne_of_isLetter hc (of_decide_eq_true (List.all_eq_true.mp h c hmem)) rfl
  have hflow : isFlowIndicator c = false := by
    simpa [isFlowIndicator, and_assoc] using hindicators [',', '[', ']', '{', '}'] rfl
  rw [startsPlain, isBlank_of_isLetter hc, isBreak_of_isLetter hc, hflow, hindicators _ rfl]
  rfl

/-- **A letter begins a plain scalar** wherever it stands outside of brackets. -/
theorem fetch_of_isLetter {s : Scanner} {c : Char} (hc : isLetter c)
    {rest : List Char} (hrest : s.rest = c :: rest) (hflow : s.inFlow = false) :
    s.fetch c = s.fetchPlain := by
  have hne : ∀ d, isLetter d = false → (c = d) = False := fun d hd =>
    eq_false (ne_of_isLetter hc hd)
  rw [fetch, hrest, atDocumentMarker_of_isLetter hc, hflow, startsPlain_of_isLetter hc]
  simp (disch := decide) [hne]

/-- A colon that ends a word begins a value. -/
theorem fetch_colon {s : Scanner} {rest : List Char} (hrest : s.rest = ':' :: rest)
    (hends : wordEnds rest) : s.fetch ':' = s.fetchValue := by
  have hmarker : atDocumentMarker s.mark (':' :: rest) = false := by
    rcases rest with _ | ⟨b, _ | ⟨d, rest⟩⟩
    · rfl
    · rfl
    · simp [atDocumentMarker]
  rw [fetch, hrest, hmarker]
  simp [hends]

end Scanner

end DepGraph.Yaml
