import DepGraph.Json.Quoted
import DepGraph.Proofs.Json.Grammar

/-!
# Quoted texts are read as what was quoted

However a character is spelled inside quotes – as itself, as an escape with a letter, as escapes
for its units – one step of reading takes the spelling back to the character, and takes nothing
else (`DepGraph.Json.Quoted.step_of_spells`). So scanning goes through a text that quotes another,
one character after another, and the first quote that it finds unescaped is the closing one
(`DepGraph.Json.Quoted.scan_of_spells`). What is written for a character is one of its spellings
(`DepGraph.Json.Quoted.spells_escape`).

A quoted text that stands for nothing, because of halves of pairs in it, can only be skipped.
Whether it can be decoded or not, scanning finds the same closing quote
(`DepGraph.Json.Quoted.exists_scan_pieces`).
-/

namespace DepGraph

namespace Json

namespace Quoted

/-! ### Digits and units -/

theorem hexValue?_of_isHexDigit {n : Nat} {digit : Char} (h : IsHexDigit n digit) :
    hexValue? digit = some n := by
  have hall : ∀ n < 16, hexValue? n.digitChar = some n ∧ hexValue? n.digitChar.toUpper = some n := by
    decide
  obtain ⟨hn, rfl | rfl⟩ := h
  · exact (hall n hn).1
  · exact (hall n hn).2

/-- **The digits of an escape are read as the unit.** -/
theorem EscapesUnit.exists_unit {n : Nat} {text : List Char} (h : EscapesUnit n text) :
    ∃ digits, text = '\\' :: 'u' :: digits ∧ ∀ rest, unit (digits ++ rest) = .ok (n, rest) := by
  obtain ⟨a, b, c, d, ha, hb, hc, hd, rfl⟩ := h
  refine ⟨[a, b, c, d], rfl, fun rest => ?_⟩
  have hn : n < 65536 := by
    have := ha.1
    omega
  have hunit : unit? a b c d = some n := by
    rw [unit?, hexValue?_of_isHexDigit ha, hexValue?_of_isHexDigit hb, hexValue?_of_isHexDigit hc,
      hexValue?_of_isHexDigit hd]
    refine congrArg some ?_
    omega
  rw [List.cons_append, List.cons_append, List.cons_append, List.cons_append, List.nil_append, unit,
    hunit]

/-! ### One character -/

section Step

variable {c : Char} {text : List Char}

/-- A character that needs no escape is read as itself. -/
theorem step_plain (checked : Bool) (hquote : c ≠ '"') (hslash : c ≠ '\\') (hcontrol : ¬c < ' ')
    (rest : List Char) : step checked (c :: rest) = .char c rest := by
  rw [step]
  · exact if_neg hcontrol
  -- none of the other ways to go on begins with this character
  · exact hquote
  · exact fun h _ => hslash h
  · exact fun _ h _ => hslash h
  · exact fun _ _ h _ => hslash h

/-- An escape with a letter is read as the character of the letter. -/
theorem step_letter (checked : Bool) {letter : Char} (h : (c, letter) ∈ letters)
    (rest : List Char) : step checked ('\\' :: letter :: rest) = .char c rest := by
  simp only [letters, List.mem_cons, Prod.mk.injEq, List.not_mem_nil, or_false] at h
  rcases h with ⟨rfl, rfl⟩ | ⟨rfl, rfl⟩ | ⟨rfl, rfl⟩ | ⟨rfl, rfl⟩ | ⟨rfl, rfl⟩ | ⟨rfl, rfl⟩ |
    ⟨rfl, rfl⟩ | ⟨rfl, rfl⟩ <;> rfl

/-- No character is a surrogate. -/
theorem toNat_valid (c : Char) :
    c.toNat < 0xD800 ∨ 0xDFFF < c.toNat ∧ c.toNat < 0x110000 :=
  c.valid

theorem isHigh_iff {n : Nat} : isHigh n = true ↔ 0xD800 ≤ n ∧ n < 0xDC00 := by
  rw [isHigh, Bool.and_eq_true, decide_eq_true_eq, decide_eq_true_eq]

theorem isLow_iff {n : Nat} : isLow n = true ↔ 0xDC00 ≤ n ∧ n < 0xE000 := by
  rw [isLow, Bool.and_eq_true, decide_eq_true_eq, decide_eq_true_eq]

/-- **An escape for a unit that is no surrogate** is read as the character of the unit. -/
theorem step_unit {digits rest : List Char} (h : unit digits = .ok (c.toNat, rest)) :
    step true ('\\' :: 'u' :: digits) = .char c rest := by
  have hvalid := toNat_valid c
  have hlow : ¬isLow c.toNat = true := by
    rw [isLow_iff]
    omega
  have hhigh : ¬isHigh c.toNat = true := by
    rw [isHigh_iff]
    omega
  change unicode true digits = _
  rw [unicode, h]
  dsimp only
  rw [if_neg (by decide), if_neg hlow, if_neg hhigh, Char.ofNat_toNat]

/-- **Escapes for two surrogates** are read as the character that they make. -/
theorem step_pair {digits digits' rest : List Char} {high low : Nat} (hhigh : isHigh high = true)
    (hlow : isLow low = true) (h : unit digits = .ok (high, '\\' :: 'u' :: digits'))
    (h' : unit digits' = .ok (low, rest)) :
    step true ('\\' :: 'u' :: digits) = .char (ofPair high low) rest := by
  have hnot : ¬isLow high = true := by
    rw [isHigh_iff] at hhigh
    rw [isLow_iff]
    omega
  change unicode true digits = _
  rw [unicode, h]
  dsimp only
  rw [if_neg (by decide), if_neg hnot, if_pos hhigh, lowHalf, h']
  exact if_pos hlow

/-- The two units of a character are surrogates, and they make the character. -/
theorem exists_units_eq (h : ¬c.toNat < 0x10000) :
    ∃ high low, units c = [high, low] ∧ isHigh high = true ∧ isLow low = true ∧
      ofPair high low = c := by
  have hvalid := toNat_valid c
  refine ⟨_, _, if_neg h, ?_, ?_, ?_⟩
  · rw [isHigh_iff]
    omega
  · rw [isLow_iff]
    omega
  · have hcode : 0x10000 + (0xD800 + (c.toNat - 0x10000) / 0x400 - 0xD800) * 0x400 +
        (0xDC00 + (c.toNat - 0x10000) % 0x400 - 0xDC00) = c.toNat := by
      omega
    rw [ofPair, hcode, Char.ofNat_toNat]

/-- **One step of reading takes any spelling back to the character.** -/
theorem step_of_spells (h : Spells c text) (rest : List Char) :
    step true (text ++ rest) = .char c rest := by
  cases h with
  | plain hquote hslash hcontrol => exact step_plain true hquote hslash hcontrol rest
  | letter hletter => exact step_letter true hletter rest
  | units hunits =>
    by_cases hsmall : c.toNat < 0x10000
    · rw [units, if_pos hsmall] at hunits
      obtain ⟨escape, _, hescape, hnil, rfl⟩ := List.forall₂_cons_left_iff.mp hunits
      obtain rfl := List.forall₂_nil_left_iff.mp hnil
      obtain ⟨digits, rfl, hdigits⟩ := hescape.exists_unit
      rw [List.flatten_singleton]
      exact step_unit (hdigits rest)
    · obtain ⟨high, low, hpair, hhigh, hlow, rfl⟩ := exists_units_eq hsmall
      rw [hpair] at hunits
      obtain ⟨escape, _, hescape, hrest, rfl⟩ := List.forall₂_cons_left_iff.mp hunits
      obtain ⟨escape', _, hescape', hnil, rfl⟩ := List.forall₂_cons_left_iff.mp hrest
      obtain rfl := List.forall₂_nil_left_iff.mp hnil
      obtain ⟨digits, rfl, hdigits⟩ := hescape.exists_unit
      obtain ⟨digits', rfl, hdigits'⟩ := hescape'.exists_unit
      rw [List.flatten_cons, List.flatten_singleton, List.append_assoc]
      exact step_pair hhigh hlow (hdigits _) (hdigits' rest)

/-- What is written for a character is one of its spellings. -/
theorem spells_escape (c : Char) : Spells c (escape c) := by
  by_cases hletter : c ∈ ['"', '\\', '\u0008', '\u000c', '\n', '\r', '\t']
  · simp only [List.mem_cons, List.not_mem_nil, or_false] at hletter
    rcases hletter with rfl | rfl | rfl | rfl | rfl | rfl | rfl <;>
      exact Spells.letter (by decide)
  · simp only [List.mem_cons, List.not_mem_nil, or_false, not_or] at hletter
    obtain ⟨hquote, hslash, hb, hf, hn, hr, ht⟩ := hletter
    rw [escape, if_neg hquote, if_neg hslash, if_neg hb, if_neg hf, if_neg hn, if_neg hr,
      if_neg ht]
    split
    · next hcontrol =>
      have hlt : c.toNat < 0x20 := hcontrol
      have hescapes : List.Forall₂ EscapesUnit (units c)
          [['\\', 'u', '0', '0', hexDigit (c.toNat / 16), hexDigit (c.toNat % 16)]] := by
        rw [units, if_pos (by omega)]
        refine .cons ⟨_, _, _, _, ?_, ?_, ?_, ?_, rfl⟩ .nil
        · rw [Nat.div_eq_of_lt (by omega)]
          exact ⟨by decide, Or.inl rfl⟩
        · rw [Nat.div_eq_of_lt (by omega)]
          exact ⟨by decide, Or.inl rfl⟩
        · rw [Nat.mod_eq_of_lt (by omega)]
          exact ⟨by omega, Or.inl rfl⟩
        · exact ⟨by omega, Or.inl rfl⟩
      exact Spells.units hescapes
    · next hcontrol => exact .plain hquote hslash hcontrol

end Step

/-! ### Whole texts -/

section Scan

variable {checked : Bool} {before text rest : List Char} {c : Char}

theorem scan_of_char (h : step checked text = .char c rest) :
    scan checked before text = scan checked (c :: before) rest := by
  rw [scan]
  split
  · next h' =>
    rw [h] at h'
    cases h'
  · next h' =>
    rw [h] at h'
    cases h'
    rfl
  · next h' =>
    rw [h] at h'
    cases h'

theorem scan_of_failed {failure : Category} (h : step checked text = .failed failure) :
    scan checked before text = .error failure := by
  rw [scan]
  split
  · next h' =>
    rw [h] at h'
    cases h'
  · next h' =>
    rw [h] at h'
    cases h'
  · next h' =>
    rw [h] at h'
    cases h'
    rfl

theorem scan_quote (checked : Bool) (before rest : List Char) :
    scan checked before ('"' :: rest) = .ok (String.ofList before.reverse, rest) := by
  rw [scan]
  rfl

/-- **Scanning goes through what was spelled**, up to the closing quote. -/
theorem scan_of_spells {content : List Char} {spellings : List (List Char)}
    (h : List.Forall₂ Spells content spellings) (before rest : List Char) :
    scan true before (spellings.flatten ++ '"' :: rest) =
      .ok (String.ofList (before.reverse ++ content), rest) := by
  induction h generalizing before with
  | nil => rw [List.flatten_nil, List.nil_append, List.append_nil, scan_quote]
  | @cons c spelling content spellings hspells _ ih =>
    rw [List.flatten_cons, List.append_assoc, scan_of_char (step_of_spells hspells _), ih,
      List.reverse_cons, List.append_assoc]
    rfl

/-- **A text that quotes another** is read as the other. -/
theorem Quotes.exists_scan {content : String} (h : Quotes content text) :
    ∃ inner, text = '"' :: inner ∧
      ∀ rest, scan true [] (inner ++ rest) = .ok (content, rest) := by
  obtain ⟨spellings, hspells, rfl⟩ := h
  refine ⟨_, rfl, fun rest => ?_⟩
  rw [List.append_assoc]
  refine (scan_of_spells hspells [] rest).trans ?_
  rw [List.reverse_nil, List.nil_append, String.ofList_toList]

/-- What is written for a text quotes it. -/
theorem quotes_write (content : String) : Quotes content (write content) := by
  refine ⟨content.toList.map escape, ?_, ?_⟩
  · rw [List.forall₂_map_right_iff, List.forall₂_same]
    exact fun c _ => spells_escape c
  · rw [write, List.flatMap_def]

end Scan

/-! ### Texts that need not stand for anything -/

section Pieces

variable {pieces : List (List Char)} {rest : List Char}

/-- Without surrogates being looked at, every piece is read as some character. -/
theorem Piece.exists_step {piece : List Char} (h : Piece piece) (rest : List Char) :
    ∃ c, step false (piece ++ rest) = .char c rest := by
  cases h with
  | plain hquote hslash hcontrol => exact ⟨_, step_plain false hquote hslash hcontrol rest⟩
  | letter hletter => exact ⟨_, step_letter false hletter rest⟩
  | @unit n _ hunit =>
    obtain ⟨digits, rfl, hdigits⟩ := hunit.exists_unit
    refine ⟨Char.ofNat n, ?_⟩
    change unicode false (digits ++ rest) = _
    rw [unicode, hdigits]
    rfl

theorem exists_scan_skipped (h : ∀ piece ∈ pieces, Piece piece) (before rest : List Char) :
    ∃ content, scan false before (pieces.flatten ++ '"' :: rest) = .ok (content, rest) := by
  induction pieces generalizing before with
  | nil => exact ⟨_, scan_quote false before rest⟩
  | cons piece pieces ih =>
    rw [List.forall_mem_cons] at h
    obtain ⟨c, hstep⟩ := h.1.exists_step (pieces.flatten ++ '"' :: rest)
    rw [List.flatten_cons, List.append_assoc, scan_of_char hstep]
    exact ih h.2 _

/-- **A step of reading** fails on a text of pieces, or it takes one or two of them and leaves the
others. Which it is does not depend on what comes after the closing quote. -/
def Advances (pieces : List (List Char)) (read : List Char → Step) : Prop :=
  (∃ failure, ∀ rest, read rest = .failed failure) ∨
    ∃ left c, left <:+ pieces ∧ ∀ rest, read rest = .char c (left.flatten ++ '"' :: rest)

theorem lowHalf_eq_failed {text : List Char} (hescape : ∀ digits, text ≠ '\\' :: 'u' :: digits)
    (hslash : text ≠ ['\\']) (hne : text ≠ []) (high : Nat) :
    lowHalf high text = .failed .malformed := by
  unfold lowHalf
  split
  · exact absurd rfl hne
  · exact absurd rfl hslash
  · exact absurd rfl (hescape _)
  · rfl

theorem advances_lowHalf (h : ∀ piece ∈ pieces, Piece piece) (high : Nat) :
    Advances pieces fun rest => lowHalf high (pieces.flatten ++ '"' :: rest) := by
  have hplain : ∀ c text, c ≠ '\\' → lowHalf high (c :: text) = .failed .malformed := by
    intro c text hslash
    exact lowHalf_eq_failed (fun _ heq => hslash (List.cons.inj heq).1)
      (fun heq => hslash (List.cons.inj heq).1) (List.cons_ne_nil c text) high
  rcases pieces with _ | ⟨piece, pieces⟩
  · exact Or.inl ⟨_, fun rest => hplain '"' rest (by decide)⟩
  rw [List.forall_mem_cons] at h
  simp only [List.flatten_cons, List.append_assoc]
  cases h.1 with
  | plain _ hslash _ => exact Or.inl ⟨_, fun rest => hplain _ _ hslash⟩
  | @letter c letter hletter =>
    have hu : letter ≠ 'u' := fun heq => by
      rw [heq] at hletter
      simp [letters] at hletter
    have hfailed : ∀ more, lowHalf high ('\\' :: letter :: more) = .failed .malformed := by
      intro more
      refine lowHalf_eq_failed (fun _ heq => hu ?_) (by simp) (by simp) high
      exact (List.cons.inj (List.cons.inj heq).2).1
    exact Or.inl ⟨_, fun rest => hfailed _⟩
  | @unit low _ hunit =>
    obtain ⟨digits, rfl, hdigits⟩ := hunit.exists_unit
    have hread : ∀ rest, lowHalf high ('\\' :: 'u' :: digits ++ (pieces.flatten ++ '"' :: rest)) =
        if isLow low then .char (ofPair high low) (pieces.flatten ++ '"' :: rest)
        else .failed .malformed := fun rest => by
      rw [List.cons_append, List.cons_append, lowHalf, hdigits]
    by_cases hlow : isLow low = true
    · exact Or.inr ⟨pieces, _, List.suffix_cons .., fun rest => (hread rest).trans (if_pos hlow)⟩
    · exact Or.inl ⟨_, fun rest => (hread rest).trans (if_neg hlow)⟩

theorem advances_step {piece : List Char} (h : ∀ p ∈ piece :: pieces, Piece p) :
    Advances pieces fun rest => step true (piece ++ (pieces.flatten ++ '"' :: rest)) := by
  rw [List.forall_mem_cons] at h
  cases h.1 with
  | plain hquote hslash hcontrol =>
    exact Or.inr ⟨pieces, _, List.suffix_rfl, fun _ => step_plain true hquote hslash hcontrol _⟩
  | letter hletter =>
    exact Or.inr ⟨pieces, _, List.suffix_rfl, fun _ => step_letter true hletter _⟩
  | @unit n _ hunit =>
    obtain ⟨digits, rfl, hdigits⟩ := hunit.exists_unit
    have hread : ∀ rest, step true ('\\' :: 'u' :: digits ++ (pieces.flatten ++ '"' :: rest)) =
        if isLow n then .failed .malformed
        else if isHigh n then lowHalf n (pieces.flatten ++ '"' :: rest)
        else .char (Char.ofNat n) (pieces.flatten ++ '"' :: rest) := fun rest => by
      change unicode true (digits ++ (pieces.flatten ++ '"' :: rest)) = _
      rw [unicode, hdigits]
      exact if_neg (by decide)
    by_cases hlow : isLow n = true
    · exact Or.inl ⟨_, fun rest => (hread rest).trans (if_pos hlow)⟩
    simp only [hread, if_neg hlow]
    by_cases hhigh : isHigh n = true
    · simp only [if_pos hhigh]
      exact advances_lowHalf h.2 n
    · exact Or.inr ⟨pieces, _, List.suffix_rfl, fun _ => if_neg hhigh⟩

/-- **Scanning** fails on a text of pieces, or it ends at the closing quote. -/
theorem exists_scan_pieces (h : ∀ piece ∈ pieces, Piece piece) (before : List Char) :
    ∃ content : Except Category String, ∀ rest,
      scan true before (pieces.flatten ++ '"' :: rest) = content.map (·, rest) := by
  -- a step may take two pieces, so that the induction is on how many are left
  induction hlength : pieces.length using Nat.strongRecOn generalizing pieces before with
  | ind length ih =>
    rcases pieces with _ | ⟨piece, pieces⟩
    · exact ⟨.ok _, fun rest => scan_quote true before rest⟩
    simp only [List.flatten_cons, List.append_assoc]
    rcases advances_step h with ⟨failure, hstep⟩ | ⟨left, c, hleft, hstep⟩
    · exact ⟨.error failure, fun rest => scan_of_failed (hstep rest)⟩
    · have hlt : left.length < length := by
        have := hleft.length_le
        rw [← hlength, List.length_cons]
        omega
      have hpieces : ∀ p ∈ left, Piece p := fun p hp =>
        h p (List.mem_cons_of_mem _ (hleft.subset hp))
      obtain ⟨content, hcontent⟩ := ih _ hlt hpieces (c :: before) rfl
      exact ⟨content, fun rest => (scan_of_char (hstep rest)).trans (hcontent rest)⟩

end Pieces


end Quoted
end Json
end DepGraph
