import DepGraph.Json.Value
import DepGraph.Json.Numeral
import DepGraph.Proofs.Digits
import DepGraph.Proofs.Except
import DepGraph.Proofs.Json.Grammar

/-!
# Numerals are read up to where they end

A numeral has no closing mark. It ends where the text goes on with something that cannot be the
rest of it, and it is read the same whatever this is (`DepGraph.Json.Numeral.read_append`). So a
numeral that has been read from a text of its own is read inside of any other text as well.

Every text that is a numeral is read to its end (`DepGraph.Json.Numeral.IsNumeral.exists_read`).
The decimal text of a whole number without a sign is a numeral
(`DepGraph.Json.Numeral.read_integerText`), and the number is what it counts
(`DepGraph.Json.Numeral.count?_ofNat`).
-/

namespace DepGraph

namespace Json

namespace Numeral

/-! ### Digits -/

/-- **Splitting off digits** finds all that there are, and there has to be one. -/
theorem digits_eq_ok_iff {text found rest : List Char} :
    digits text = .ok (found, rest) ↔
      text = found ++ rest ∧ found ≠ [] ∧ (∀ c ∈ found, c.isDigit = true) ∧
        ∀ c ∈ rest.head?, c.isDigit = false := by
  rw [digits]
  constructor
  · intro h
    split at h
    · cases h
    · next hfound =>
      obtain ⟨rfl, rfl⟩ := Prod.mk.inj (Except.ok.inj h)
      refine ⟨List.takeWhile_append_dropWhile.symm, ?_, fun c => List.mem_takeWhile_imp,
        fun c => isDigit_of_mem_head?_dropWhile⟩
      rwa [List.isEmpty_iff] at hfound
  · rintro ⟨rfl, hne, hdigits, hrest⟩
    rw [takeWhile_isDigit_append hdigits hrest, dropWhile_isDigit_append hdigits hrest,
      if_neg (by rwa [List.isEmpty_iff])]

/-! ### What comes after -/

/-- **A text that cannot be the rest of a numeral.** -/
def Beyond (rest : List Char) : Prop :=
  ∀ c ∈ rest.head?, c.isDigit = false ∧ c ≠ '.' ∧ c ≠ 'e' ∧ c ≠ 'E'

variable {text rest left : List Char}

theorem head?_cons_ne {c c' : Char} (h : c ≠ c') (text : List Char) :
    (c :: text).head? ≠ some c' :=
  fun heq => h (Option.some.inj heq)

theorem digits_append {found : List Char} (h : digits text = .ok (found, left))
    (hrest : Beyond rest) : digits (text ++ rest) = .ok (found, left ++ rest) := by
  obtain ⟨rfl, hne, hdigits, hleft⟩ := digits_eq_ok_iff.mp h
  refine digits_eq_ok_iff.mpr ⟨List.append_assoc .., hne, hdigits, fun c hc => ?_⟩
  rcases left with _ | ⟨c', left⟩
  · exact (hrest c hc).1
  · exact hleft c hc

theorem readWhole_append {found : List Char} (h : readWhole text = .ok (found, left))
    (hrest : Beyond rest) : readWhole (text ++ rest) = .ok (found, left ++ rest) := by
  obtain ⟨⟨found', left'⟩, hdigits, h⟩ := bind_eq_ok.mp h
  dsimp only at h
  split at h
  · cases h
  · next hzero =>
    obtain ⟨rfl, rfl⟩ := Prod.mk.inj (Except.ok.inj h)
    exact bind_eq_ok.mpr ⟨_, digits_append hdigits hrest, if_neg hzero⟩

theorem readFraction_of_ne (h : text.head? ≠ some '.') : readFraction text = .ok ([], text) := by
  unfold readFraction
  split
  · exact absurd rfl h
  · rfl

theorem readFraction_append {found : List Char} (h : readFraction text = .ok (found, left))
    (hrest : Beyond rest) : readFraction (text ++ rest) = .ok (found, left ++ rest) := by
  rcases text with _ | ⟨c, text⟩
  · obtain ⟨rfl, rfl⟩ := Prod.mk.inj (Except.ok.inj h)
    exact readFraction_of_ne fun hpoint => (hrest '.' hpoint).2.1 rfl
  · by_cases hc : c = '.'
    · subst hc
      have hdigits : digits text = .ok (found, left) := h
      exact digits_append hdigits hrest
    · rw [readFraction_of_ne (head?_cons_ne hc text)] at h
      obtain ⟨rfl, rfl⟩ := Prod.mk.inj (Except.ok.inj h)
      exact readFraction_of_ne (head?_cons_ne hc _)

/-- The sign of an exponent is decided by one character, so that there has to be one. -/
theorem readSign_append (h : text ≠ []) (rest : List Char) :
    readSign (text ++ rest) = ((readSign text).1, (readSign text).2 ++ rest) := by
  rcases text with _ | ⟨c, text⟩
  · exact absurd rfl h
  · unfold readSign
    rw [List.cons_append]
    split
    · next heq =>
      obtain ⟨rfl, rfl⟩ := List.cons.inj heq
      rfl
    · next heq =>
      obtain ⟨rfl, rfl⟩ := List.cons.inj heq
      rfl
    · next hminus hplus =>
      split
      · next heq => exact absurd (congrArg (· ++ rest) heq) (hminus _)
      · next heq => exact absurd (congrArg (· ++ rest) heq) (hplus _)
      · rfl

theorem readExponent_of_mark {e : Char} (he : e = 'e' ∨ e = 'E') (text : List Char) :
    readExponent (e :: text) = do
      let (found, left) ← digits (readSign text).2
      return (some ((readSign text).1, found), left) := by
  rcases he with rfl | rfl <;> rfl

theorem readExponent_of_ne (h : ∀ c ∈ text.head?, c ≠ 'e' ∧ c ≠ 'E') :
    readExponent text = .ok (none, text) := by
  unfold readExponent
  split
  · exact absurd rfl (h 'e' rfl).1
  · exact absurd rfl (h 'E' rfl).2
  · rfl

theorem readExponent_append {found : Option (Bool × List Char)}
    (h : readExponent text = .ok (found, left)) (hrest : Beyond rest) :
    readExponent (text ++ rest) = .ok (found, left ++ rest) := by
  have hne : ∀ c ∈ rest.head?, c ≠ 'e' ∧ c ≠ 'E' := fun c hc => (hrest c hc).2.2
  rcases text with _ | ⟨e, text⟩
  · obtain ⟨rfl, rfl⟩ := Prod.mk.inj (Except.ok.inj h)
    exact readExponent_of_ne hne
  · by_cases he : e = 'e' ∨ e = 'E'
    · rw [readExponent_of_mark he] at h
      obtain ⟨⟨digits', left'⟩, hdigits, h⟩ := bind_eq_ok.mp h
      obtain ⟨rfl, rfl⟩ := Prod.mk.inj (Except.ok.inj h)
      have hsome : text ≠ [] := by
        rintro rfl
        cases hdigits
      rw [List.cons_append, readExponent_of_mark he, readSign_append hsome]
      exact bind_eq_ok.mpr ⟨_, digits_append hdigits hrest, rfl⟩
    · have hhead : ∀ more, ∀ c ∈ (e :: more).head?, c ≠ 'e' ∧ c ≠ 'E' := fun more c hc => by
        obtain rfl : e = c := Option.some.inj hc
        exact not_or.mp he
      rw [readExponent_of_ne (hhead text)] at h
      obtain ⟨rfl, rfl⟩ := Prod.mk.inj (Except.ok.inj h)
      exact readExponent_of_ne (hhead _)

theorem readUnsigned_append {negative : Bool} {n : Numeral}
    (h : readUnsigned negative text = .ok (n, left)) (hrest : Beyond rest) :
    readUnsigned negative (text ++ rest) = .ok (n, left ++ rest) := by
  obtain ⟨⟨whole, afterWhole⟩, hwhole, h⟩ := bind_eq_ok.mp h
  obtain ⟨⟨fraction, afterFraction⟩, hfraction, h⟩ := bind_eq_ok.mp h
  obtain ⟨⟨exponent, afterExponent⟩, hexponent, h⟩ := bind_eq_ok.mp h
  obtain ⟨rfl, rfl⟩ := Prod.mk.inj (Except.ok.inj h)
  exact bind_eq_ok.mpr ⟨_, readWhole_append hwhole hrest, bind_eq_ok.mpr
    ⟨_, readFraction_append hfraction hrest, bind_eq_ok.mpr
      ⟨_, readExponent_append hexponent hrest, rfl⟩⟩⟩

theorem read_of_ne (h : text.head? ≠ some '-') : read text = readUnsigned false text := by
  unfold read
  split
  · exact absurd rfl h
  · rfl

/-- **A numeral is read the same whatever comes after it.** -/
theorem read_append {n : Numeral} (h : read text = .ok (n, left)) (hrest : Beyond rest) :
    read (text ++ rest) = .ok (n, left ++ rest) := by
  rcases text with _ | ⟨c, text⟩
  · cases h
  · by_cases hc : c = '-'
    · subst hc
      have hunsigned : readUnsigned true text = .ok (n, left) := h
      exact readUnsigned_append hunsigned hrest
    · rw [read_of_ne (head?_cons_ne hc text)] at h
      rw [List.cons_append, read_of_ne (head?_cons_ne hc _)]
      exact readUnsigned_append h hrest

/-- A numeral begins with a digit or a minus sign. -/
theorem exists_cons_of_read {n : Numeral} (h : read text = .ok (n, left)) :
    ∃ c more, text = c :: more ∧ (c = '-' ∨ c.isDigit = true) := by
  rcases text with _ | ⟨c, text⟩
  · cases h
  · refine ⟨c, text, rfl, ?_⟩
    by_cases hc : c = '-'
    · exact Or.inl hc
    · rw [read_of_ne (head?_cons_ne hc text)] at h
      obtain ⟨_, hwhole, -⟩ := bind_eq_ok.mp h
      obtain ⟨⟨found, rest⟩, hdigits, -⟩ := bind_eq_ok.mp hwhole
      obtain ⟨htext, hne, hall, -⟩ := digits_eq_ok_iff.mp hdigits
      rcases found with _ | ⟨c', found⟩
      · exact absurd rfl hne
      · obtain ⟨rfl, -⟩ := List.cons.inj htext
        exact Or.inr (hall c List.mem_cons_self)

/-! ### Texts that are numerals -/

/-- Digits are split off where no further one comes after them. -/
theorem Digits.digits_append {found : List Char} (h : Digits found)
    (hrest : ∀ c ∈ rest.head?, c.isDigit = false) : digits (found ++ rest) = .ok (found, rest) :=
  digits_eq_ok_iff.mpr ⟨rfl, h.1, h.2, hrest⟩

theorem Digits.digits_eq {found : List Char} (h : Digits found) : digits found = .ok (found, []) :=
  digits_eq_ok_iff.mpr ⟨(List.append_nil found).symm, h.1, h.2, nofun⟩

/-- Digits begin with a digit. -/
theorem Digits.exists_cons {found : List Char} (h : Digits found) :
    ∃ c more, found = c :: more ∧ c.isDigit = true := by
  obtain ⟨c, more, rfl⟩ := List.exists_cons_of_ne_nil h.1
  exact ⟨c, more, rfl, h.2 c List.mem_cons_self⟩

/-- Digits have no sign. -/
theorem Digits.head?_ne {found : List Char} (h : Digits found) {c : Char} (hc : c.isDigit = false)
    (rest : List Char) : (found ++ rest).head? ≠ some c := by
  obtain ⟨c', more, rfl, hc'⟩ := h.exists_cons
  refine head?_cons_ne ?_ _
  rintro rfl
  rw [hc'] at hc
  cases hc

/-- A sign before digits is split off. -/
theorem Digits.snd_readSign {sign found : List Char} (h : Digits found)
    (hsign : sign = [] ∨ sign = ['+'] ∨ sign = ['-']) : (readSign (sign ++ found)).2 = found := by
  rcases hsign with rfl | rfl | rfl
  · obtain ⟨c, more, rfl, hc⟩ := h.exists_cons
    rw [List.nil_append]
    unfold readSign
    split
    · next heq =>
      obtain ⟨rfl, -⟩ := List.cons.inj heq
      cases hc
    · next heq =>
      obtain ⟨rfl, -⟩ := List.cons.inj heq
      cases hc
    · rfl
  · rfl
  · rfl

namespace Splits

variable {sign whole fraction exponent : List Char}

/-- What comes after the digits before the point. -/
theorem head?_tail (h : Splits sign whole fraction exponent) :
    ∀ c ∈ (fraction ++ exponent).head?, c ∈ ['.', 'e', 'E'] := by
  intro c hc
  rcases h.fraction with rfl | ⟨digits, -, rfl⟩
  · rcases h.exponent with rfl | ⟨mark, sign', digits, hmark, -, -, rfl⟩
    · cases hc
    · obtain rfl : mark = c := Option.some.inj hc
      exact List.mem_cons_of_mem _ hmark
  · obtain rfl : '.' = c := Option.some.inj hc
    exact List.mem_cons_self

theorem readWhole_eq (h : Splits sign whole fraction exponent) :
    readWhole (whole ++ (fraction ++ exponent)) = .ok (whole, fraction ++ exponent) := by
  have hdigits : digits (whole ++ (fraction ++ exponent)) = .ok (whole, fraction ++ exponent) := by
    refine h.whole.1.digits_append fun c hc => ?_
    have hc' := h.head?_tail c hc
    simp only [List.mem_cons, List.not_mem_nil, or_false] at hc'
    rcases hc' with rfl | rfl | rfl <;> rfl
  exact bind_eq_ok.mpr ⟨_, hdigits, if_neg fun hzero => hzero.2 (h.whole.2 hzero.1)⟩

theorem exists_readExponent (h : Splits sign whole fraction exponent) :
    ∃ found, readExponent exponent = .ok (found, []) := by
  rcases h.exponent with rfl | ⟨mark, sign', digits', hmark, hsign, hdigits, rfl⟩
  · exact ⟨none, rfl⟩
  · simp only [List.mem_cons, List.not_mem_nil, or_false] at hmark
    rw [readExponent_of_mark hmark, hdigits.snd_readSign hsign, hdigits.digits_eq]
    exact ⟨_, rfl⟩

theorem exists_readFraction (h : Splits sign whole fraction exponent) :
    ∃ found, readFraction (fraction ++ exponent) = .ok (found, exponent) := by
  have hexponent : ∀ c ∈ exponent.head?, c ≠ '.' ∧ c.isDigit = false := by
    intro c hc
    rcases h.exponent with rfl | ⟨mark, sign', digits, hmark, -, -, rfl⟩
    · cases hc
    · obtain rfl : mark = c := Option.some.inj hc
      simp only [List.mem_cons, List.not_mem_nil, or_false] at hmark
      rcases hmark with rfl | rfl <;> decide
  rcases h.fraction with rfl | ⟨digits', hdigits, rfl⟩
  · exact ⟨[], readFraction_of_ne fun hpoint => (hexponent '.' hpoint).1 rfl⟩
  · exact ⟨digits', hdigits.digits_append fun c hc => (hexponent c hc).2⟩

end Splits

/-- **Every numeral is read to its end.** -/
theorem IsNumeral.exists_read (h : IsNumeral text) : ∃ n, read text = .ok (n, []) := by
  obtain ⟨sign, whole, fraction, exponent, hsplits, rfl⟩ := h
  obtain ⟨found, hfraction⟩ := hsplits.exists_readFraction
  obtain ⟨found', hexponent⟩ := hsplits.exists_readExponent
  have hunsigned : ∀ negative,
      readUnsigned negative (whole ++ (fraction ++ exponent)) =
        .ok (⟨negative, whole, found, found'⟩, []) := fun negative =>
    bind_eq_ok.mpr ⟨_, hsplits.readWhole_eq, bind_eq_ok.mpr ⟨_, hfraction,
      bind_eq_ok.mpr ⟨_, hexponent, rfl⟩⟩⟩
  rcases hsplits.sign with rfl | rfl
  · exact ⟨_, (read_of_ne (hsplits.whole.1.head?_ne rfl _)).trans (hunsigned false)⟩
  · exact ⟨_, hunsigned true⟩

/-! ### Whole numbers -/

/-- The numeral that is a whole number without a sign. -/
def ofNat (n : Nat) : Numeral := ⟨false, Nat.toDigits 10 n, [], none⟩

/-- **The text of a count is a numeral.** -/
theorem read_integerText (n : Nat) : read (Value.integerText n) = .ok (ofNat n, []) := by
  have htext : Value.integerText n = Nat.toDigits 10 n := by
    rw [Value.integerText, if_neg (by omega), Int.natAbs_natCast]
  have hall : ∀ c ∈ Nat.toDigits 10 n, c.isDigit = true := fun _ hc =>
    Nat.isDigit_of_mem_toDigits (by decide) (by decide) hc
  have hsign : (Nat.toDigits 10 n).head? ≠ some '-' := fun h =>
    absurd (hall _ (List.mem_of_head? h)) (by decide)
  have hdigits : digits (Nat.toDigits 10 n) = .ok (Nat.toDigits 10 n, []) :=
    digits_eq_ok_iff.mpr ⟨(List.append_nil _).symm, Nat.toDigits_ne_nil, hall, nofun⟩
  rw [htext, read_of_ne hsign]
  refine bind_eq_ok.mpr ⟨(Nat.toDigits 10 n, []), bind_eq_ok.mpr ⟨_, hdigits, ?_⟩, rfl⟩
  exact if_neg fun h => h.2 (toDigits_eq_of_head? h.1)

/-- **The number is what the numeral counts.** -/
theorem count?_ofNat {n : Nat} (h : n < wordLimit) : (ofNat n).count? = some n := by
  have hvalue : ofDigits (Nat.toDigits 10 n) = n := by
    rw [ofDigits, ← Nat.ofDigitChars_eq_foldl, Nat.ofDigitChars_ten_toDigits]
  rw [count?, ofNat, hvalue]
  exact if_pos h

end Numeral

end Json

end DepGraph
