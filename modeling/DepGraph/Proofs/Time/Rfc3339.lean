import DepGraph.Proofs.Digits
import DepGraph.Proofs.Time.Calendar
import DepGraph.Time.Rfc3339
import Mathlib.Data.List.Basic

/-!
# Instants are read as they were written

The text of an instant is read part by part, and each part reads what was written for it and stops
where that ends: a number is written with as many digits as may be read, or something comes after
it that is not a digit. So a year of four digits, the months, days, hours, minutes and seconds with
their two, and the digits of the second that make the nanoseconds exact come back one after another
(`DepGraph.Instant.Reading.run_year`, `DepGraph.Instant.Reading.run_number`,
`DepGraph.Instant.Reading.run_fraction`), and the calendar puts the day together again
(`DepGraph.Date.toDays_ofDays`).
-/

namespace DepGraph

namespace Instant

/-- The civil year of an instant, in universal time. -/
def year (t : Instant) : Int := (Date.ofDays (t.seconds / 86400)).year

/-! ### Padded numbers -/

section Padded

variable {width n : Nat}

theorem toList_padded (width n : Nat) :
    (padded width n).toList =
      List.replicate (width - (Nat.toDigits 10 n).length) '0' ++ Nat.toDigits 10 n :=
  String.toList_ofList

theorem length_padded (hwidth : 0 < width) (h : n < 10 ^ width) :
    (padded width n).toList.length = width := by
  have hle : (Nat.toDigits 10 n).length ≤ width :=
    (Nat.length_toDigits_le_iff (by decide) hwidth).mpr h
  rw [toList_padded, List.length_append, List.length_replicate]
  omega

theorem isDigit_of_mem_padded {c : Char} (h : c ∈ (padded width n).toList) :
    c.isDigit = true := by
  rw [toList_padded, List.mem_append] at h
  rcases h with h | h
  · rw [List.eq_of_mem_replicate h]
    rfl
  · exact Nat.isDigit_of_mem_toDigits (by decide) (by decide) h

/-- **Padding does not change the number.** -/
theorem ofDigits_padded (width n : Nat) : Reading.ofDigits (padded width n).toList = n := by
  rw [Reading.ofDigits, ← Nat.ofDigitChars_eq_foldl, toList_padded, Nat.ofDigitChars_append,
    Nat.ofDigitChars_replicate_zero, Nat.mul_zero, Nat.ofDigitChars_ten_toDigits]

end Padded

namespace Reading

variable {α β : Type} {text rest : List Char}

/-! ### Steps -/

/-- Reading goes on where the step before has stopped. -/
theorem run_bind {p : Reading α} {f : α → Reading β} {a : α} (h : p.run text = some (a, rest)) :
    (p >>= f).run text = (f a).run rest := by
  rw [StateT.run_bind, h]
  rfl

theorem run_discard {p : Reading α} {a : α} (h : p.run text = some (a, rest)) :
    (discard p).run text = some ((), rest) := by
  have hmap : discard p = (fun _ => PUnit.unit) <$> p := rfl
  rw [hmap, StateT.run_map, h]
  rfl

/-- Where there is no blank, none is skipped. -/
theorem run_blanks (h : ∀ c ∈ text.head?, isWhite c = false) :
    blanks.run text = some ((), text) := by
  have hdrop : text.dropWhile isWhite = text := by
    rcases text with _ | ⟨c, text⟩
    · rfl
    · exact List.dropWhile_cons_of_neg (by simp [h c rfl])
  change some ((), text.dropWhile isWhite) = _
  rw [hdrop]

theorem run_blanks_nil : blanks.run [] = some ((), []) := rfl

theorem run_blanks_cons {c : Char} (h : isWhite c = false) :
    blanks.run (c :: rest) = some ((), c :: rest) := by
  refine run_blanks fun c' hc' => ?_
  obtain rfl : c = c' := Option.some.inj hc'
  exact h

/-- No digit is a blank. -/
theorem isWhite_of_isDigit {c : Char} (h : c.isDigit = true) : isWhite c = false := by
  rw [← Bool.not_eq_true, isWhite, List.contains_iff_mem]
  intro hmem
  have hnone : whiteSpace.all (!·.isDigit) = true := by decide
  have hc := List.all_eq_true.mp hnone c hmem
  rw [h] at hc
  cases hc

/-- **Digits are read up to where they end**, or as many as may be read. -/
theorem run_digits {found : List Char} {most : Nat} (hne : found ≠ [])
    (hdigits : ∀ c ∈ found, c.isDigit = true) (hle : found.length ≤ most)
    (hend : found.length = most ∨ ∀ c ∈ rest.head?, c.isDigit = false) :
    (digits most).run (found ++ rest) = some (found, rest) := by
  -- of what comes after, nothing may be read, or it does not begin with a digit
  have hrest : ∀ c ∈ (rest.take (most - found.length)).head?, c.isDigit = false := by
    intro c hc
    rw [List.head?_take] at hc
    split at hc
    · cases hc
    · next hmore => exact hend.elim (fun h => absurd (Nat.sub_eq_zero_of_le h.ge) hmore) (· c hc)
  have hfound : ((found ++ rest).take most).takeWhile Char.isDigit = found := by
    rw [List.take_append, List.take_of_length_le hle]
    exact takeWhile_isDigit_append hdigits hrest
  rw [digits, run_bind rfl]
  dsimp only
  rw [hfound, if_neg (by rwa [List.isEmpty_iff]), List.drop_left]
  rfl

section Padded

variable {width n : Nat}

/-- A padded number begins with a digit. -/
theorem isDigit_of_mem_head?_padded (hwidth : 0 < width) (h : n < 10 ^ width) {c : Char}
    (hc : c ∈ ((padded width n).toList ++ rest).head?) : c.isDigit = true := by
  have hne : (padded width n).toList ≠ [] := by
    rw [← List.length_pos_iff, length_padded hwidth h]
    exact hwidth
  rw [List.head?_append_of_ne_nil _ hne] at hc
  exact isDigit_of_mem_padded (List.mem_of_head? hc)

/-- **The digits of a padded number are read**, if no more may be read or none comes after
them. -/
theorem run_digits_padded {most : Nat} (hwidth : 0 < width) (h : n < 10 ^ width)
    (hle : width ≤ most) (hend : width = most ∨ ∀ c ∈ rest.head?, c.isDigit = false) :
    (digits most).run ((padded width n).toList ++ rest) = some ((padded width n).toList, rest) := by
  have hlength := length_padded hwidth h
  refine run_digits ?_ (fun _ => isDigit_of_mem_padded) (hlength.symm ▸ hle) (hlength.symm ▸ hend)
  rw [← List.length_pos_iff, hlength]
  exact hwidth

/-- **A number is read from its digits** if it is in its range. -/
theorem run_number {least greatest : Nat} (hwidth : 0 < width) (h : n < 10 ^ width)
    (hrange : least ≤ n ∧ n ≤ greatest) :
    (number width least greatest).run ((padded width n).toList ++ rest) = some (n, rest) := by
  have hblanks : ∀ c ∈ ((padded width n).toList ++ rest).head?, isWhite c = false := fun _ hc =>
    isWhite_of_isDigit (isDigit_of_mem_head?_padded hwidth h hc)
  rw [number, run_bind (run_blanks hblanks),
    run_bind (run_digits_padded hwidth h le_rfl (.inl rfl)), ofDigits_padded]
  dsimp only
  rw [if_pos hrange]
  rfl

/-- **A year of four digits is read.** -/
theorem run_year (h : n < 10 ^ 4) :
    year.run ((padded 4 n).toList ++ rest) = some ((n : Int), rest) := by
  have hdigit : ∀ c ∈ ((padded 4 n).toList ++ rest).head?, c.isDigit = true := fun _ =>
    isDigit_of_mem_head?_padded (by decide) h
  have hdigits : (digits 4).run ((padded 4 n).toList ++ rest) = some ((padded 4 n).toList, rest) :=
    run_digits_padded (by decide) h le_rfl (.inl rfl)
  rw [year, run_bind (run_blanks fun c hc => isWhite_of_isDigit (hdigit c hc)), run_bind rfl]
  split
  · next htext =>
    rw [htext] at hdigit
    exact absurd (hdigit '-' rfl) (by decide)
  · next htext =>
    rw [htext] at hdigit
    exact absurd (hdigit '+' rfl) (by decide)
  · rw [run_bind hdigits, ofDigits_padded]
    rfl

/-- The digits of a second are read after the point. -/
theorem run_fraction_point (hwidth : 0 < width) (hle : width ≤ 9) (h : n < 10 ^ width) :
    fraction.run ('.' :: ((padded width n).toList ++ ['Z'])) =
      some (n * 10 ^ (9 - width), ['Z']) := by
  have hdigits : (digits 9).run ((padded width n).toList ++ ['Z']) =
      some ((padded width n).toList, ['Z']) :=
    run_digits_padded hwidth h hle (.inr (by simp))
  rw [fraction, run_bind rfl]
  split
  · next htext =>
    obtain ⟨-, rfl⟩ := List.cons.inj htext
    rw [run_bind rfl, run_bind hdigits, run_bind rfl, ofDigits_padded, length_padded hwidth h]
    rfl
  · next hnone => exact absurd rfl (hnone _)

end Padded

/-- **The digits of a second are read as nanoseconds**, as many of them as are written. -/
theorem run_fraction {nanos : Nat} (h : nanos < nanosPerSecond) :
    fraction.run ((fractionText nanos).toList ++ ['Z']) = some (nanos, ['Z']) := by
  rw [nanosPerSecond] at h
  have hpoint : ∀ text : String, ("." ++ text).toList ++ ['Z'] = '.' :: (text.toList ++ ['Z']) :=
    fun text => by rw [String.toList_append]; rfl
  rw [fractionText]
  split
  · next hzero =>
    rw [hzero]
    rfl
  split
  · next hmilli =>
    have hvalue : nanos / 1000000 * 10 ^ (9 - 3) = nanos := by omega
    rw [hpoint, run_fraction_point (by decide) (by decide) (by omega), hvalue]
  split
  · next hmicro =>
    have hvalue : nanos / 1000 * 10 ^ (9 - 6) = nanos := by omega
    rw [hpoint, run_fraction_point (by decide) (by decide) (by omega), hvalue]
  · rw [hpoint, run_fraction_point (by decide) (by decide) (by omega), Nat.sub_self, pow_zero,
      mul_one]

theorem run_oneOf {allowed : List Char} {c : Char} (h : c ∈ allowed) :
    (oneOf allowed).run (c :: rest) = some (c, rest) := by
  rw [oneOf, run_bind rfl]
  dsimp only
  rw [if_pos (List.contains_iff_mem.mpr h)]
  rfl

/-- A separator is read. -/
theorem run_separator {c : Char} (h : isWhite c = false) :
    (separator c).run (c :: rest) = some ((), rest) := by
  rw [separator, run_bind (run_blanks_cons h)]
  exact run_discard (run_oneOf List.mem_cons_self)

theorem run_offset : offset.run ['Z'] = some (0, []) := rfl

/-! ### Whole instants -/

/-- The text of a day in a year of four digits and of a time on it. -/
def written (date : Date) (hour minute second nanos : Nat) : List Char :=
  (padded 4 date.year.toNat).toList ++ '-' :: ((padded 2 date.month).toList ++
    '-' :: ((padded 2 date.day).toList ++ 'T' :: ((padded 2 hour).toList ++
      ':' :: ((padded 2 minute).toList ++ ':' :: ((padded 2 second).toList ++
        ((fractionText nanos).toList ++ ['Z']))))))

/-- **A day and a time on it are read as an instant.** -/
theorem run_instant {days : Int} {hour minute second nanos : Nat}
    (hyear : 0 ≤ (Date.ofDays days).year ∧ (Date.ofDays days).year ≤ 9999) (hhour : hour ≤ 23)
    (hminute : minute ≤ 59) (hsecond : second ≤ 59) (hnanos : nanos < nanosPerSecond) :
    instant.run (written (Date.ofDays days) hour minute second nanos) =
      some (⟨days * 86400 + hour * 3600 + minute * 60 + second, nanos⟩, []) := by
  obtain ⟨date, hdate⟩ : ∃ d, d = Date.ofDays days := ⟨_, rfl⟩
  have hvalid : date.isValid = true := hdate ▸ Date.isValid_ofDays days
  obtain ⟨hmonth, hday⟩ := Date.bounds_of_isValid hvalid
  rw [← hdate] at hyear ⊢
  have hsame : (⟨(date.year.toNat : Int), date.month, date.day⟩ : Date) = date := by
    rw [Int.toNat_of_nonneg hyear.1]
  have hknown : knownYear date.year = true := by
    rw [knownYear, Bool.and_eq_true, decide_eq_true_eq, decide_eq_true_eq]
    omega
  have hlast : ¬second = 60 := by omega
  have hdays : (days * 86400 + hour * 3600 + minute * 60 + second - 0) / 86400 = days := by omega
  rw [instant, written, run_bind (run_year (by omega)), run_bind (run_separator rfl),
    run_bind (run_number (by decide) (by omega) hmonth), run_bind (run_separator rfl),
    run_bind (run_number (by decide) (by omega) hday)]
  dsimp only
  rw [hsame, Int.toNat_of_nonneg hyear.1, hvalid, hknown, if_neg (by decide),
    run_bind (run_discard (run_oneOf (by decide))),
    run_bind (run_number (by decide) (by omega) ⟨Nat.zero_le _, hhour⟩),
    run_bind (run_separator rfl),
    run_bind (run_number (by decide) (by omega) ⟨Nat.zero_le _, hminute⟩),
    run_bind (run_separator rfl),
    run_bind (run_number (by decide) (by omega) ⟨Nat.zero_le _, hsecond.trans (by decide)⟩),
    run_bind (run_fraction hnanos), run_bind (run_blanks_cons (by decide)), run_bind run_offset,
    run_bind run_blanks_nil, if_neg hlast, if_neg hlast]
  -- the day is in a known year, as it has been before
  have htoDays : date.toDays = days := hdate ▸ Date.toDays_ofDays days
  rw [htoDays, hdays, ← hdate, hknown, if_neg (by decide), Int.sub_zero]
  rfl

end Reading

/-- The text of an instant in a year of four digits, part by part. -/
theorem toList_toText {t : Instant} (hyear : 0 ≤ t.year ∧ t.year ≤ 9999)
    (hnanos : t.nanos < nanosPerSecond) :
    let time := (t.seconds % 86400).toNat
    t.toText.toList = Reading.written (Date.ofDays (t.seconds / 86400)) (time / 3600)
      (time / 60 % 60) (time % 60) t.nanos := by
  intro time
  have hleap : ¬nanosPerSecond ≤ t.nanos := not_le.mpr hnanos
  have hyearText : yearText (Date.ofDays (t.seconds / 86400)).year =
      padded 4 (Date.ofDays (t.seconds / 86400)).year.toNat := if_pos hyear
  have hmarks : "-".toList = ['-'] ∧ ":".toList = [':'] ∧ "T".toList = ['T'] ∧
      "Z".toList = ['Z'] := ⟨rfl, rfl, rfl, rfl⟩
  rw [toText, hyearText]
  simp only [if_neg hleap, String.toList_append, List.append_assoc, hmarks, List.singleton_append,
    Nat.add_zero]
  rfl

/-- **An instant is read as it was written**, in any year of four digits and to the nanosecond. -/
theorem ofText?_toText {t : Instant} (hyear : 0 ≤ t.year ∧ t.year ≤ 9999)
    (hnanos : t.nanos < nanosPerSecond) : ofText? t.toText = some t := by
  obtain ⟨time, htime⟩ : ∃ n, n = (t.seconds % 86400).toNat := ⟨_, rfl⟩
  have hseconds : t.seconds / 86400 * 86400 + (time / 3600 : Nat) * 3600 +
      (time / 60 % 60 : Nat) * 60 + (time % 60 : Nat) = t.seconds := by
    omega
  have hread : Reading.instant.run t.toText.toList = some (t, []) := by
    rw [toList_toText hyear hnanos, ← htime,
      Reading.run_instant hyear (by omega) (by omega) (by omega) hnanos, hseconds]
  rw [ofText?, hread]

end Instant

end DepGraph
