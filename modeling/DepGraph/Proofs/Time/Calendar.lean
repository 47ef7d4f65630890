import DepGraph.Time.Calendar
import Mathlib.Tactic.IntervalCases

/-!
# From numbers of days to the calendar and back

Every number of days is turned into a day that the calendar has (`DepGraph.Date.isValid_ofDays`),
and this day has the number that it was made from (`DepGraph.Date.toDays_ofDays`).

What has to be seen is that the one division that finds the year of a cycle is right on all of the
146097 days. A cycle consists of four centuries, a century of twenty-five times four years, and
each of them has its leap day, if it has one, at its very end. So a day of a cycle is counted by
four numbers, of which the last, the day of its year, goes one further only at such an end
(`DepGraph.Date.exists_dayOfCycle`). In terms of the four the division is right for reasons of
size.
-/

namespace DepGraph

namespace Date

/-! ### Days of a cycle -/

/-- **The day of a cycle** is counted by its century, the four years of the century, the year of
the four, and the day of the year. Only a leap year has the last of its days. -/
theorem exists_dayOfCycle {dayOfCycle : Int} (h : 0 ≤ dayOfCycle ∧ dayOfCycle < cycleDays) :
    ∃ century four year day : Int, (0 ≤ century ∧ century ≤ 3) ∧ (0 ≤ four ∧ four ≤ 24) ∧
      (0 ≤ year ∧ year ≤ 3) ∧ (0 ≤ day ∧ day ≤ 365) ∧
      (day = 365 → year = 3 ∧ (four = 24 → century = 3)) ∧
      dayOfCycle = 36524 * century + 1461 * four + 365 * year + day := by
  rw [cycleDays] at h
  obtain ⟨century, hcentury⟩ : ∃ c, c = min (dayOfCycle / 36524) 3 := ⟨_, rfl⟩
  obtain ⟨ofCentury, hofCentury⟩ : ∃ r, r = dayOfCycle - 36524 * century := ⟨_, rfl⟩
  obtain ⟨year, hyear⟩ : ∃ s, s = min (ofCentury % 1461 / 365) 3 := ⟨_, rfl⟩
  refine ⟨century, ofCentury / 1461, year, ofCentury % 1461 - 365 * year, ?_⟩
  omega

/-- **The year of a cycle** that a day is in. -/
theorem yearOfCycle_eq {century four year day : Int} (hcentury : 0 ≤ century ∧ century ≤ 3)
    (hfour : 0 ≤ four ∧ four ≤ 24) (hyear : 0 ≤ year ∧ year ≤ 3) (hday : 0 ≤ day ∧ day ≤ 365)
    (hleap : day = 365 → year = 3 ∧ (four = 24 → century = 3)) {dayOfCycle : Int}
    (h : dayOfCycle = 36524 * century + 1461 * four + 365 * year + day) :
    (dayOfCycle - dayOfCycle / 1460 + dayOfCycle / 36524 - dayOfCycle / 146096) / 365 =
      100 * century + 4 * four + year := by
  -- the last day of all would be the first of another century
  have hcenturies : dayOfCycle / 36524 - dayOfCycle / 146096 = century := by
    rcases eq_or_ne dayOfCycle 146096 with rfl | hne
    · omega
    · have hlast : dayOfCycle / 146096 = 0 := by omega
      omega
  -- four years have one day more than 1460, so that towards the end the count is one ahead
  have hfours : dayOfCycle / 1460 = 25 * century + four ∧ (year = 3 → day < 365) ∨
      dayOfCycle / 1460 = 25 * century + four + 1 ∧ year = 3 ∧ 0 < day := by
    omega
  omega

/-- The day of a cycle with which a year begins. -/
theorem startOfYear_eq (century : Int) {four year : Int} (hfour : 0 ≤ four ∧ four ≤ 24)
    (hyear : 0 ≤ year ∧ year ≤ 3) :
    365 * (100 * century + 4 * four + year) + (100 * century + 4 * four + year) / 4 -
      (100 * century + 4 * four + year) / 100 = 36524 * century + 1461 * four + 365 * year := by
  omega

/-- The years that end with a leap day. -/
theorem isLeap_of_ends {century four : Int} (hfour : 0 ≤ four ∧ four ≤ 24)
    (hleap : four = 24 → century = 3) (cycle : Int) :
    isLeap (100 * century + 4 * four + 3 + cycle * 400 + 1) = true := by
  have hquarter : (100 * century + 4 * four + 3 + cycle * 400 + 1) % 4 = 0 := by omega
  have hcentury : (100 * century + 4 * four + 3 + cycle * 400 + 1) % 100 ≠ 0 ∨
      (100 * century + 4 * four + 3 + cycle * 400 + 1) % 400 = 0 := by
    omega
  rw [isLeap, hquarter]
  simpa using hcentury

/-! ### Years that begin in March -/

/-- The day with a number in a year that begins in March. Its first ten months are those of the
civil year, and the other two are the next one's. -/
def ofMarch (year dayOfYear : Int) : Date :=
  let monthFromMarch := (5 * dayOfYear + 2) / 153
  let day := dayOfYear - (153 * monthFromMarch + 2) / 5 + 1
  let month := if monthFromMarch < 10 then monthFromMarch + 3 else monthFromMarch - 9
  ⟨if month ≤ 2 then year + 1 else year, month.toNat, day.toNat⟩

theorem toDays_ofMarch {year dayOfYear : Int} (h : 0 ≤ dayOfYear ∧ dayOfYear ≤ 365) :
    (ofMarch year dayOfYear).toDays = year / 400 * cycleDays +
      (365 * (year % 400) + year % 400 / 4 - year % 400 / 100 + dayOfYear) - cycleStart := by
  obtain ⟨month, hmonth⟩ : ∃ m, m = (5 * dayOfYear + 2) / 153 := ⟨_, rfl⟩
  obtain ⟨civil, hcivil⟩ : ∃ m, m = if month < 10 then month + 3 else month - 9 := ⟨_, rfl⟩
  have hbounds : 0 ≤ month ∧ month ≤ 11 := by omega
  have hyear : (if civil.toNat ≤ 2 then (if civil ≤ 2 then year + 1 else year) - 1
      else if civil ≤ 2 then year + 1 else year) = year := by
    split <;> split <;> omega
  have hfromMarch : ((civil.toNat : Int) + 9) % 12 = month := by
    split at hcivil <;> omega
  have hday : (153 * month + 2) / 5 + ((dayOfYear - (153 * month + 2) / 5 + 1).toNat : Int) - 1 =
      dayOfYear := by
    omega
  rw [toDays, ofMarch, ← hmonth, ← hcivil]
  dsimp only
  rw [hyear, hfromMarch, hday]

/-- **The calendar has the days of a year that begins in March**: of the last one it is the next
civil year that decides. -/
theorem isValid_ofMarch {year dayOfYear : Int} (h : 0 ≤ dayOfYear ∧ dayOfYear ≤ 365)
    (hleap : dayOfYear = 365 → isLeap (year + 1) = true) :
    (ofMarch year dayOfYear).isValid = true := by
  obtain ⟨month, hmonth⟩ : ∃ m, m = (5 * dayOfYear + 2) / 153 := ⟨_, rfl⟩
  obtain ⟨day, hday⟩ : ∃ d, d = dayOfYear - (153 * month + 2) / 5 + 1 := ⟨_, rfl⟩
  have hpos : 0 ≤ month := by omega
  have hcases : month = 11 ∨ month ≤ 10 := by omega
  rw [isValid, ofMarch, ← hmonth, ← hday]
  dsimp only
  rcases hcases with rfl | hle
  · -- February
    have hlength : day ≤ if isLeap (year + 1) = true then 29 else 28 := by
      split
      · omega
      · next hnot =>
        have hne : dayOfYear ≠ 365 := fun heq => hnot (hleap heq)
        omega
    simp [monthLength]
    omega
  · interval_cases month <;> simp [monthLength] <;> omega

/-- The months and the days of the calendar have two digits. -/
theorem bounds_of_isValid {date : Date} (h : date.isValid = true) :
    (1 ≤ date.month ∧ date.month ≤ 12) ∧ 1 ≤ date.day ∧ date.day ≤ 31 := by
  simp only [isValid, Bool.and_eq_true, decide_eq_true_eq] at h
  obtain ⟨⟨hmonth, hday⟩, hlength⟩ := h
  have hle : monthLength date.year date.month ≤ 31 := by
    rw [monthLength]
    split_ifs <;> decide
  exact ⟨hmonth, hday, hlength.trans hle⟩

/-! ### Numbers of days -/

/-- **The day with a number** is in the year of its cycle that it should be in. -/
theorem exists_ofDays (days : Int) :
    ∃ cycle yearOfCycle dayOfYear : Int, (0 ≤ yearOfCycle ∧ yearOfCycle < 400) ∧
      (0 ≤ dayOfYear ∧ dayOfYear ≤ 365) ∧
      (dayOfYear = 365 → isLeap (yearOfCycle + cycle * 400 + 1) = true) ∧
      days + cycleStart = cycle * cycleDays +
        (365 * yearOfCycle + yearOfCycle / 4 - yearOfCycle / 100 + dayOfYear) ∧
      ofDays days = ofMarch (yearOfCycle + cycle * 400) dayOfYear := by
  obtain ⟨cycle, hcycle⟩ : ∃ c, c = (days + cycleStart) / cycleDays := ⟨_, rfl⟩
  obtain ⟨dayOfCycle, hdayOfCycle⟩ : ∃ r, r = (days + cycleStart) % cycleDays := ⟨_, rfl⟩
  have hbounds : 0 ≤ dayOfCycle ∧ dayOfCycle < cycleDays := by
    rw [hdayOfCycle]
    exact ⟨Int.emod_nonneg _ (by decide), Int.emod_lt_of_pos _ (by decide)⟩
  obtain ⟨century, four, year, day, hcentury, hfour, hyear, hday, hleap, hsum⟩ :=
    exists_dayOfCycle hbounds
  have hyearOfCycle := yearOfCycle_eq hcentury hfour hyear hday hleap hsum
  have hstart := startOfYear_eq century hfour hyear
  refine ⟨cycle, 100 * century + 4 * four + year, day, ?_, hday, ?_, ?_, ?_⟩
  · clear hyearOfCycle hstart
    omega
  · intro hlast
    obtain ⟨rfl, hcenturies⟩ := hleap hlast
    exact isLeap_of_ends hfour hcenturies cycle
  · rw [hstart, ← hsum, hdayOfCycle, hcycle]
    exact (Int.ediv_mul_add_emod ..).symm
  · rw [ofDays, ← hcycle, ← hdayOfCycle, hyearOfCycle, hstart, hsum, add_sub_cancel_left]
    rfl

/-- **The day with a number has this number.** -/
theorem toDays_ofDays (days : Int) : (ofDays days).toDays = days := by
  obtain ⟨cycle, year, day, hyear, hday, -, hdays, hof⟩ := exists_ofDays days
  have hquotient : (year + cycle * 400) / 400 = cycle := by omega
  have hremainder : (year + cycle * 400) % 400 = year := by omega
  rw [hof, toDays_ofMarch hday, hquotient, hremainder, ← hdays]
  exact Int.add_sub_cancel ..

/-- **The day with a number is one that the calendar has.** -/
theorem isValid_ofDays (days : Int) : (ofDays days).isValid = true := by
  obtain ⟨cycle, year, day, -, hday, hleap, -, hof⟩ := exists_ofDays days
  rw [hof]
  exact isValid_ofMarch hday hleap

end Date

end DepGraph
