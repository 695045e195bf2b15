/-
TokenSheets/Proofs/Time/Calendar.lean

Days and dates.

A day within an era of four hundred years falls into centuries, cycles of four
years, years and days (`exists_cycles`), and only the last day of a cycle, or of
the era, is a leap day.  From there the way back is linear: a day gives a date
of the calendar (`isDate_ofDays`), and the date gives the day again
(`toDays_ofDays`).
-/
import TokenSheets.Time.Calendar

namespace TokenSheets.Date

theorem isLeapYear_iff {y : Int} :
    isLeapYear y = true ↔ y % 4 = 0 ∧ (y % 100 ≠ 0 ∨ y % 400 = 0) := by
  simp [isLeapYear]

/-! ### Days of an era -/

/-- The year of an era that a day of the era lies in, years beginning in March. -/
def yearOfEra (d : Int) : Int := (d - d / 1460 + d / 36524 - d / 146096) / 365

/-- The day of that year. -/
def dayOfYear (d : Int) : Int :=
  d - (365 * yearOfEra d + yearOfEra d / 4 - yearOfEra d / 100)

/-- The centuries, the cycles of four years, the years and the days that a day of an era falls
into.  A year has a day more only at the end of a cycle, and a century has such a cycle at its end
only if the era ends with it. -/
theorem exists_cycles {d : Int} (hlow : 0 ≤ d) (hhigh : d < 146097) :
    ∃ e q m r : Int, d = 36524 * e + 1461 * q + 365 * m + r ∧
      (0 ≤ e ∧ e ≤ 3) ∧ (0 ≤ q ∧ q ≤ 24) ∧ (0 ≤ m ∧ m ≤ 3) ∧ (0 ≤ r ∧ r ≤ 365) ∧
      (r = 365 → m = 3 ∧ (q = 24 → e = 3)) := by
  obtain ⟨e, he, helow, hehigh, hc⟩ : ∃ e : Int, 36524 * e ≤ d ∧ 0 ≤ e ∧ e ≤ 3 ∧
      (d < 36524 * e + 36524 ∨ e = 3) := by
    refine ⟨min (d / 36524) 3, ?_⟩
    omega
  obtain ⟨q, s, hqs, hq, hs⟩ : ∃ q s : Int, d - 36524 * e = 1461 * q + s ∧ (0 ≤ q ∧ q ≤ 24) ∧
      0 ≤ s ∧ s < 1461 := by
    refine ⟨(d - 36524 * e) / 1461, (d - 36524 * e) % 1461, ?_⟩
    omega
  refine ⟨e, q, min (s / 365) 3, s - 365 * min (s / 365) 3, ?_⟩
  omega

section
variable {d e q m r : Int} (hd : d = 36524 * e + 1461 * q + 365 * m + r)
  (he : 0 ≤ e ∧ e ≤ 3) (hq : 0 ≤ q ∧ q ≤ 24) (hm : 0 ≤ m ∧ m ≤ 3) (hr : 0 ≤ r ∧ r ≤ 365)
  (hleap : r = 365 → m = 3 ∧ (q = 24 → e = 3))
include hd he hq hm hr hleap

theorem yearOfEra_eq : yearOfEra d = 100 * e + 4 * q + m := by
  -- the three quotients count the leap days before the day, up to one near the end of a cycle
  have hlast : d < 36524 * e + 36524 ∨ d = 146096 := by omega
  have hcenturies : d / 36524 - d / 146096 = e := by
    rcases hlast with hlast | rfl
    · have hcentury : d / 36524 = e := by omega
      have hera : d / 146096 = 0 := by omega
      omega
    · omega
  have hcycles : d / 1460 = 25 * e + q + (24 * e + q + 365 * m + r) / 1460 := by omega
  rw [yearOfEra]
  omega

theorem dayOfYear_eq : dayOfYear d = r := by
  rw [dayOfYear, yearOfEra_eq hd he hq hm hr hleap]
  omega

end

/-- The year has four hundred values, and its days are counted from zero; only a leap year has the
last one. -/
theorem yearOfEra_bounds {d : Int} (hlow : 0 ≤ d) (hhigh : d < 146097) :
    (0 ≤ yearOfEra d ∧ yearOfEra d ≤ 399) ∧ (0 ≤ dayOfYear d ∧ dayOfYear d ≤ 365) ∧
      (dayOfYear d = 365 → isLeapYear (yearOfEra d + 1) = true) := by
  obtain ⟨e, q, m, r, hd, he, hq, hm, hr, hleap⟩ := exists_cycles hlow hhigh
  rw [yearOfEra_eq hd he hq hm hr hleap, dayOfYear_eq hd he hq hm hr hleap, isLeapYear_iff]
  omega

/-! ### Months -/

/-- The month of a day of a year, both counted from March and zero. -/
def monthFromMarch (r : Int) : Int := (5 * r + 2) / 153

/-- The day of a month, counted from one. -/
def dayOfMonth (r : Int) : Int := r - (153 * monthFromMarch r + 2) / 5 + 1

theorem monthFromMarch_bounds {r : Int} (hr : 0 ≤ r ∧ r ≤ 365) :
    (0 ≤ monthFromMarch r ∧ monthFromMarch r ≤ 11) ∧ 1 ≤ dayOfMonth r := by
  rw [dayOfMonth, monthFromMarch]
  omega

/-- The month of the calendar. -/
def calendarMonth (m : Int) : Int := if m < 10 then m + 3 else m - 9

theorem calendarMonth_bounds {m : Int} (hm : 0 ≤ m ∧ m ≤ 11) :
    (1 ≤ calendarMonth m ∧ calendarMonth m ≤ 12) ∧ (calendarMonth m + 9) % 12 = m := by
  rw [calendarMonth]
  split <;> omega

/-- The date of a day, by the era and the day of the era. -/
theorem exists_ofDays (n : Int) :
    ∃ era d : Int, n + 719468 = era * 146097 + d ∧ 0 ≤ d ∧ d < 146097 ∧
      (ofDays n).year = yearOfEra d + era * 400 + (if (ofDays n).month ≤ 2 then 1 else 0) ∧
      ((ofDays n).month : Int) = calendarMonth (monthFromMarch (dayOfYear d)) ∧
      ((ofDays n).day : Int) = dayOfMonth (dayOfYear d) := by
  generalize hera : (n + 719468) / 146097 = era
  generalize hd : n + 719468 - era * 146097 = d
  have hbounds : 0 ≤ d ∧ d < 146097 := by omega
  obtain ⟨-, hr, -⟩ := yearOfEra_bounds hbounds.1 hbounds.2
  obtain ⟨hm, hday⟩ := monthFromMarch_bounds hr
  have hmonth := (calendarMonth_bounds hm).1
  have hdate : ofDays n =
      ⟨yearOfEra d + era * 400 +
          (if calendarMonth (monthFromMarch (dayOfYear d)) ≤ 2 then 1 else 0),
        (calendarMonth (monthFromMarch (dayOfYear d))).toNat,
        (dayOfMonth (dayOfYear d)).toNat⟩ := by
    rw [← hd, ← hera]
    rfl
  refine ⟨era, d, by omega, hbounds.1, hbounds.2, ?_, ?_, ?_⟩
  · rw [hdate]
    by_cases hspring : calendarMonth (monthFromMarch (dayOfYear d)) ≤ 2
    · rw [if_pos hspring, if_pos (by simp only; omega)]
    · rw [if_neg hspring, if_neg (by simp only; omega)]
  · rw [hdate]
    exact Int.toNat_of_nonneg (by omega)
  · rw [hdate]
    exact Int.toNat_of_nonneg (by omega)

/-! ### Dates -/

/-- The days up to a date, by its era, its year in the era and its month from March. -/
theorem toDays_eq {d : Date} {era y m : Int} (hy : 0 ≤ y ∧ y ≤ 399)
    (hyear : d.year = y + era * 400 + (if d.month ≤ 2 then 1 else 0))
    (hmonth : ((d.month : Int) + 9) % 12 = m) :
    d.toDays = era * 146097 +
      (365 * y + y / 4 - y / 100 + ((153 * m + 2) / 5 + d.day - 1)) - 719468 := by
  have hmarch : (if d.month ≤ 2 then d.year - 1 else d.year) = y + era * 400 := by
    split at hyear <;> omega
  have hera : (y + era * 400) / 400 = era := by omega
  have hrest : y + era * 400 - era * 400 = y := by omega
  rw [toDays]
  simp only [hmarch, hmonth, hera, hrest]
  omega

/-- **The way back.**  The date of a day is the date of that day only. -/
theorem toDays_ofDays (n : Int) : (ofDays n).toDays = n := by
  obtain ⟨era, d, hn, hlow, hhigh, hyear, hmonth, hday⟩ := exists_ofDays n
  obtain ⟨hy, hr, -⟩ := yearOfEra_bounds hlow hhigh
  have hmarch := (calendarMonth_bounds (monthFromMarch_bounds hr).1).2
  have hsplit : d = 365 * yearOfEra d + yearOfEra d / 4 - yearOfEra d / 100 + dayOfYear d := by
    rw [dayOfYear]
    omega
  rw [toDays_eq hy hyear (hmonth ▸ hmarch), hday, dayOfMonth]
  omega

theorem daysInMonth_le (y : Int) (m : Nat) : daysInMonth y m ≤ 31 := by
  unfold daysInMonth
  split <;> split <;> omega

/-- A month and a day that the calendar has. -/
structure IsDate (d : Date) : Prop where
  month : 1 ≤ d.month ∧ d.month ≤ 12
  day : 1 ≤ d.day ∧ d.day ≤ daysInMonth d.year d.month

/-- Every month but February has the days that the linear rule gives it, in any year. -/
theorem dayOfMonth_le_daysInMonth {y r : Int} {month : Nat} (hr : 0 ≤ r ∧ r ≤ 365)
    (hmonth : (month : Int) = calendarMonth (monthFromMarch r))
    (hleap : month = 2 → r = 365 → isLeapYear y = true) :
    dayOfMonth r ≤ daysInMonth y month := by
  obtain ⟨m, hm⟩ : ∃ m, monthFromMarch r = m := ⟨_, rfl⟩
  have hbounds : 153 * m ≤ 5 * r + 2 ∧ 5 * r + 2 < 153 * m + 153 := by
    rw [← hm, monthFromMarch]
    omega
  obtain ⟨hmonths, hmarch⟩ := calendarMonth_bounds (monthFromMarch_bounds hr).1
  rw [← hmonth] at hmonths hmarch
  rw [hm] at hmarch
  rw [dayOfMonth, hm]
  have hcases : month = 2 ∨ (month = 4 ∨ month = 6 ∨ month = 9 ∨ month = 11) ∨
      month = 1 ∨ month = 3 ∨ month = 5 ∨ month = 7 ∨ month = 8 ∨ month = 10 ∨ month = 12 := by
    omega
  rcases hcases with rfl | hshort | hlong
  · cases hy : isLeapYear y with
    | true =>
      simp only [daysInMonth, hy, if_true]
      omega
    | false =>
      have hlast : r ≠ 365 := by
        intro hlast
        rw [hleap rfl hlast] at hy
        cases hy
      simp only [daysInMonth, hy, if_true, Bool.false_eq_true, if_false]
      omega
  · rw [daysInMonth, if_neg (by omega), if_pos hshort]
    omega
  · rw [daysInMonth, if_neg (by omega), if_neg (by omega)]
    omega

/-- The date of a day is one of the calendar. -/
theorem isDate_ofDays (n : Int) : (ofDays n).IsDate := by
  obtain ⟨era, d, -, hlow, hhigh, hyear, hmonth, hday⟩ := exists_ofDays n
  obtain ⟨-, hr, hleap⟩ := yearOfEra_bounds hlow hhigh
  obtain ⟨hm, hpos⟩ := monthFromMarch_bounds hr
  have hmonths := (calendarMonth_bounds hm).1
  have hfebruary : (ofDays n).month = 2 → dayOfYear d = 365 →
      isLeapYear (ofDays n).year = true := by
    intro htwo hlast
    have hnext := isLeapYear_iff.mp (hleap hlast)
    rw [isLeapYear_iff, hyear, if_pos (by omega)]
    omega
  have hle := dayOfMonth_le_daysInMonth hr hmonth hfebruary
  exact ⟨by omega, by omega⟩

end TokenSheets.Date
