/-
TokenSheets/Proofs/Time/Instant.lean

Instants read back.

The text of an instant has fields of fixed width, each of them a number with
zeros in front (`readNumber_padded`), and between them marks that are neither
digits nor blanks.  So every reader stops where its field ends.  The fraction is
the one field whose width varies; the zeros that are left out at its end come
back as a power of ten.  What has been read passes the checks of the calendar,
since the date of a day is one of the calendar.
-/
import Mathlib.Algebra.Group.Nat.Defs
import TokenSheets.Proofs.Outcome
import TokenSheets.Proofs.Text.Plain
import TokenSheets.Proofs.Time.Calendar
import TokenSheets.Time.Instant

namespace TokenSheets

open Outcome

namespace Instant

/-! ### Digits -/

theorem isDigit_eq (c : Char) : isDigit c = c.isDigit := rfl

theorem isDigit_of_mem_padded {width n : Nat} : ∀ c ∈ padded width n, isDigit c = true := by
  intro c hc
  rw [isDigit_eq]
  rcases List.mem_append.mp hc with hc | hc
  · rw [List.eq_of_mem_replicate hc]
    decide
  · exact Nat.isDigit_of_mem_toDigits (by decide) (by decide) hc

theorem length_padded {width n : Nat} (hpos : 0 < width) (hn : n < 10 ^ width) :
    (padded width n).length = width := by
  have hle := (Nat.length_toDigits_le_iff (b := 10) (n := n) (by decide) hpos).mpr hn
  simp only [padded, List.length_append, List.length_replicate]
  omega

theorem numberOf_padded (width n : Nat) : numberOf (padded width n) = n := by
  have hfold (s : List Char) : numberOf s = Nat.ofDigitChars 10 s 0 := by
    rw [numberOf, Nat.ofDigitChars_eq_foldl]
    rfl
  rw [hfold, padded, Nat.ofDigitChars_append, Nat.ofDigitChars_replicate_zero, Nat.mul_zero,
    Nat.ofDigitChars_ten_toDigits]

/-- What follows does not go on with digits. -/
def EndsDigits (rest : List Char) : Prop := ∀ c, rest.head? = some c → isDigit c = false

theorem takeDigits_append {most : Nat} {ds rest : List Char}
    (hds : ∀ c ∈ ds, isDigit c = true) (hlen : ds.length ≤ most)
    (hrest : ds.length = most ∨ EndsDigits rest) : takeDigits most (ds ++ rest) = (ds, rest) := by
  induction ds generalizing most with
  | nil =>
    cases most with
    | zero => rfl
    | succ most =>
      cases rest with
      | nil => rfl
      | cons c rest =>
        have hc : isDigit c = false := (hrest.resolve_left (by simp)) c rfl
        simp [takeDigits, hc]
  | cons c ds ih =>
    obtain ⟨hc, hds⟩ := List.forall_mem_cons.mp hds
    obtain ⟨most, rfl⟩ : ∃ k, most = k + 1 := Nat.exists_eq_succ_of_ne_zero (by
      rintro rfl
      simp at hlen)
    have htail := @ih most hds (by simpa using hlen) (hrest.imp_left (by simp))
    simp [takeDigits, hc, htail]

/-- A number is read up to its width, or up to where its digits end. -/
theorem readNumber_padded {most width n : Nat} (hpos : 0 < width) (hn : n < 10 ^ width)
    (hsmall : n < 0x8000000000000000) (hwidth : width ≤ most) {rest : List Char}
    (hrest : width = most ∨ EndsDigits rest) :
    readNumber most (padded width n ++ rest) = .ok (n, rest) := by
  have hlen := length_padded hpos hn
  have htake : takeDigits most (padded width n ++ rest) = (padded width n, rest) :=
    takeDigits_append isDigit_of_mem_padded (by omega) (by rwa [hlen])
  obtain ⟨c, cs, hcs⟩ := List.exists_cons_of_length_pos (l := padded width n) (by omega)
  have hnumber := numberOf_padded width n
  rw [hcs, List.cons_append] at htake
  rw [hcs] at hnumber
  rw [hcs, List.cons_append, readNumber.eq_def, htake]
  simp only [hnumber, if_pos hsmall]

/-! ### Blanks -/

theorem trimStart_of_not_blank {c : Char} (hc : isBlank c = false) (s : List Char) :
    trimStart (c :: s) = c :: s := by
  rw [trimStart, List.dropWhile_cons_of_neg (by simp [hc])]

theorem trimStart_padded {width n : Nat} (hpos : 0 < width) (hn : n < 10 ^ width)
    (rest : List Char) : trimStart (padded width n ++ rest) = padded width n ++ rest := by
  have hlen := length_padded hpos hn
  obtain ⟨c, cs, hcs⟩ := List.exists_cons_of_length_pos (l := padded width n) (by omega)
  have hc : isDigit c = true := isDigit_of_mem_padded c (hcs ▸ List.mem_cons_self)
  rw [hcs, List.cons_append, trimStart_of_not_blank (isPlain_of_isDigit hc).1]

theorem readMark_cons {mark : Char} (h : isBlank mark = false) (rest : List Char) :
    readMark mark (mark :: rest) = .ok rest := by
  rw [readMark, trimStart_of_not_blank h]
  simp

/-! ### Fields -/

theorem readField_padded {low high n : Nat} (hlow : low ≤ n) (hhigh : n ≤ high) (hn : n < 100)
    (rest : List Char) : readField low high (padded 2 n ++ rest) = .ok (n, rest) := by
  have hnumber : readNumber 2 (padded 2 n ++ rest) = .ok (n, rest) :=
    readNumber_padded (by decide) hn (by omega) (by decide) (Or.inl rfl)
  rw [readField, trimStart_padded (by decide) hn, hnumber, ok_bind]
  simp [hlow, hhigh]
  rfl

/-- A year of four digits has no sign. -/
theorem readYear_writeYear {y : Int} (hy : 0 ≤ y ∧ y ≤ 9999) (rest : List Char) :
    readYear (writeYear y ++ rest) = .ok (y, rest) := by
  obtain ⟨n, rfl⟩ := Int.eq_ofNat_of_zero_le hy.1
  have hn : n < 10 ^ 4 := by omega
  have hnumber : readNumber 4 (padded 4 n ++ rest) = .ok (n, rest) :=
    readNumber_padded (by decide) hn (by omega) (Nat.le_refl 4) (Or.inl rfl)
  obtain ⟨c, cs, hcs⟩ := List.exists_cons_of_length_pos (l := padded 4 n)
    (by rw [length_padded (by decide) hn]; decide)
  have hc : isDigit c = true := isDigit_of_mem_padded c (hcs ▸ List.mem_cons_self)
  have hstart := trimStart_padded (by decide) hn rest
  have hrange : -0x80000000 ≤ (n : Int) ∧ (n : Int) < 0x80000000 := by omega
  rw [writeYear, if_pos hy, Int.toNat_natCast]
  rw [hcs, List.cons_append] at hnumber hstart ⊢
  unfold readYear
  rw [hstart]
  dsimp only
  split
  · rename_i heq
    rw [(List.cons.inj heq).1] at hc
    cases hc
  · rename_i heq
    rw [(List.cons.inj heq).1] at hc
    cases hc
  · refine bind_eq_ok.mpr ⟨(n, rest), hnumber, ?_⟩
    dsimp only
    rw [pure_bind]
    exact if_pos hrange

/-- The zeros that a fraction leaves out. -/
theorem readFraction_padded {width n : Nat} (hpos : 0 < width) (hn : n < 10 ^ width)
    (hwidth : width ≤ 9) :
    readFraction ('.' :: (padded width n ++ ['Z'])) = .ok (n * 10 ^ (9 - width), ['Z']) := by
  have hbound : n < 10 ^ 9 := Nat.lt_of_lt_of_le hn (Nat.pow_le_pow_right (by decide) hwidth)
  have hends : EndsDigits ['Z'] := by
    intro c hc
    obtain rfl := Option.some.inj hc
    decide
  have hused : (padded width n ++ ['Z']).length - ['Z'].length = width := by
    rw [List.length_append, length_padded hpos hn]
    omega
  have hnumber := readNumber_padded hpos hn (by omega) hwidth (Or.inr hends)
  simp only [readFraction, hnumber, ok_bind, hused]
  rfl

theorem readFraction_writeFraction {nanos : Nat} (hn : nanos < 1000000000) :
    readFraction (writeFraction nanos ++ ['Z']) = .ok (nanos, ['Z']) := by
  unfold writeFraction
  split
  · subst nanos
    rfl
  split
  · rw [List.cons_append, readFraction_padded (by decide) (by omega) (by decide)]
    simp only [Except.ok.injEq, Prod.mk.injEq, and_true]
    omega
  split
  · rw [List.cons_append, readFraction_padded (by decide) (by omega) (by decide)]
    simp only [Except.ok.injEq, Prod.mk.injEq, and_true]
    omega
  · rw [List.cons_append, readFraction_padded (by decide) (by omega) (by decide)]
    simp

/-! ### The whole text -/

/-- An instant of the years 0 to 9999 that is no leap second. -/
structure IsCommon (i : Instant) : Prop where
  year : 0 ≤ (Date.ofDays (i.seconds / 86400)).year ∧
    (Date.ofDays (i.seconds / 86400)).year ≤ 9999
  nanos : i.nanos < 1000000000

/-- The days of these years are within the calendar. -/
theorem isCalendarDay_of_year {n : Int} (hn : 0 ≤ (Date.ofDays n).year ∧
    (Date.ofDays n).year ≤ 9999) : isCalendarDay n = true := by
  obtain ⟨era, d, hd, hlow, hhigh, hyear, -⟩ := Date.exists_ofDays n
  have hera := (Date.yearOfEra_bounds hlow hhigh).1
  have hfirst : (Date.mk firstYear 1 1).toDays = -96465292 := by decide
  have hlast : (Date.mk lastYear 12 31).toDays = 95026236 := by decide
  rw [isCalendarDay, hfirst, hlast, Bool.and_eq_true, decide_eq_true_eq, decide_eq_true_eq]
  split at hyear <;> omega

theorem readZone_utc : readZone (trimStart ['Z']) = .ok (0, []) := by decide

/-- The fields of a text, put together. -/
theorem read_fields {year : Int} {month day hour minute second nanos : Nat}
    (hyear : 0 ≤ year ∧ year ≤ 9999) (hdate : (Date.mk year month day).IsDate)
    (hhour : hour ≤ 23) (hminute : minute ≤ 59) (hsecond : second ≤ 59)
    (hnanos : nanos < 1000000000)
    (hcalendar : isCalendarDay (Date.mk year month day).toDays = true) :
    read (writeYear year ++ '-' :: (padded 2 month ++ '-' :: (padded 2 day ++
      'T' :: (padded 2 hour ++ ':' :: (padded 2 minute ++
        ':' :: (padded 2 second ++ writeFraction nanos ++ ['Z'])))))) =
      .ok ⟨(Date.mk year month day).toDays * 86400 +
        (hour * 3600 + minute * 60 + second : Nat), nanos⟩ := by
  have hmonth₁ : 1 ≤ month := hdate.month.1
  have hmonth₂ : month ≤ 12 := hdate.month.2
  have hday₁ : 1 ≤ day := hdate.day.1
  have hday₂ : day ≤ Date.daysInMonth year month := hdate.day.2
  have hlong : day ≤ 31 := Nat.le_trans hday₂ (Date.daysInMonth_le year month)
  have hdash : isBlank '-' = false := by decide
  have hcolon : isBlank ':' = false := by decide
  have hofDay : ((Date.mk year month day).toDays * 86400 +
      ((hour : Int) * 3600 + minute * 60 + second) - 0) / 86400 =
      (Date.mk year month day).toDays := by
    omega
  have hvalid : ¬(day > Date.daysInMonth year month ∨ year < firstYear ∨ lastYear < year) := by
    have hfirst : firstYear = -262143 := rfl
    have hlast : lastYear = 262142 := rfl
    omega
  have hplain : ¬(second = 60) := by omega
  have hsixty : second ≤ 60 := by omega
  rw [List.append_assoc (padded 2 second)]
  unfold read
  rw [readYear_writeYear hyear]
  simp only [ok_bind, readMark_cons hdash, readField_padded hmonth₁ hmonth₂ (by omega),
    readField_padded hday₁ hlong (by omega)]
  rw [if_pos (Or.inr (Or.inl trivial)), pure_bind]
  simp only [ok_bind, readMark_cons hcolon,
    readField_padded (Nat.zero_le hour) hhour (by omega),
    readField_padded (Nat.zero_le minute) hminute (by omega),
    readField_padded (Nat.zero_le second) hsixty (by omega),
    readFraction_writeFraction hnanos, readZone_utc]
  rw [if_neg (by decide), if_neg hvalid, if_neg (by decide), if_neg hplain, if_neg hplain, hofDay,
    hcalendar, if_neg (by decide)]
  rw [pure_eq_ok]
  simp only [Instant.mk.injEq, and_true]
  omega

/-- **Instants read back.** -/
theorem read_write {i : Instant} (hi : i.IsCommon) : read i.write = .ok i := by
  obtain ⟨date, hdate⟩ : ∃ date, Date.ofDays (i.seconds / 86400) = date := ⟨_, rfl⟩
  obtain ⟨ofDay, hofDay⟩ : ∃ ofDay, (i.seconds % 86400).toNat = ofDay := ⟨_, rfl⟩
  have hnanos := hi.nanos
  have hyear := hi.year
  have hcalendar := isCalendarDay_of_year hyear
  have hdays := Date.toDays_ofDays (i.seconds / 86400)
  have hvalid := Date.isDate_ofDays (i.seconds / 86400)
  rw [hdate] at hyear hdays hvalid
  rw [← hdays] at hcalendar
  have hplain : ¬ 1000000000 ≤ i.nanos := by omega
  have hhour : ofDay / 3600 ≤ 23 := by omega
  have hminute : ofDay / 60 % 60 ≤ 59 := by omega
  have hsecond : ofDay % 60 ≤ 59 := by omega
  have hread := read_fields hyear hvalid hhour hminute hsecond hnanos hcalendar
  have hseconds : date.toDays * 86400 +
      (ofDay / 3600 * 3600 + ofDay / 60 % 60 * 60 + ofDay % 60 : Nat) = i.seconds := by
    omega
  simp only [write, hdate, hofDay, if_neg hplain, Nat.add_zero]
  rw [hread, hseconds]

end Instant

end TokenSheets
