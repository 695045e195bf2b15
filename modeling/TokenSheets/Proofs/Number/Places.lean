/-
TokenSheets/Proofs/Number/Places.lean

Which numbers have a plain decimal as their text.

A result that is finite is written in digits, and dropping the zeros at the end
leaves nothing idle: no zero in front, none at the end, no sign on a zero
(`isPlainDecimal_writePlaces`).  A result that is not finite is written by a
name.  Rounding to an integer and scaling back never overflow, so it is the
first step, scaling to ten-thousandths, that decides between the two
(`isFinite_toPlaces_iff`).  It overflows for the uppermost finite values.
-/
import TokenSheets.Proofs.Number.Range
import TokenSheets.Proofs.Number.Text
import TokenSheets.Proofs.Json.Numeral
import TokenSheets.Number.Places
import TokenSheets.Sheet.Basic

namespace TokenSheets

open Json.Scan (sign IsWhole isWhole_toDigits)

/-! ### Zeros at the end -/

theorem dropTrailingZeros_eq_nil_iff {s : List Char} :
    dropTrailingZeros s = [] ↔ ∀ c ∈ s, c = '0' := by
  induction s with
  | nil => simp [dropTrailingZeros]
  | cons c cs ih =>
    rw [dropTrailingZeros, List.forall_mem_cons, ← ih]
    split
    · rename_i hrest
      by_cases hc : c = '0' <;> simp [hc, hrest]
    · rename_i hrest
      simp [hrest]

theorem length_dropTrailingZeros_le (s : List Char) : (dropTrailingZeros s).length ≤ s.length := by
  induction s with
  | nil => simp [dropTrailingZeros]
  | cons c cs ih =>
    rw [dropTrailingZeros]
    split
    · split <;> simp
    · rename_i hrest
      rw [hrest] at ih
      simpa using ih

theorem getLast?_dropTrailingZeros (s : List Char) :
    (dropTrailingZeros s).getLast? ≠ some '0' := by
  induction s with
  | nil => simp [dropTrailingZeros]
  | cons c cs ih =>
    rw [dropTrailingZeros]
    split
    · split
      · simp
      · simpa
    · rename_i hrest
      rw [hrest] at ih
      simpa using ih

/-! ### Plain decimals -/

/-- What may follow the digits before the point: nothing, or a point and up to four digits of which
the last is not zero. -/
def IsDecimalPart (part : List Char) : Prop :=
  part = [] ∨ ∃ digits, part = '.' :: digits ∧ digits ≠ [] ∧ digits.length ≤ 4 ∧
    (∀ c ∈ digits, c.isDigit = true) ∧ digits.getLast? ≠ some '0'

/-- A decimal numeral without anything idle: no zero in front of the digits before the point, none
after those behind it, and no sign on a zero. -/
structure IsPlainDecimal (s : List Char) : Prop where
  shape : ∃ negative whole part, s = sign negative ++ whole ++ part ∧ IsWhole whole ∧
    IsDecimalPart part
  ne_negative_zero : s ≠ ['-', '0']

/-- A plain decimal begins with a minus and a digit, or with a digit. -/
theorem IsPlainDecimal.begins {s : List Char} (h : IsPlainDecimal s) :
    ∃ negative c rest, s = sign negative ++ c :: rest ∧ c.isDigit = true := by
  obtain ⟨negative, whole, part, rfl, hwhole, -⟩ := h.shape
  obtain ⟨c, cs, rfl⟩ := List.exists_cons_of_ne_nil hwhole.ne_nil
  exact ⟨negative, c, cs ++ part, by simp, hwhole.digits c (by simp)⟩

theorem isDigit_of_mem_placeDigits {n : Nat} : ∀ c ∈ placeDigits n, c.isDigit = true := by
  simp [placeDigits, Nat.isDigit_digitChar, Nat.mod_lt]

/-- Four digits that are all zero make zero. -/
theorem eq_zero_of_placeDigits {n : Nat} (hn : n < placesScale)
    (h : ∀ c ∈ placeDigits n, c = '0') : n = 0 := by
  simp only [placeDigits, List.map_cons, List.map_nil, List.forall_mem_cons,
    Nat.digitChar_eq_zero] at h
  rw [placesScale] at hn
  omega

theorem isDecimalPart_placeDigits {n : Nat} {part : List Char}
    (h : dropTrailingZeros (placeDigits n) = part) (hne : part ≠ []) :
    IsDecimalPart ('.' :: part) := by
  subst h
  refine .inr ⟨_, rfl, hne, ?_, ?_, getLast?_dropTrailingZeros _⟩
  · exact length_dropTrailingZeros_le (placeDigits n)
  · exact fun c hc => isDigit_of_mem_placeDigits c (mem_of_mem_dropTrailingZeros hc)

/-- Every number of ten-thousandths is written as a plain decimal. -/
theorem isPlainDecimal_writePlaces (negative : Bool) (n : Nat) :
    IsPlainDecimal (writePlaces negative n) := by
  obtain ⟨part, hpart⟩ : ∃ part, dropTrailingZeros (placeDigits (n % placesScale)) = part :=
    ⟨_, rfl⟩
  have hwhole := isWhole_toDigits (n / placesScale)
  have hsign : (if negative && n != 0 then ['-'] else []) = sign (negative && n != 0) := rfl
  rw [writePlaces]
  simp only [hpart, hsign]
  by_cases hnil : part = []
  · subst hnil
    rw [List.isEmpty_nil, if_pos rfl]
    refine ⟨⟨_, _, [], by rw [List.append_nil], hwhole, .inl rfl⟩, fun hzero => ?_⟩
    -- a sign is written for a number other than zero only, and this one would be zero
    have hsigned : (negative && n != 0) = true := by
      by_contra hplain
      rw [Bool.not_eq_true] at hplain
      have hminus : '-' ∈ Nat.toDigits 10 (n / placesScale) := by
        rw [hplain] at hzero
        simp only [sign, Bool.false_eq_true, if_false, List.nil_append] at hzero
        simp [hzero]
      exact absurd (hwhole.digits _ hminus) (by decide)
    have hdigits : Nat.toDigits 10 (n / placesScale) = ['0'] := by
      rw [hsigned] at hzero
      simpa [sign] using hzero
    have hquotient : n / placesScale = 0 := by
      rw [← Nat.ofDigitChars_toDigits (b := 10) (by decide) (by decide) (n := n / placesScale), hdigits]
      rfl
    have hrest : n % placesScale = 0 :=
      eq_zero_of_placeDigits (Nat.mod_lt n (by decide)) (dropTrailingZeros_eq_nil_iff.mp hpart)
    have hn : n = 0 := by
      rw [← Nat.div_add_mod n placesScale, hquotient, hrest, Nat.mul_zero]
    simp [hn] at hsigned
  · rw [List.isEmpty_eq_false_iff.mpr hnil, if_neg (by decide)]
    have hdecimal := isDecimalPart_placeDigits hpart hnil
    refine ⟨⟨_, _, _, by rw [List.append_assoc], hwhole, hdecimal⟩, fun hzero => ?_⟩
    have hpoint : '.' ∈ ['-', '0'] := by simp [← hzero]
    exact absurd hpoint (by decide)

/-! ### Results that are finite -/

namespace Double

/-- A finite value that does not overflow when it is counted in ten-thousandths. -/
def FitsPlaces (d : Double) : Prop :=
  d.isFinite = true ∧ d.numerator * placesScale < overflowBound * d.denominator

instance (d : Double) : Decidable d.FitsPlaces :=
  inferInstanceAs (Decidable (_ ∧ _))

/-- The value by which numbers are scaled. -/
theorem ofInt_placesScale :
    (ofInt placesScale).isFinite = true ∧ (ofInt placesScale).isNegative = false ∧
      (ofInt placesScale).isZero = false ∧
      (ofInt placesScale).numerator = placesScale * 2 ^ 39 ∧
      (ofInt placesScale).denominator = 2 ^ 39 := by
  decide +kernel

theorem exponentField_ne {d : Double} (h : d.isFinite = true) : d.exponentField ≠ 2047 := by
  have hfield : d.exponentField < 2047 := of_decide_eq_true h
  omega

theorem isNaN_eq_false {d : Double} (h : d.isFinite = true) : d.isNaN = false := by
  simp [isNaN, exponentField_ne h]

theorem isInfinite_eq_false {d : Double} (h : d.isFinite = true) : d.isInfinite = false := by
  simp [isInfinite, exponentField_ne h]

/-- What is neither finite nor an infinity is no number. -/
theorem isInfinite_of_isFinite_eq_false {d : Double} (h : d.isFinite = false)
    (hnan : d.isNaN = false) : d.isInfinite = true := by
  have hfield : d.exponentField < 2048 := Nat.mod_lt _ (by decide)
  have hge : ¬ d.exponentField < 2047 := of_decide_eq_false h
  have heq : d.exponentField = 2047 := by omega
  simp only [isNaN, heq, beq_self_eq_true, Bool.true_and, bne_eq_false_iff_eq] at hnan
  simp [isInfinite, heq, hnan]

theorem isFinite_of_isZero {d : Double} (h : d.isZero = true) : d.isFinite = true := by
  have hbits : d.bits.toNat % 0x8000000000000000 = 0 := eq_of_beq h
  rw [isFinite, decide_eq_true_eq, exponentField]
  omega

/-- Scaling a finite value to ten-thousandths. -/
theorem mul_placesScale {d : Double} (h : d.isFinite = true) :
    d.mul (ofInt placesScale) =
      nearest d.isNegative (d.numerator * (placesScale * 2 ^ 39)) (d.denominator * 2 ^ 39) := by
  obtain ⟨hfinite, hsign, -, hnum, hden⟩ := ofInt_placesScale
  rw [mul]
  simp [isNaN_eq_false h, isNaN_eq_false hfinite, isInfinite_eq_false h,
    isInfinite_eq_false hfinite, hsign, hnum, hden]

theorem isFinite_mul_placesScale_iff {d : Double} (h : d.isFinite = true) :
    (d.mul (ofInt placesScale)).isFinite = true ↔
      d.numerator * placesScale < overflowBound * d.denominator := by
  have hunit : 0 < 2 ^ 39 := by decide
  rw [mul_placesScale h, isFinite_nearest_iff (Nat.mul_pos d.denominator_pos hunit),
    ← Nat.mul_assoc, ← Nat.mul_assoc, Nat.mul_lt_mul_right hunit]

/-- What does not fit is scaled to an infinity, or was no number before. -/
theorem mul_placesScale_of_not_fits {d : Double} (h : ¬ d.FitsPlaces) :
    d.mul (ofInt placesScale) = if d.isNaN then nan else infinity d.isNegative := by
  by_cases hfinite : d.isFinite = true
  · have hlarge : ¬ (d.mul (ofInt placesScale)).isFinite = true := fun hmul =>
      h ⟨hfinite, (isFinite_mul_placesScale_iff hfinite).mp hmul⟩
    rw [mul_placesScale hfinite] at hlarge ⊢
    rw [isNaN_eq_false hfinite, if_neg (by decide)]
    exact (isFinite_nearest_or _ _ _).resolve_left hlarge
  · rw [Bool.not_eq_true] at hfinite
    obtain ⟨hscale, hsign, hzero, -, -⟩ := ofInt_placesScale
    cases hnan : d.isNaN with
    | true => simp [mul, hnan]
    | false =>
      have hnonzero : d.isZero = false := by
        cases hd : d.isZero with
        | false => rfl
        | true =>
          rw [isFinite_of_isZero hd] at hfinite
          cases hfinite
      simp [mul, hnan, isInfinite_of_isFinite_eq_false hfinite hnan, isNaN_eq_false hscale, hsign,
        hzero, hnonzero]

/-- Only the first step can overflow. -/
theorem isFinite_toPlaces {d : Double} (h : d.FitsPlaces) : d.toPlaces.isFinite = true :=
  isFinite_divNat (isFinite_roundHalfAway ((isFinite_mul_placesScale_iff h.1).mpr h.2)) (by decide)

theorem toPlaces_of_not_fits {d : Double} (h : ¬ d.FitsPlaces) :
    d.toPlaces = if d.isNaN then nan else infinity d.isNegative := by
  have hfinite : (if d.isNaN then nan else infinity d.isNegative).isFinite = false := by
    split
    · decide
    · exact isFinite_infinity _
  rw [toPlaces, mul_placesScale_of_not_fits h]
  simp [roundHalfAway, divNat, hfinite]

/-! ### Texts -/

theorem isPlainDecimal_placesText {d : Double} (h : d.FitsPlaces) : IsPlainDecimal d.placesText := by
  have hfinite := isFinite_toPlaces h
  rw [placesText]
  simp only [isNaN_eq_false hfinite, hfinite, Bool.false_eq_true, if_false, if_true]
  exact isPlainDecimal_writePlaces _ _

/-- What does not fit is written like a value that is not finite. -/
theorem placesText_of_not_fits {d : Double} (h : ¬ d.FitsPlaces) :
    d.placesText = d.nonFiniteName.toList := by
  rw [placesText, toPlaces_of_not_fits h, nonFiniteName]
  cases d.isNaN <;> cases d.isNegative <;> decide

theorem not_isPlainDecimal_nonFiniteName (d : Double) : ¬ IsPlainDecimal d.nonFiniteName.toList := by
  have hname : d.nonFiniteName.toList ∈ [['N', 'a', 'N'], ['-', 'i', 'n', 'f'], ['i', 'n', 'f']] := by
    unfold nonFiniteName
    split
    · decide
    · split <;> decide
  intro h
  obtain ⟨negative, c, rest, heq, hdigit⟩ := h.begins
  rw [heq] at hname
  cases negative <;> simp [sign] at hname
  · rcases hname with ⟨rfl, -⟩ | ⟨rfl, -⟩ | ⟨rfl, -⟩ <;> exact absurd hdigit (by decide)
  · obtain ⟨rfl, -⟩ := hname
    exact absurd hdigit (by decide)

/-- The text of a number is a plain decimal exactly if the number fits. -/
theorem isPlainDecimal_placesText_iff (d : Double) :
    IsPlainDecimal d.placesText ↔ d.FitsPlaces := by
  constructor
  · intro hplain
    by_contra h
    rw [placesText_of_not_fits h] at hplain
    exact not_isPlainDecimal_nonFiniteName d hplain
  · exact isPlainDecimal_placesText

end Double

end TokenSheets
