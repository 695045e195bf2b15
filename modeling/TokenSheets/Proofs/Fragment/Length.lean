/-
TokenSheets/Proofs/Fragment/Length.lean

Which texts are lengths, and how each of them is read.

A length is a numeral directly followed by a unit (`IsNumeral`, `IsUnitText`,
`Writes`).  The scan cuts the text at the first character that is no digit, and
once more after a point.  A unit has neither digits nor points, so a text that
was put together from a numeral and a unit is cut where it was put together
(`cut_text`): there is no second way to write it (`Writes.unique`).  The text
of a numeral is within what can be read as a number, so the reading of the
magnitude never fails (`exists_ofText?`).
-/
import Mathlib.Data.List.TakeWhile
import TokenSheets.Proofs.Number.Text
import TokenSheets.Proofs.Outcome
import TokenSheets.Fragment.Settings

namespace TokenSheets

/-! ### Numerals -/

/-- A group of digits. -/
def IsDigits (s : List Char) : Prop := s ≠ [] ∧ ∀ c ∈ s, c.isDigit = true

/-- Digits, digits with a fraction, or a fraction alone. -/
inductive IsNumeral : List Char → Prop
  | whole {w : List Char} : IsDigits w → IsNumeral w
  | mixed {w p : List Char} : IsDigits w → IsDigits p → IsNumeral (w ++ '.' :: p)
  | fraction {p : List Char} : IsDigits p → IsNumeral ('.' :: p)

/-! ### Reading numerals -/

/-- A sign or the name of what is not finite begins otherwise. -/
def BeginsNumeral (c : Char) : Prop := c.isDigit = true ∨ c = '.'

theorem not_beginsNumeral_iff {c : Char} : ¬ BeginsNumeral c ↔ c.isDigit = false ∧ c ≠ '.' := by
  simp [BeginsNumeral]

theorem toLower_of_isDigit {c : Char} (h : c.isDigit = true) : c.toLower = c := by
  have hlast : c.toNat ≤ 57 := (Char.isDigit_iff_toNat.mp h).2
  unfold Char.toLower
  rw [dif_neg]
  rintro ⟨hlow, -⟩
  have : 65 ≤ c.toNat := hlow
  omega

theorem BeginsNumeral.toLower {c : Char} (h : BeginsNumeral c) : c.toLower = c := by
  rcases h with h | rfl
  · exact toLower_of_isDigit h
  · rfl

theorem BeginsNumeral.ne {c d : Char} (h : BeginsNumeral c) (hd : d.isDigit = false)
    (hpoint : d ≠ '.') : c ≠ d := by
  rintro rfl
  rcases h with h | h
  · rw [h] at hd
    cases hd
  · exact hpoint h

theorem point_isDigit : '.'.isDigit = false := rfl

/-- Digits are scanned up to a character that is none. -/
theorem takeWhile_dropWhile_isDigit {w : List Char} (hw : ∀ c ∈ w, c.isDigit = true) {c : Char}
    (hc : c.isDigit = false) (cs : List Char) :
    (w ++ c :: cs).takeWhile Char.isDigit = w ∧
      (w ++ c :: cs).dropWhile Char.isDigit = c :: cs := by
  rw [List.takeWhile_append_of_pos hw, List.dropWhile_append_of_pos hw,
    List.takeWhile_cons_of_neg (by simp [hc]), List.dropWhile_cons_of_neg (by simp [hc]),
    List.append_nil]
  exact ⟨rfl, rfl⟩

namespace Double

/-- Digits and points are read as a numeral without a sign. -/
theorem ofText?_eq_ofNumeral? {c : Char} (h : BeginsNumeral c) (cs : List Char) :
    ofText? (c :: cs) = ofNumeral? false (c :: cs) := by
  have hsign : takeSign (c :: cs) = (false, c :: cs) := by
    unfold takeSign
    split
    · rename_i heq
      exact absurd (List.cons.inj heq).1 (h.ne (by decide) (by decide))
    · rename_i heq
      exact absurd (List.cons.inj heq).1 (h.ne (by decide) (by decide))
    · rfl
  -- the names of what is not finite begin with letters
  have hname (d : Char) (ds : List Char) (hd : d.isDigit = false) (hpoint : d ≠ '.') :
      String.ofList ((c :: cs).map Char.toLower) ≠ String.ofList (d :: ds) := by
    intro heq
    have heq := String.ofList_injective heq
    rw [List.map_cons, h.toLower] at heq
    exact h.ne hd hpoint (List.cons.inj heq).1
  unfold ofText?
  simp only [hsign]
  rw [if_neg, if_neg]
  · exact hname 'n' ['a', 'n'] (by decide) (by decide)
  · rintro (heq | heq)
    · exact hname 'i' ['n', 'f'] (by decide) (by decide) heq
    · exact hname 'i' ['n', 'f', 'i', 'n', 'i', 't', 'y'] (by decide) (by decide) heq

/-- A group of digits is read as the number that they write. -/
theorem ofText?_digits {w : List Char} (h : IsDigits w) :
    ofText? w = some (ofDecimal false (Nat.ofDigitChars 10 w 0) 0) := by
  obtain ⟨hne, hdigits⟩ := h
  obtain ⟨c, cs, rfl⟩ := List.exists_cons_of_ne_nil hne
  rw [ofText?_eq_ofNumeral? (Or.inl (hdigits c List.mem_cons_self)), ofNumeral?]
  have htake : (c :: cs).takeWhile Char.isDigit = c :: cs := List.takeWhile_eq_self_iff.mpr hdigits
  have hdrop : (c :: cs).dropWhile Char.isDigit = [] := List.dropWhile_eq_nil_iff.mpr hdigits
  simp [htake, hdrop, exponentOfText?]

/-- Digits around a point are read as the number that they write; none need stand before it. -/
theorem ofText?_point {w p : List Char} (hw : ∀ c ∈ w, c.isDigit = true) (hp : IsDigits p) :
    ofText? (w ++ '.' :: p) =
      some (ofDecimal false (Nat.ofDigitChars 10 (w ++ p) 0) (-(p.length : Int))) := by
  obtain ⟨hne, hdigits⟩ := hp
  obtain ⟨c, cs, hcs, hc⟩ : ∃ c cs, w ++ '.' :: p = c :: cs ∧ BeginsNumeral c := by
    cases w with
    | nil => exact ⟨'.', p, rfl, Or.inr rfl⟩
    | cons d ds => exact ⟨d, ds ++ '.' :: p, rfl, Or.inl (hw d List.mem_cons_self)⟩
  obtain ⟨htake, hdrop⟩ := takeWhile_dropWhile_isDigit hw point_isDigit p
  have hptake : p.takeWhile Char.isDigit = p := List.takeWhile_eq_self_iff.mpr hdigits
  have hpdrop : p.dropWhile Char.isDigit = [] := List.dropWhile_eq_nil_iff.mpr hdigits
  rw [hcs, ofText?_eq_ofNumeral? hc, ← hcs, ofNumeral?]
  simp [htake, hdrop, hptake, hpdrop, hne, exponentOfText?]

theorem exists_ofText? {s : List Char} (h : IsNumeral s) : ∃ d, ofText? s = some d := by
  cases h with
  | whole hw => exact ⟨_, ofText?_digits hw⟩
  | mixed hw hp => exact ⟨_, ofText?_point hw.2 hp⟩
  | fraction hp => exact ⟨_, @ofText?_point [] _ (by simp) hp⟩

end Double

namespace Length

/-! ### Units and lengths -/

/-- Letters and percent signs. -/
def IsUnitText (s : List Char) : Prop := s ≠ [] ∧ ∀ c ∈ s, c.isAlpha = true ∨ c = '%'

/-- The text is the numeral directly followed by the unit. -/
structure Writes (text number unit : List Char) : Prop where
  isNumeral : IsNumeral number
  isUnitText : IsUnitText unit
  eq_append : text = number ++ unit

/-- Units have neither digits nor points. -/
theorem IsUnitText.not_beginsNumeral {u : List Char} (h : IsUnitText u) {c : Char} (hc : c ∈ u) :
    ¬ BeginsNumeral c := by
  rintro (hdigit | rfl)
  · obtain ⟨hlow, hhigh⟩ := Char.isDigit_iff_toNat.mp hdigit
    simp only [Char.reduceToNat] at hlow hhigh
    rcases h.2 c hc with halpha | rfl
    · have hrange := toNat_of_isAlpha halpha
      omega
    · simp at hlow
  · exact absurd (h.2 '.' hc) (by decide)

/-! ### Cutting a text -/

/-- What a valid split consists of. -/
theorem Split.valid_iff {s : Split} :
    s.valid = true ↔
      (∀ c ∈ s.whole, c.isDigit = true) ∧ IsUnitText s.unit ∧
        (s.part = none ∧ s.whole ≠ [] ∨ ∃ p, s.part = some p ∧ IsDigits p) := by
  obtain ⟨whole, part, unit⟩ := s
  cases part <;>
    simp [Split.valid, IsUnitText, IsDigits, isUnitChar, and_assoc, and_comm, and_left_comm]

/-- The first character of a unit ends the digits before it and is no point. -/
theorem exists_cons_of_isUnitText {u : List Char} (h : IsUnitText u) :
    ∃ c cs, u = c :: cs ∧ c.isDigit = false ∧ c ≠ '.' := by
  obtain ⟨c, cs, rfl⟩ := List.exists_cons_of_ne_nil h.1
  exact ⟨c, cs, rfl, not_beginsNumeral_iff.mp (h.not_beginsNumeral List.mem_cons_self)⟩

/-- The parts are found again in the text that they make up. -/
theorem cut_text {s : Split} (h : s.valid = true) : cut s.text = s := by
  obtain ⟨hwhole, hunit, hpart⟩ := Split.valid_iff.mp h
  obtain ⟨whole, part, unit⟩ := s
  obtain ⟨c, cs, rfl, hdigit, hpoint⟩ := exists_cons_of_isUnitText hunit
  rcases hpart with ⟨rfl, -⟩ | ⟨p, rfl, hp⟩
  · obtain ⟨htake, hdrop⟩ := takeWhile_dropWhile_isDigit hwhole hdigit cs
    have htext : Split.text ⟨whole, none, c :: cs⟩ = whole ++ c :: cs := by
      simp [Split.text, Split.number]
    rw [htext, cut, htake, hdrop]
    -- behind the digits the unit begins, so there is no point
    split
    · rename_i heq
      exact absurd (List.cons.inj heq).1 hpoint
    · rfl
  · obtain ⟨htake, hdrop⟩ :=
      takeWhile_dropWhile_isDigit hwhole point_isDigit (p ++ c :: cs)
    obtain ⟨hptake, hpdrop⟩ := takeWhile_dropWhile_isDigit hp.2 hdigit cs
    have htext : Split.text ⟨whole, some p, c :: cs⟩ = whole ++ '.' :: (p ++ c :: cs) := by
      simp [Split.text, Split.number]
    rw [htext, cut, htake, hdrop]
    simp only [hptake, hpdrop]

/-- The cut loses nothing. -/
theorem text_cut (t : List Char) : (cut t).text = t := by
  unfold cut
  simp only
  split
  · rename_i rest hrest
    simp only [Split.text, Split.number, List.append_assoc, List.cons_append]
    rw [List.takeWhile_append_dropWhile, ← hrest, List.takeWhile_append_dropWhile]
  · simp only [Split.text, Split.number, List.append_nil]
    rw [List.takeWhile_append_dropWhile]

/-- A text is split exactly in the parts that make it up. -/
theorem split?_eq_some_iff {t : List Char} {s : Split} :
    split? t = some s ↔ s.valid = true ∧ s.text = t := by
  unfold split?
  constructor
  · intro h
    split at h
    · rename_i hvalid
      rw [← Option.some.inj h]
      exact ⟨hvalid, text_cut t⟩
    · cases h
  · rintro ⟨hvalid, rfl⟩
    rw [cut_text hvalid, if_pos hvalid]

/-! ### Splits and lengths -/

/-- The parts of a split write a length. -/
theorem writes_of_split? {t : List Char} {s : Split} (h : split? t = some s) :
    Writes t s.number s.unit := by
  obtain ⟨hvalid, rfl⟩ := split?_eq_some_iff.mp h
  obtain ⟨hwhole, hunit, hpart⟩ := Split.valid_iff.mp hvalid
  refine ⟨?_, hunit, rfl⟩
  obtain ⟨whole, part, unit⟩ := s
  rcases hpart with ⟨rfl, hne⟩ | ⟨p, rfl, hp⟩
  · rw [Split.number, List.append_nil]
    exact .whole ⟨hne, hwhole⟩
  · rw [Split.number]
    cases whole with
    | nil => exact .fraction hp
    | cons c cs => exact .mixed ⟨List.cons_ne_nil c cs, hwhole⟩ hp

/-- A length is split between its numeral and its unit. -/
theorem Writes.exists_split? {t number unit : List Char} (h : Writes t number unit) :
    ∃ s, split? t = some s ∧ s.number = number ∧ s.unit = unit := by
  obtain ⟨hnumber, hunit, rfl⟩ := h
  have key (whole : List Char) (part : Option (List Char))
      (hvalid : (Split.mk whole part unit).valid = true)
      (hnum : (Split.mk whole part unit).number = number) :
      ∃ s, split? (number ++ unit) = some s ∧ s.number = number ∧ s.unit = unit :=
    ⟨⟨whole, part, unit⟩, split?_eq_some_iff.mpr ⟨hvalid, by rw [Split.text, hnum]⟩, hnum, rfl⟩
  cases hnumber with
  | whole hw =>
    exact key _ none (Split.valid_iff.mpr ⟨hw.2, hunit, Or.inl ⟨rfl, hw.1⟩⟩)
      (by rw [Split.number, List.append_nil])
  | mixed hw hp =>
    exact key _ (some _) (Split.valid_iff.mpr ⟨hw.2, hunit, Or.inr ⟨_, rfl, hp⟩⟩) rfl
  | fraction hp =>
    exact key [] (some _) (Split.valid_iff.mpr ⟨by simp, hunit, Or.inr ⟨_, rfl, hp⟩⟩) rfl

/-- A text is a length in one way at most. -/
theorem Writes.unique {t n₁ u₁ n₂ u₂ : List Char} (h₁ : Writes t n₁ u₁) (h₂ : Writes t n₂ u₂) :
    n₁ = n₂ ∧ u₁ = u₂ := by
  obtain ⟨s₁, hs₁, rfl, rfl⟩ := h₁.exists_split?
  obtain ⟨s₂, hs₂, rfl, rfl⟩ := h₂.exists_split?
  rw [hs₁] at hs₂
  rw [Option.some.inj hs₂]
  exact ⟨rfl, rfl⟩

/-- A blank text is no length. -/
theorem Writes.ne_nil {t number unit : List Char} (h : Writes t number unit) : t ≠ [] := by
  rw [h.eq_append]
  exact List.append_ne_nil_of_right_ne_nil _ h.isUnitText.1

/-- Of the text of a length the number and the unit are read. -/
theorem ofString?_of_writes {raw : String} {number unit : List Char}
    (h : Writes (trim raw.toList) number unit) :
    ∃ magnitude, Double.ofText? number = some magnitude ∧
      ofString? raw = .ok ⟨magnitude, String.ofList unit⟩ := by
  obtain ⟨magnitude, hmagnitude⟩ := Double.exists_ofText? h.isNumeral
  obtain ⟨s, hs, rfl, rfl⟩ := h.exists_split?
  have hne : (trim raw.toList).isEmpty = false := List.isEmpty_eq_false_iff.mpr h.ne_nil
  refine ⟨magnitude, hmagnitude, ?_⟩
  simp [ofString?, hne, hs, hmagnitude]

/-- Other texts are refused before a number is read. -/
theorem ofString?_of_not_writes {raw : String}
    (h : ¬ ∃ number unit, Writes (trim raw.toList) number unit) :
    ofString? raw = .error (if trim raw.toList = [] then .empty else .malformed) := by
  have hsplit : split? (trim raw.toList) = none := by
    cases hs : split? (trim raw.toList) with
    | none => rfl
    | some s => exact absurd ⟨s.number, s.unit, writes_of_split? hs⟩ h
  by_cases hempty : trim raw.toList = [] <;> simp [ofString?, hempty, hsplit]

end Length

namespace SettingsSheets

open Outcome Length

/-- **A base length is read exactly from a numeral directly followed by a unit**, blanks around
both apart.  The split is the only one, the numeral is read as a number, and every other text is
refused with the text as it was given. -/
theorem baseLength_spec (raw : String) :
    ((∃ l, baseLength raw = .ok l) ↔ ∃ number unit, Writes (trim raw.toList) number unit) ∧
    (∀ number unit, Writes (trim raw.toList) number unit →
      (∃ magnitude, Double.ofText? number = some magnitude ∧
        baseLength raw = .ok ⟨magnitude, String.ofList unit⟩) ∧
      (∀ c ∈ unit, c.isDigit = false ∧ c ≠ '.') ∧
      ∀ number' unit', Writes (trim raw.toList) number' unit' →
        number' = number ∧ unit' = unit) ∧
    ((¬ ∃ number unit, Writes (trim raw.toList) number unit) →
      baseLength raw =
        .error (.invalidSpacingValue raw
          (if trim raw.toList = [] then .empty else .malformed))) ∧
    ∀ value, baseLength raw ≠ .error (.invalidSpacingValue value .notANumber) := by
  have hread {number unit : List Char} (h : Writes (trim raw.toList) number unit) :
      ∃ magnitude, Double.ofText? number = some magnitude ∧
        baseLength raw = .ok ⟨magnitude, String.ofList unit⟩ := by
    obtain ⟨magnitude, hmagnitude, hl⟩ := ofString?_of_writes h
    exact ⟨magnitude, hmagnitude, mapError_eq_ok.mpr hl⟩
  have hrefused (h : ¬ ∃ number unit, Writes (trim raw.toList) number unit) :
      baseLength raw = .error (.invalidSpacingValue raw
        (if trim raw.toList = [] then .empty else .malformed)) :=
    mapError_eq_error.mpr ⟨_, ofString?_of_not_writes h, rfl⟩
  refine ⟨⟨?_, ?_⟩, ?_, hrefused, ?_⟩
  · rintro ⟨l, hl⟩
    by_contra h
    rw [hrefused h] at hl
    cases hl
  · rintro ⟨number, unit, h⟩
    obtain ⟨magnitude, -, hl⟩ := hread h
    exact ⟨_, hl⟩
  · intro number unit h
    refine ⟨hread h, ?_, fun number' unit' h' => h'.unique h⟩
    intro c hc
    exact not_beginsNumeral_iff.mp (h.isUnitText.not_beginsNumeral hc)
  · intro value hvalue
    by_cases h : ∃ number unit, Writes (trim raw.toList) number unit
    · obtain ⟨number, unit, h⟩ := h
      obtain ⟨magnitude, -, hl⟩ := hread h
      rw [hl] at hvalue
      cases hvalue
    · rw [hrefused h] at hvalue
      simp only [Except.error.injEq, GenerateError.invalidSpacingValue.injEq] at hvalue
      split at hvalue <;> exact absurd hvalue.2 (by decide)

/-- A fraction needs no digit before its point, and an exponent is no part of a numeral. -/
theorem baseLength_fraction_and_exponent :
    Writes (trim " .5em".toList) ['.', '5'] ['e', 'm'] ∧
      (∃ magnitude, Double.ofText? ['.', '5'] = some magnitude ∧
        baseLength " .5em" = .ok ⟨magnitude, "em"⟩) ∧
      (¬ ∃ number unit, Writes (trim "1e5px".toList) number unit) ∧
      baseLength "1e5px" = .error (.invalidSpacingValue "1e5px" .malformed) := by
  have hlength : Writes (trim " .5em".toList) ['.', '5'] ['e', 'm'] :=
    ⟨.fraction ⟨by simp, forall_mem_of_all (by decide)⟩,
      ⟨by simp, forall_mem_of_all (by decide)⟩, by decide⟩
  have hnone : ¬ ∃ number unit, Writes (trim "1e5px".toList) number unit := by
    rw [← (baseLength_spec "1e5px").1]
    rintro ⟨l, hl⟩
    cases hl
  exact ⟨hlength, ((baseLength_spec " .5em").2.1 _ _ hlength).1, hnone,
    (baseLength_spec "1e5px").2.2.1 hnone⟩

end SettingsSheets

end TokenSheets
