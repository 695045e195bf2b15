/-
TokenSheets/Proofs/Json/Numeral.lean

Numerals, scanned.

A numeral is cut into the digits before the point, the digits after it and the
exponent.  Each of these pieces ends where the next character is no digit, so
what follows a numeral matters only in that it does not go on with it
(`EndsNumber`).  For each layout the scanner arrives at a significand and a
power of ten; for the texts of integers that is the integer itself
(`number_writeInt`).
-/
import TokenSheets.Proofs.Json.Quoted
import TokenSheets.Proofs.Json.WellFormed

namespace TokenSheets

/-! ### Digits -/

/-- A number that is not zero does not begin with a zero. -/
theorem head_toDigits_ne_zero {n : Nat} (hn : 0 < n) {c : Char} {cs : List Char}
    (h : Nat.toDigits 10 n = c :: cs) : c ≠ '0' := by
  induction n using Nat.strongRecOn generalizing cs with
  | ind n ih =>
    by_cases hlt : n < 10
    · rw [Nat.toDigits_of_lt_base hlt, List.cons.injEq] at h
      rintro rfl
      have hzero : n = 0 := Nat.digitChar_eq_zero.mp h.1
      omega
    · rw [Nat.toDigits_of_base_le (by decide) (by omega)] at h
      obtain ⟨d, ds, hds⟩ :=
        List.exists_cons_of_ne_nil (Nat.toDigits_ne_nil (n := n / 10) (b := 10))
      rw [hds, List.cons_append, List.cons.injEq] at h
      obtain ⟨rfl, -⟩ := h
      exact ih (n / 10) (by omega) (by omega) hds

namespace Json

namespace Scan

/-- The value of a digit. -/
def digitValue (c : Char) : Nat := c.toNat - 48

theorem digit?_scalar {c : Char} (h : c.isDigit = true) :
    digit? (.scalar c) = some (digitValue c) := by
  rw [Char.isDigit, Bool.and_eq_true, decide_eq_true_eq, decide_eq_true_eq] at h
  exact if_pos h

theorem digitValue_ne_zero {c : Char} (h : c.isDigit = true) (hc : c ≠ '0') : digitValue c ≠ 0 := by
  rw [Char.isDigit, Bool.and_eq_true, decide_eq_true_eq, decide_eq_true_eq] at h
  intro hvalue
  apply hc
  have hlow : (48 : Nat) ≤ c.toNat := h.1
  have hnat : c.toNat = '0'.toNat := by
    have hzero : '0'.toNat = 48 := rfl
    rw [digitValue] at hvalue
    omega
  exact Char.toNat_inj.mp hnat

/-- What follows does not begin with a digit. -/
def EndsDigits (rest : List Piece) : Prop := ∀ p, rest.head? = some p → digit? p = none

/-- What follows does not go on with a number. -/
structure EndsNumber (rest : List Piece) : Prop where
  digits : EndsDigits rest
  point : rest.head? ≠ some (.scalar '.')
  lower : rest.head? ≠ some (.scalar 'e')
  upper : rest.head? ≠ some (.scalar 'E')

theorem endsNumber_nil : EndsNumber [] :=
  ⟨nofun, nofun, nofun, nofun⟩

theorem endsDigits_cons {p : Piece} (h : digit? p = none) (rest : List Piece) :
    EndsDigits (p :: rest) := by
  intro q hq
  rw [← Option.some.inj hq, h]

/-- All digits are taken. -/
theorem digits_piecesOfText {ds : List Char} (hds : ∀ c ∈ ds, c.isDigit = true)
    {rest : List Piece} (hrest : EndsDigits rest) :
    digits (piecesOfText ds ++ rest) = (ds.map digitValue, rest) := by
  induction ds with
  | nil =>
    cases rest with
    | nil => rfl
    | cons p rest => simp [digits, hrest p rfl]
  | cons c ds ih =>
    obtain ⟨hc, hds⟩ := List.forall_mem_cons.mp hds
    simp [digits, digit?_scalar hc, ih hds]

/-- The digits of a text as a number. -/
theorem ofDigits_map (ds : List Char) :
    ofDigits (ds.map digitValue) = Nat.ofDigitChars 10 ds 0 := by
  rw [ofDigits, List.foldl_map, Nat.ofDigitChars_eq_foldl]
  rfl

/-! ### Before the point -/

/-- Digits that a number may begin with: a zero stands alone. -/
structure IsWhole (ds : List Char) : Prop where
  ne_nil : ds ≠ []
  digits : ∀ c ∈ ds, c.isDigit = true
  zero : ds.head? = some '0' → ds = ['0']

theorem isDigit_of_mem_zero : ∀ c ∈ ['0'], c.isDigit = true :=
  List.forall_mem_singleton.mpr (by decide)

theorem isWhole_zero : IsWhole ['0'] :=
  ⟨by decide, isDigit_of_mem_zero, fun _ => rfl⟩

theorem isDigit_of_mem_toDigits {n : Nat} : ∀ c ∈ Nat.toDigits 10 n, c.isDigit = true :=
  fun _ hc => Nat.isDigit_of_mem_toDigits (by decide) (by decide) hc

theorem isWhole_toDigits (n : Nat) : IsWhole (Nat.toDigits 10 n) := by
  refine ⟨Nat.toDigits_ne_nil, isDigit_of_mem_toDigits, ?_⟩
  intro hhead
  rcases Nat.eq_zero_or_pos n with rfl | hn
  · exact Nat.toDigits_zero 10
  · obtain ⟨c, cs, hcs⟩ := List.exists_cons_of_ne_nil (Nat.toDigits_ne_nil (n := n) (b := 10))
    rw [hcs, List.head?_cons, Option.some.injEq] at hhead
    exact absurd hhead (head_toDigits_ne_zero hn hcs)

/-- The digits before the point are taken together. -/
theorem number_piecesOfText (negative : Bool) {ds : List Char} (hds : IsWhole ds)
    {rest : List Piece} (hrest : EndsDigits rest) :
    number negative (piecesOfText ds ++ rest) =
      afterInteger negative (ds.map digitValue) rest := by
  have hdigits := digits_piecesOfText hds.digits hrest
  obtain ⟨c, cs, rfl⟩ := List.exists_cons_of_ne_nil hds.ne_nil
  have hdigit : c.isDigit = true := hds.digits c (by simp)
  rw [piecesOfText_cons, List.cons_append] at hdigits ⊢
  by_cases hzero : c = '0'
  · subst hzero
    obtain rfl : cs = [] := by simpa using hds.zero rfl
    cases rest with
    | nil => rfl
    | cons q rest =>
      have hq : digit? q = none := hrest q rfl
      have hc : digit? (.scalar '0') = some 0 := by decide
      rw [number.eq_def]
      simp only [hc, hq, Option.isSome_none, Bool.false_eq_true, if_false, piecesOfText_nil,
        List.nil_append]
      rfl
  · obtain ⟨m, hm⟩ := Nat.exists_eq_succ_of_ne_zero (digitValue_ne_zero hdigit hzero)
    rw [number.eq_def]
    simp only [digit?_scalar hdigit, hm, hdigits]

/-! ### Values -/

/-- The sign of a numeral. -/
def sign (negative : Bool) : List Char := if negative then ['-'] else []

theorem ne_of_isDigit {c x : Char} (hc : c.isDigit = true) (hx : x.isDigit = false) : c ≠ x := by
  rintro rfl
  rw [hc] at hx
  cases hx

theorem isGap_of_isDigit {c : Char} (hc : c.isDigit = true) : isGap (.scalar c) = false := by
  have hne {x : Char} (hx : x.isDigit = false) : (c = x) = False :=
    eq_false (ne_of_isDigit hc hx)
  simp [isGap, hne (x := ' ') rfl, hne (x := '\t') rfl, hne (x := '\n') rfl,
    hne (x := '\r') rfl]

/-- A value that begins with a digit or a minus sign is a number. -/
theorem value_sign (negative : Bool) {text : List Char}
    (htext : ∃ c cs, text = c :: cs ∧ c.isDigit = true) (fuel depth : Nat) (rest : List Piece) :
    value (fuel + 1) depth (piecesOfText (sign negative ++ text) ++ rest) =
      number negative (piecesOfText text ++ rest) := by
  obtain ⟨c, cs, rfl, hc⟩ := htext
  cases negative with
  | true => rfl
  | false =>
    simp only [sign, Bool.false_eq_true, if_false, List.nil_append, piecesOfText_cons,
      List.cons_append]
    rw [value, skipGap, List.dropWhile_cons_of_neg (by simp [isGap_of_isDigit hc])]
    -- every other kind of value begins with a character that is no digit
    split
    · rename_i h
      cases h
    iterate 7
      rename_i h
      rw [List.cons.injEq, Piece.scalar.injEq] at h
      exact absurd h.1 (ne_of_isDigit hc (by decide))
    · rename_i h
      obtain ⟨rfl, rfl⟩ := List.cons.inj h
      simp [digit?_scalar hc]

theorem afterInteger_of_ends {rest : List Piece} (h : EndsNumber rest) (negative : Bool)
    (whole : List Nat) :
    afterInteger negative whole rest = integer negative (ofDigits whole) rest := by
  unfold afterInteger
  split
  · exact absurd rfl h.point
  · exact absurd rfl h.lower
  · exact absurd rfl h.upper
  · rfl

/-- **Integers read back.** -/
theorem value_writeInt {n : Int} (hn : (Number.int n).InRange) {rest : List Piece}
    (hrest : EndsNumber rest) (fuel depth : Nat) :
    value (fuel + 1) depth (piecesOfText (writeInt n) ++ rest) = (.number (.int n), some rest) := by
  obtain ⟨hlow, hhigh⟩ := hn
  have htext : ∃ c cs, Nat.toDigits 10 n.natAbs = c :: cs ∧ c.isDigit = true := by
    obtain ⟨c, cs, hcs⟩ :=
      List.exists_cons_of_ne_nil (Nat.toDigits_ne_nil (n := n.natAbs) (b := 10))
    exact ⟨c, cs, hcs, isDigit_of_mem_toDigits c (hcs ▸ List.mem_cons_self)⟩
  have hsign : writeInt n = sign (decide (n < 0)) ++ Nat.toDigits 10 n.natAbs := by
    simp [writeInt, sign]
  rw [hsign, value_sign _ htext, number_piecesOfText _ (isWhole_toDigits _) hrest.digits,
    afterInteger_of_ends hrest, ofDigits_map, Nat.ofDigitChars_ten_toDigits, integer]
  by_cases hneg : n < 0
  · have habs : n.natAbs ≠ 0 ∧ n.natAbs ≤ 0x8000000000000000 := by omega
    have hint : -(n.natAbs : Int) = n := by omega
    rw [if_pos (decide_eq_true hneg), if_pos habs, hint]
  · have habs : n.natAbs < 0x10000000000000000 := by omega
    have hint : (n.natAbs : Int) = n := by omega
    rw [if_neg (by simpa using hneg), if_pos habs, hint]

/-! ### After the point -/

/-- Without an exponent the digits after the point are counted off. -/
theorem afterInteger_point (negative : Bool) (whole : List Nat) {part : List Char}
    (hpart : part ≠ []) (hdigits : ∀ c ∈ part, c.isDigit = true) {rest : List Piece}
    (hrest : EndsNumber rest) :
    afterInteger negative whole (.scalar '.' :: (piecesOfText part ++ rest)) =
      real negative (ofDigits (whole ++ part.map digitValue)) (-(part.length : Int)) rest := by
  have hne : part.map digitValue ≠ [] := by simpa using hpart
  have hlength : (part.map digitValue).length = part.length := List.length_map _
  unfold afterInteger
  simp only [digits_piecesOfText hdigits hrest.digits]
  generalize part.map digitValue = ds at *
  split
  · exact absurd (Prod.mk.inj ‹_›).1 hne
  · exact absurd (Prod.mk.inj ‹_›).1 hne
  · obtain ⟨-, h⟩ := Prod.mk.inj ‹_›
    exact absurd (h ▸ rfl) hrest.lower
  · obtain ⟨-, h⟩ := Prod.mk.inj ‹_›
    exact absurd (h ▸ rfl) hrest.upper
  · obtain ⟨rfl, rfl⟩ := Prod.mk.inj ‹_›
    rw [hlength]

/-- Before an exponent they are counted off there. -/
theorem afterInteger_point_exponent (negative : Bool) (whole : List Nat) {part : List Char}
    (hpart : part ≠ []) (hdigits : ∀ c ∈ part, c.isDigit = true) (s : List Piece) :
    afterInteger negative whole (.scalar '.' :: (piecesOfText part ++ .scalar 'e' :: s)) =
      exponent negative (ofDigits (whole ++ part.map digitValue)) part.length s := by
  have hmark : EndsDigits (.scalar 'e' :: s) := endsDigits_cons (by decide) s
  unfold afterInteger
  simp only [digits_piecesOfText hdigits hmark]
  obtain ⟨c, cs, rfl⟩ := List.exists_cons_of_ne_nil hpart
  simp only [List.map_cons, List.length_cons, List.length_map]

/-! ### The exponent -/

theorem le_ofDigitChars (ds : List Char) (sofar : Nat) : sofar ≤ Nat.ofDigitChars 10 ds sofar := by
  induction ds generalizing sofar with
  | nil => exact Nat.le_refl _
  | cons c ds ih =>
    rw [Nat.ofDigitChars_cons]
    exact Nat.le_trans (by omega) (ih _)

/-- An exponent that is not too great is read digit by digit. -/
theorem exponentDigits_piecesOfText {ds : List Char} (hds : ∀ c ∈ ds, c.isDigit = true)
    {rest : List Piece} (hrest : EndsDigits rest) {sofar : Nat}
    (hsmall : Nat.ofDigitChars 10 ds sofar ≤ greatestExponent) :
    exponentDigits sofar (piecesOfText ds ++ rest) =
      (some (Nat.ofDigitChars 10 ds sofar), rest) := by
  induction ds generalizing sofar with
  | nil =>
    cases rest with
    | nil => rfl
    | cons p rest => simp [exponentDigits, hrest p rfl]
  | cons c ds ih =>
    obtain ⟨hc, hds⟩ := List.forall_mem_cons.mp hds
    rw [Nat.ofDigitChars_cons] at hsmall ⊢
    have hfits : ¬ greatestExponent < 10 * sofar + digitValue c :=
      Nat.not_lt.mpr (Nat.le_trans (le_ofDigitChars ds _) hsmall)
    simp only [piecesOfText_cons, List.cons_append, exponentDigits, digit?_scalar hc, if_neg hfits]
    exact ih hds hsmall

/-- The exponent of a numeral, with its sign. -/
def exponentText (e : Int) : List Char :=
  (if e < 0 then '-' else '+') :: Nat.toDigits 10 e.natAbs

theorem exponent_piecesOfText (negative : Bool) (significand places : Nat) {e : Int}
    (he : e.natAbs ≤ greatestExponent) {rest : List Piece} (hrest : EndsDigits rest) :
    exponent negative significand places (piecesOfText (exponentText e) ++ rest) =
      real negative significand (e - places) rest := by
  obtain ⟨c, cs, hcs⟩ :=
    List.exists_cons_of_ne_nil (Nat.toDigits_ne_nil (n := e.natAbs) (b := 10))
  have hdigits : ∀ x ∈ c :: cs, x.isDigit = true := hcs ▸ isDigit_of_mem_toDigits
  obtain ⟨hc, hcs'⟩ := List.forall_mem_cons.mp hdigits
  have hvalue : Nat.ofDigitChars 10 cs (digitValue c) = e.natAbs := by
    have hall := Nat.ofDigitChars_ten_toDigits (n := e.natAbs)
    rw [hcs, Nat.ofDigitChars_cons, Nat.mul_zero, Nat.zero_add] at hall
    exact hall
  have hread := @exponentDigits_piecesOfText cs hcs' rest hrest (digitValue c) (hvalue ▸ he)
  rw [hvalue] at hread
  by_cases hneg : e < 0
  · have habs : -(e.natAbs : Int) = e := by omega
    simp only [exponentText, if_pos hneg, hcs, piecesOfText_cons, List.cons_append, exponent,
      digit?_scalar hc, hread, if_true, habs]
  · have habs : (e.natAbs : Int) = e := by omega
    simp only [exponentText, if_neg hneg, hcs, piecesOfText_cons, List.cons_append, exponent,
      digit?_scalar hc, hread, Bool.false_eq_true, if_false, habs]

end Scan

end Json

end TokenSheets
