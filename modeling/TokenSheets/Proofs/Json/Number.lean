/-
TokenSheets/Proofs/Json/Number.lean

Numbers read back.

A double is laid out from its shortest decimal in one of four ways: zeros in
front of the digits, zeros behind them, the point among them, or one digit and
an exponent.  From each the scanner gets another significand and another power
of ten, but the same decimal number (`Scans`).  That number rounds to the value,
so the value is what it is read as (`value_write`).
-/
import TokenSheets.Proofs.Json.Numeral
import TokenSheets.Proofs.Number.Shortest

namespace TokenSheets

/-! ### Digits of a decimal -/

namespace Decimal

variable {s : Decimal}

theorem isDigit_of_mem_text : ∀ c ∈ s.text, c.isDigit = true := Json.Scan.isDigit_of_mem_toDigits

theorem text_ne_nil : s.text ≠ [] := Nat.toDigits_ne_nil

theorem ofDigitChars_text : Nat.ofDigitChars 10 s.text 0 = s.digits := Nat.ofDigitChars_ten_toDigits

/-- The exponent of the leading digit. -/
def leading (s : Decimal) : Int := s.exponent + s.text.length - 1

end Decimal

namespace Json.Scan

open NumberStyle

theorem isDigit_of_mem_zeros {n : Nat} : ∀ c ∈ zeros n, c.isDigit = true := by
  intro c hc
  rw [List.eq_of_mem_replicate hc]
  decide

/-- A text is scanned as a numeral with the value of a decimal. -/
def Scans (text : List Char) (s : Decimal) : Prop :=
  ∀ (negative : Bool) {rest : List Piece}, EndsNumber rest →
    ∃ (significand : Nat) (e : Int),
      number negative (piecesOfText text ++ rest) = real negative significand e rest ∧
        (significand * 10 ^ e : ℚ) = s.toRat

/-! ### The point among digits -/

/-- The digits on both sides of a point count together. -/
theorem scans_point {whole part : List Char} {s : Decimal} (hwhole : IsWhole whole)
    (hpart : part ≠ []) (hdigits : ∀ c ∈ part, c.isDigit = true)
    (hvalue : (Nat.ofDigitChars 10 (whole ++ part) 0 * 10 ^ (-(part.length : Int)) : ℚ) = s.toRat) :
    Scans (whole ++ '.' :: part) s := by
  intro negative rest hrest
  refine ⟨_, _, ?_, hvalue⟩
  have hmark : EndsDigits (.scalar '.' :: (piecesOfText part ++ rest)) :=
    endsDigits_cons (by decide) _
  rw [piecesOfText_append, List.append_assoc, piecesOfText_cons, List.cons_append,
    number_piecesOfText negative hwhole hmark, afterInteger_point negative _ hpart hdigits hrest,
    ← List.map_append, ofDigits_map]

/-- A numeral with an exponent and no point. -/
theorem scans_exponent {whole : List Char} {e : Int} {s : Decimal} (hwhole : IsWhole whole)
    (hsmall : e.natAbs ≤ greatestExponent)
    (hvalue : (Nat.ofDigitChars 10 whole 0 * 10 ^ e : ℚ) = s.toRat) :
    Scans (whole ++ 'e' :: exponentText e) s := by
  intro negative rest hrest
  refine ⟨_, _, ?_, hvalue⟩
  have hmark : EndsDigits (.scalar 'e' :: (piecesOfText (exponentText e) ++ rest)) :=
    endsDigits_cons (by decide) _
  have hexponent := exponent_piecesOfText negative (ofDigits (whole.map digitValue)) 0 hsmall
    hrest.digits
  rw [piecesOfText_append, List.append_assoc, piecesOfText_cons, List.cons_append,
    number_piecesOfText negative hwhole hmark]
  refine hexponent.trans ?_
  rw [Nat.cast_zero, Int.sub_zero, ofDigits_map]

/-- A numeral with a point and an exponent. -/
theorem scans_point_exponent {whole part : List Char} {e : Int} {s : Decimal}
    (hwhole : IsWhole whole) (hpart : part ≠ []) (hdigits : ∀ c ∈ part, c.isDigit = true)
    (hsmall : e.natAbs ≤ greatestExponent)
    (hvalue : (Nat.ofDigitChars 10 (whole ++ part) 0 * 10 ^ (e - part.length) : ℚ) = s.toRat) :
    Scans (whole ++ '.' :: (part ++ 'e' :: exponentText e)) s := by
  intro negative rest hrest
  refine ⟨_, _, ?_, hvalue⟩
  have hmark : EndsDigits (.scalar '.' :: (piecesOfText part ++
      .scalar 'e' :: (piecesOfText (exponentText e) ++ rest))) := endsDigits_cons (by decide) _
  rw [piecesOfText_append, List.append_assoc, piecesOfText_cons, List.cons_append,
    piecesOfText_append, List.append_assoc, piecesOfText_cons, List.cons_append,
    number_piecesOfText negative hwhole hmark,
    afterInteger_point_exponent negative _ hpart hdigits,
    exponent_piecesOfText negative _ _ hsmall hrest.digits, ← List.map_append, ofDigits_map]

theorem isWhole_of_head {ds : List Char} (hne : ds ≠ []) (hdigits : ∀ c ∈ ds, c.isDigit = true)
    (hhead : ds.head? ≠ some '0') : IsWhole ds :=
  ⟨hne, hdigits, fun h => absurd h hhead⟩

section Layouts

variable {s : Decimal} {st : NumberStyle}

theorem head?_text_ne (hs : s.digits ≠ 0) : s.text.head? ≠ some '0' := by
  obtain ⟨c, cs, hcs⟩ := List.exists_cons_of_ne_nil s.text_ne_nil
  rw [hcs, List.head?_cons, Ne, Option.some.injEq]
  exact head_toDigits_ne_zero (Nat.pos_of_ne_zero hs) hcs

theorem isWhole_take (hs : s.digits ≠ 0) {n : Nat} (hn : 0 < n) : IsWhole (s.text.take n) := by
  apply isWhole_of_head
  · simpa [hn.ne'] using s.text_ne_nil
  · exact fun c hc => s.isDigit_of_mem_text c (List.mem_of_mem_take hc)
  · rw [List.head?_take, if_neg hn.ne']
    exact head?_text_ne hs

theorem isWhole_zeros (hs : s.digits ≠ 0) (n : Nat) : IsWhole (s.text ++ zeros n) := by
  apply isWhole_of_head
  · simp [s.text_ne_nil]
  · intro c hc
    rcases List.mem_append.mp hc with hc | hc
    · exact s.isDigit_of_mem_text c hc
    · exact isDigit_of_mem_zeros c hc
  · rw [List.head?_append_of_ne_nil _ s.text_ne_nil]
    exact head?_text_ne hs

/-- Zeros, then the digits. -/
theorem scans_below_one (hpoint : s.leading + 1 ≤ 0) :
    Scans (['0'] ++ '.' :: (zeros (-(s.leading + 1)).toNat ++ s.text)) s := by
  apply scans_point isWhole_zero
  · simp [s.text_ne_nil]
  · intro c hc
    rcases List.mem_append.mp hc with hc | hc
    · exact isDigit_of_mem_zeros c hc
    · exact s.isDigit_of_mem_text c hc
  · have hexp : -((zeros (-(s.leading + 1)).toNat ++ s.text).length : Int) = s.exponent := by
      rw [List.length_append, zeros, List.length_replicate, Decimal.leading]
      rw [Decimal.leading] at hpoint
      omega
    have hdigits : Nat.ofDigitChars 10 (['0'] ++ (zeros (-(s.leading + 1)).toNat ++ s.text)) 0 =
        s.digits := by
      rw [zeros, ← List.replicate_one, Nat.ofDigitChars_append, Nat.ofDigitChars_append,
        Nat.ofDigitChars_replicate_zero, Nat.ofDigitChars_replicate_zero, Nat.mul_zero,
        Decimal.ofDigitChars_text]
    rw [hexp, hdigits, Decimal.toRat]

/-- The digits, then zeros before and after the point. -/
theorem scans_integral (hs : s.digits ≠ 0) {n : Nat} (hn : s.exponent = n) :
    Scans (s.text ++ zeros n ++ '.' :: ['0']) s := by
  apply scans_point (isWhole_zeros hs n) (by decide) isDigit_of_mem_zero
  have hdigits : Nat.ofDigitChars 10 (s.text ++ zeros n ++ ['0']) 0 = s.digits * 10 ^ n * 10 := by
    rw [zeros, ← List.replicate_one, Nat.ofDigitChars_append, Nat.ofDigitChars_append,
      Nat.ofDigitChars_replicate_zero, Nat.ofDigitChars_replicate_zero, Decimal.ofDigitChars_text]
    ring
  rw [hdigits, Decimal.toRat, hn, zpow_natCast, List.length_singleton, Nat.cast_one, zpow_neg_one]
  push_cast
  field_simp

/-- The point among the digits. -/
theorem scans_between (hs : s.digits ≠ 0) {n : Nat} (hn : 0 < n) (hlt : n < s.text.length)
    (hpoint : s.leading + 1 = n) : Scans (s.text.take n ++ '.' :: s.text.drop n) s := by
  apply scans_point (isWhole_take hs hn)
  · simpa using hlt
  · exact fun c hc => s.isDigit_of_mem_text c (List.mem_of_mem_drop hc)
  · have hexp : -((s.text.drop n).length : Int) = s.exponent := by
      rw [List.length_drop]
      rw [Decimal.leading] at hpoint
      omega
    rw [hexp, List.take_append_drop, Decimal.ofDigitChars_text, Decimal.toRat]

/-- Positional layouts. -/
theorem scans_positional (hs : s.digits ≠ 0) (hst : st.keepsPoint = true) :
    Scans (st.positional s.text (s.leading + 1)) s := by
  rw [positional]
  split
  · rename_i hpoint
    exact scans_below_one hpoint
  · rename_i hpoint
    dsimp only
    split
    · rename_i hlen
      apply scans_integral hs
      rw [Decimal.leading] at hpoint hlen ⊢
      omega
    · rename_i hlen
      exact scans_between hs (by omega) (by omega) (by omega)

/-- The layout with an exponent. -/
theorem scans_scientific (hs : s.digits ≠ 0) (hsmall : s.leading.natAbs ≤ greatestExponent) :
    Scans (scientific s.text s.leading) s := by
  have hvalue := s.ofDigitChars_text
  have hhead := isWhole_take hs Nat.one_pos
  obtain ⟨c, ds, htext⟩ := List.exists_cons_of_ne_nil s.text_ne_nil
  have hleading : s.leading - ds.length = s.exponent := by
    rw [Decimal.leading, htext, List.length_cons]
    omega
  have hdigits : ∀ x ∈ ds, x.isDigit = true := fun x hx =>
    s.isDigit_of_mem_text x (htext ▸ List.mem_cons_of_mem c hx)
  rw [htext, List.take_succ_cons, List.take_zero] at hhead
  rw [htext] at hvalue ⊢
  cases ds with
  | nil =>
    refine scans_exponent hhead hsmall ?_
    rw [hvalue, ← Int.sub_zero s.leading, ← Int.natCast_zero, ← List.length_nil, hleading,
      Decimal.toRat]
  | cons d ds =>
    refine scans_point_exponent hhead (List.cons_ne_nil d ds) hdigits hsmall ?_
    rw [List.singleton_append, hvalue, hleading, Decimal.toRat]

end Layouts

/-! ### Layouts begin with a digit -/

/-- A text that begins with a digit. -/
def StartsWithDigit (text : List Char) : Prop := ∃ c cs, text = c :: cs ∧ c.isDigit = true

theorem startsWithDigit_append {ds : List Char} (hne : ds ≠ [])
    (hdigits : ∀ c ∈ ds, c.isDigit = true) (text : List Char) : StartsWithDigit (ds ++ text) := by
  obtain ⟨c, cs, rfl⟩ := List.exists_cons_of_ne_nil hne
  exact ⟨c, cs ++ text, rfl, hdigits c List.mem_cons_self⟩

theorem startsWithDigit_positional (st : NumberStyle) {ds : List Char} (hne : ds ≠ [])
    (hdigits : ∀ c ∈ ds, c.isDigit = true) (pointAt : Int) :
    StartsWithDigit (st.positional ds pointAt) := by
  rw [positional]
  split
  · exact ⟨'0', _, rfl, by decide⟩
  · dsimp only
    split
    · rw [List.append_assoc]
      exact startsWithDigit_append hne hdigits _
    · apply startsWithDigit_append
      · rw [Ne, List.take_eq_nil_iff, not_or]
        exact ⟨by omega, hne⟩
      · exact fun c hc => hdigits c (List.mem_of_mem_take hc)

theorem startsWithDigit_scientific {ds : List Char} (hne : ds ≠ [])
    (hdigits : ∀ c ∈ ds, c.isDigit = true) (e : Int) : StartsWithDigit (scientific ds e) := by
  obtain ⟨c, cs, rfl⟩ := List.exists_cons_of_ne_nil hne
  have hc : c.isDigit = true := hdigits c List.mem_cons_self
  cases cs with
  | nil => exact ⟨c, _, rfl, hc⟩
  | cons d ds => exact ⟨c, _, rfl, hc⟩

/-! ### Doubles -/

/-- The layout of a double without its sign. -/
def unsigned (d : Double) : List Char :=
  if d.isZero then numberStyle.positional ['0'] 1
  else if numberStyle.leastPositional ≤ d.shortest.leading ∧
      d.shortest.leading < numberStyle.endPositional then
    numberStyle.positional d.shortest.text (d.shortest.leading + 1)
  else scientific d.shortest.text d.shortest.leading

theorem write_double (d : Double) : numberStyle.write d = sign d.isNegative ++ unsigned d := by
  rw [NumberStyle.write, unsigned]
  split
  · rfl
  · rfl

theorem startsWithDigit_unsigned (d : Double) : StartsWithDigit (unsigned d) := by
  have hne := d.shortest.text_ne_nil
  have hdigits := d.shortest.isDigit_of_mem_text
  rw [unsigned]
  split
  · exact startsWithDigit_positional _ (by decide) isDigit_of_mem_zero 1
  · split
    · exact startsWithDigit_positional _ hne hdigits _
    · exact startsWithDigit_scientific hne hdigits _

/-- A zero is scanned as one. -/
theorem scans_zero : Scans (numberStyle.positional ['0'] 1) ⟨0, 0⟩ := by
  refine @scans_point ['0'] ['0'] _ isWhole_zero (by decide) isDigit_of_mem_zero ?_
  have hdigits : Nat.ofDigitChars 10 (['0'] ++ ['0']) 0 = 0 := by decide
  rw [hdigits, Decimal.toRat]
  simp

theorem scans_unsigned {d : Double} (hfinite : d.isFinite = true) :
    Scans (unsigned d) d.shortest := by
  rw [unsigned]
  split
  · rename_i hzero
    rw [Double.shortest, if_pos hzero]
    exact scans_zero
  · rename_i hzero
    have hround := Double.roundsTo_shortest (Bool.eq_false_iff.mpr hzero)
    obtain ⟨hs, hlow, hhigh⟩ := hround.size_bounds hfinite (Bool.eq_false_iff.mpr hzero)
    split
    · exact scans_positional hs rfl
    · apply scans_scientific hs
      rw [Decimal.leading, Decimal.text, greatestExponent]
      omega

/-- A decimal that equals the shortest one is read as the value. -/
theorem ofDecimal_of_eq_shortest {d : Double} (hfinite : d.isFinite = true) {significand : Nat}
    {e : Int} (h : (significand * 10 ^ e : ℚ) = d.shortest.toRat) :
    Double.ofDecimal d.isNegative significand e = d := by
  cases hzero : d.isZero with
  | true =>
    rw [Double.shortest, if_pos hzero, Decimal.toRat, Nat.cast_zero, zero_mul, mul_eq_zero] at h
    have hsignificand : significand = 0 := by
      exact_mod_cast h.resolve_right (Double.ten_zpow_pos e).ne'
    rw [hsignificand, Double.ofDecimal, if_pos rfl, Double.zero_isNegative hzero]
  | false => exact Double.ofDecimal_eq hfinite hzero (h ▸ Double.roundsTo_shortest hzero)

/-- **Numbers read back.** -/
theorem value_write {n : Number} (hn : n.InRange) {rest : List Piece}
    (hrest : EndsNumber rest) (fuel depth : Nat) :
    value (fuel + 1) depth (piecesOfText n.write ++ rest) = (.number n, some rest) := by
  cases n with
  | int n => exact value_writeInt hn hrest fuel depth
  | double d =>
    have hfinite : d.isFinite = true := hn
    obtain ⟨significand, e, hscan, hvalue⟩ := scans_unsigned hfinite d.isNegative hrest
    rw [Number.write, write_double, value_sign _ (startsWithDigit_unsigned d), hscan]
    simp only [real, ofDecimal_of_eq_shortest hfinite hvalue, hfinite, if_true]

/-- The text of a number begins with a digit, perhaps behind a minus sign. -/
theorem exists_write (n : Number) :
    ∃ negative c cs, n.write = sign negative ++ c :: cs ∧ c.isDigit = true := by
  cases n with
  | int n =>
    obtain ⟨c, cs, hcs⟩ :=
      List.exists_cons_of_ne_nil (Nat.toDigits_ne_nil (n := n.natAbs) (b := 10))
    refine ⟨decide (n < 0), c, cs, ?_, isDigit_of_mem_toDigits c (hcs ▸ List.mem_cons_self)⟩
    rw [Number.write, writeInt, hcs]
    simp [sign]
  | double d =>
    obtain ⟨c, cs, hcs, hc⟩ := startsWithDigit_unsigned d
    exact ⟨d.isNegative, c, cs, by rw [Number.write, write_double, hcs], hc⟩

end Json.Scan

end TokenSheets
