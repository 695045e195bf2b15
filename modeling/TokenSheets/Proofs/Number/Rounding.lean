/-
TokenSheets/Proofs/Number/Rounding.lean

What rounds to a double.

The reals that round to a finite double `m · 2 ^ q` other than zero form an
interval around it (`RoundsTo`): half a unit to either side, but only a quarter
below a power of two, where the unit of the neighbours is half as large.  The
ends belong to it when `m` is even.

`nearest` takes its unit from the leading binary digit of the quotient.  Within
the interval that unit is `2 ^ q`, except in the quarter below a power of two,
where the mantissa rounds up and carries (`nearest_eq`).  A decimal is handed
to `nearest` unless its number of digits settles it, and in the interval it
never does (`ofDecimal_eq`).
-/
import Mathlib.Algebra.Order.Field.Power
import Mathlib.Tactic.Linarith
import Mathlib.Tactic.Positivity
import Mathlib.Tactic.Ring
import Mathlib.Tactic.FieldSimp
import Mathlib.Tactic.NormNum
import TokenSheets.Number.Shortest

namespace TokenSheets

/-! ### Quotients -/

/-- A quotient rounds to a number at most half away from it, and to an even one at the half. -/
theorem roundDivEven_eq {num den m : Nat} (hden : 0 < den)
    (hlow : 2 * (m * den) ≤ 2 * num + den) (hhigh : 2 * num ≤ 2 * (m * den) + den)
    (hodd : m % 2 = 1 → 2 * (m * den) < 2 * num + den ∧ 2 * num < 2 * (m * den) + den) :
    roundDivEven num den = m := by
  have hsplit : den * (num / den) + num % den = num := Nat.div_add_mod num den
  have hrest : num % den < den := Nat.mod_lt num hden
  have hle : num / den ≤ m := by
    by_contra hlt
    have hmul : (m + 1) * den ≤ num / den * den := Nat.mul_le_mul_right den (by omega)
    rw [Nat.mul_comm (num / den), Nat.add_mul] at hmul
    omega
  have hge : m ≤ num / den + 1 := by
    by_contra hlt
    have hmul : (num / den + 2) * den ≤ m * den := Nat.mul_le_mul_right den (by omega)
    rw [Nat.add_mul, Nat.mul_comm (num / den)] at hmul
    omega
  rw [roundDivEven]
  rcases Nat.lt_or_ge (num / den) m with hlt | hge'
  · obtain rfl : m = num / den + 1 := by omega
    rw [Nat.add_mul, Nat.mul_comm (num / den)] at hlow hhigh hodd
    rw [if_pos (by omega)]
  · obtain rfl : m = num / den := by omega
    rw [Nat.mul_comm (num / den)] at hlow hhigh hodd
    rw [if_neg (by omega)]

/-! ### Powers of two -/

/-- A power with any exponent is a quotient of two natural powers, one of them with no factor. -/
theorem zpow_eq_div_pow {b : ℚ} (hb : b ≠ 0) (q : Int) :
    b ^ q = b ^ q.toNat / b ^ (-q).toNat := by
  rw [eq_div_iff (pow_ne_zero _ hb), ← zpow_natCast, ← zpow_natCast, ← zpow_add₀ hb]
  congr 1
  omega

theorem two_zpow_pos (q : Int) : (0 : ℚ) < 2 ^ q := by positivity

/-- A quotient compared with a power of two, in natural numbers. -/
theorem ratio_lt_zpow_iff {num den : Nat} (hden : 0 < den) (l : Int) :
    (num : ℚ) / den < 2 ^ l ↔ num * Nat.pow 2 (-l).toNat < den * Nat.pow 2 l.toNat := by
  have hden' : (0 : ℚ) < den := by exact_mod_cast hden
  rw [zpow_eq_div_pow two_ne_zero, div_lt_div_iff₀ hden' (by positivity), mul_comm _ (den : ℚ)]
  simp only [Nat.pow_eq]
  exact_mod_cast Iff.rfl

namespace Double

/-- The leading binary digit of a quotient. -/
theorem floorLog_spec {num den : Nat} (hnum : 0 < num) (hden : 0 < den) :
    (2 : ℚ) ^ floorLog num den ≤ (num : ℚ) / den ∧
      (num : ℚ) / den < 2 ^ (floorLog num den + 1) := by
  have hden' : (0 : ℚ) < den := by exact_mod_cast hden
  have hnumLow : (2 : ℚ) ^ (num.log2 : Int) ≤ num := by
    rw [zpow_natCast]
    exact_mod_cast Nat.log2_self_le (by omega)
  have hnumHigh : (num : ℚ) < 2 ^ ((num.log2 : Int) + 1) := by
    have hlt : num < 2 ^ (num.log2 + 1) := Nat.lt_log2_self
    exact_mod_cast hlt
  have hdenLow : (2 : ℚ) ^ (den.log2 : Int) ≤ den := by
    rw [zpow_natCast]
    exact_mod_cast Nat.log2_self_le (by omega)
  have hdenHigh : (den : ℚ) < 2 ^ ((den.log2 : Int) + 1) := by
    have hlt : den < 2 ^ (den.log2 + 1) := Nat.lt_log2_self
    exact_mod_cast hlt
  have hlow : (2 : ℚ) ^ ((num.log2 : Int) - den.log2 - 1) ≤ (num : ℚ) / den := by
    rw [le_div_iff₀ hden']
    calc (2 : ℚ) ^ ((num.log2 : Int) - den.log2 - 1) * den
        ≤ 2 ^ ((num.log2 : Int) - den.log2 - 1) * 2 ^ ((den.log2 : Int) + 1) :=
          mul_le_mul_of_nonneg_left hdenHigh.le (two_zpow_pos _).le
      _ = 2 ^ (num.log2 : Int) := by
          rw [← zpow_add₀ two_ne_zero]
          congr 1
          omega
      _ ≤ num := hnumLow
  have hhigh : (num : ℚ) / den < 2 ^ ((num.log2 : Int) - den.log2 + 1) := by
    rw [div_lt_iff₀ hden']
    calc (num : ℚ) < 2 ^ ((num.log2 : Int) + 1) := hnumHigh
      _ = 2 ^ ((num.log2 : Int) - den.log2 + 1) * 2 ^ (den.log2 : Int) := by
          rw [← zpow_add₀ two_ne_zero]
          congr 1
          omega
      _ ≤ 2 ^ ((num.log2 : Int) - den.log2 + 1) * den :=
          mul_le_mul_of_nonneg_left hdenLow (two_zpow_pos _).le
  rw [floorLog]
  simp only [← ratio_lt_zpow_iff hden]
  split
  · rename_i hlt
    exact ⟨hlow, by rwa [Int.sub_add_cancel]⟩
  · rename_i hge
    exact ⟨not_lt.mp hge, hhigh⟩

theorem floorLog_eq {num den : Nat} {l : Int} (hnum : 0 < num) (hden : 0 < den)
    (hlow : (2 : ℚ) ^ l ≤ (num : ℚ) / den) (hhigh : (num : ℚ) / den < 2 ^ (l + 1)) :
    floorLog num den = l := by
  obtain ⟨hfloor, hceil⟩ := floorLog_spec hnum hden
  have hup : l < floorLog num den + 1 :=
    (zpow_lt_zpow_iff_right₀ one_lt_two).mp (hlow.trans_lt hceil)
  have hdown : floorLog num den < l + 1 :=
    (zpow_lt_zpow_iff_right₀ one_lt_two).mp (hfloor.trans_lt hhigh)
  omega

/-- A quotient below a power of two has its leading digit below that. -/
theorem floorLog_lt {num den : Nat} {l : Int} (hnum : 0 < num) (hden : 0 < den)
    (hhigh : (num : ℚ) / den < 2 ^ l) : floorLog num den < l :=
  (zpow_lt_zpow_iff_right₀ one_lt_two).mp ((floorLog_spec hnum hden).1.trans_lt hhigh)

/-! ### The bits of a value -/

/-- The bits are those of the sign, the exponent and the fraction. -/
theorem ofParts_fields (d : Double) :
    ofParts d.isNegative (d.exponentField * 0x10000000000000 + d.fraction) = d := by
  obtain ⟨bits⟩ := d
  have hbits : bits.toNat < 2 ^ 64 := bits.toNat_lt
  have hsum : (if (Double.mk bits).isNegative then 0x8000000000000000 else 0) +
      ((Double.mk bits).exponentField * 0x10000000000000 + (Double.mk bits).fraction) =
      bits.toNat := by
    unfold isNegative exponentField fraction
    by_cases h : bits.toNat / 0x8000000000000000 = 1
    · simp only [h, beq_self_eq_true, if_true]
      omega
    · have hne : (bits.toNat / 0x8000000000000000 == 1) = false := beq_false_of_ne h
      simp only [hne, Bool.false_eq_true, if_false]
      omega
  rw [ofParts, hsum, UInt64.ofNat_toNat]

/-- The mantissa carries the exponent with it. -/
theorem ofParts_mantissa (d : Double) :
    ofParts d.isNegative ((d.exponent + 1074).toNat * 0x10000000000000 + d.mantissa) = d := by
  have hfields : (d.exponent + 1074).toNat * 0x10000000000000 + d.mantissa =
      d.exponentField * 0x10000000000000 + d.fraction := by
    unfold exponent mantissa
    split <;> omega
  rw [hfields, ofParts_fields]

theorem fraction_lt (d : Double) : d.fraction < 2 ^ 52 := Nat.mod_lt _ (by decide)

theorem mantissa_lt (d : Double) : d.mantissa < 2 ^ 53 := by
  have hfraction := d.fraction_lt
  unfold mantissa
  split <;> omega

theorem le_exponent (d : Double) : -1074 ≤ d.exponent := by
  unfold exponent
  omega

theorem exponent_le {d : Double} (h : d.isFinite = true) : d.exponent ≤ 971 := by
  have hfield : d.exponentField < 2047 := of_decide_eq_true h
  unfold exponent
  omega

/-- Only values with the least exponent have fewer than 53 digits. -/
theorem le_mantissa {d : Double} (h : -1074 < d.exponent) : 2 ^ 52 ≤ d.mantissa := by
  unfold exponent at h
  unfold mantissa
  rw [if_neg (by omega)]
  omega

theorem mantissa_pos {d : Double} (h : d.isZero = false) : 0 < d.mantissa := by
  have hbits : d.bits.toNat % 0x8000000000000000 ≠ 0 := ne_of_beq_false h
  unfold mantissa exponentField fraction
  split <;> omega

/-- Whether the value is a power of two whose lower neighbour has a smaller unit. -/
def isNarrow (d : Double) : Bool := decide (d.fraction = 0 ∧ 1 < d.exponentField)

theorem isNarrow_iff {d : Double} :
    d.isNarrow = true ↔ d.mantissa = 2 ^ 52 ∧ -1074 < d.exponent := by
  have hfraction := d.fraction_lt
  rw [isNarrow, decide_eq_true_eq]
  unfold mantissa exponent
  split <;> omega

/-! ### The interval -/

/-- How far below the value the interval begins, in its units. -/
def gapBelow (d : Double) : ℚ := if d.isNarrow then 1 / 4 else 1 / 2

/-- A positive number that rounds to the magnitude of a value. -/
structure RoundsTo (d : Double) (x : ℚ) : Prop where
  low : (d.mantissa - d.gapBelow) * 2 ^ d.exponent ≤ x
  high : x ≤ (d.mantissa + 1 / 2) * 2 ^ d.exponent
  odd : d.mantissa % 2 = 1 →
    (d.mantissa - d.gapBelow) * 2 ^ d.exponent < x ∧ x < (d.mantissa + 1 / 2) * 2 ^ d.exponent

theorem gapBelow_le (d : Double) : d.gapBelow ≤ 1 / 2 := by
  unfold gapBelow
  split <;> norm_num

theorem RoundsTo.pos {d : Double} {x : ℚ} (hx : d.RoundsTo x) (hd : d.isZero = false) : 0 < x := by
  have hmantissa : (1 : ℚ) ≤ d.mantissa := by exact_mod_cast mantissa_pos hd
  have hgap := d.gapBelow_le
  have hlow : 0 < (d.mantissa - d.gapBelow) * 2 ^ d.exponent :=
    mul_pos (by linarith) (two_zpow_pos _)
  exact hlow.trans_le hx.low

/-- The interval ends below the next power of two. -/
theorem RoundsTo.lt_zpow {d : Double} {x : ℚ} (hx : d.RoundsTo x) : x < 2 ^ (d.exponent + 53) := by
  have hmantissa : (d.mantissa : ℚ) + 1 ≤ 2 ^ 53 := by exact_mod_cast d.mantissa_lt
  calc x ≤ (d.mantissa + 1 / 2) * 2 ^ d.exponent := hx.high
    _ < 2 ^ 53 * 2 ^ d.exponent := mul_lt_mul_of_pos_right (by linarith) (two_zpow_pos _)
    _ = 2 ^ (d.exponent + 53) := by
        rw [zpow_add₀ two_ne_zero, mul_comm]
        rfl

/-- A quotient in units of a power of two. -/
theorem ratio_eq_scaled {num den : Nat} (hden : 0 < den) (q : Int) :
    (num : ℚ) / den =
      ((num * Nat.pow 2 (-q).toNat : Nat) : ℚ) / (den * Nat.pow 2 q.toNat : Nat) * 2 ^ q := by
  have hden' : (den : ℚ) ≠ 0 := by exact_mod_cast hden.ne'
  rw [zpow_eq_div_pow two_ne_zero]
  simp only [Nat.pow_eq]
  push_cast
  field_simp

/-- What a quotient rounds to in units of a power of two. -/
theorem roundDivEven_scaled {num den m : Nat} (hden : 0 < den) (q : Int)
    (hlow : (m - 1 / 2 : ℚ) * 2 ^ q ≤ num / den) (hhigh : (num : ℚ) / den ≤ (m + 1 / 2) * 2 ^ q)
    (hodd : m % 2 = 1 →
      (m - 1 / 2 : ℚ) * 2 ^ q < num / den ∧ (num : ℚ) / den < (m + 1 / 2) * 2 ^ q) :
    roundDivEven (num * Nat.pow 2 (-q).toNat) (den * Nat.pow 2 q.toNat) = m := by
  rw [ratio_eq_scaled hden q] at hlow hhigh hodd
  have hpos : 0 < den * Nat.pow 2 q.toNat := Nat.mul_pos hden (Nat.pow_pos (by decide))
  generalize num * Nat.pow 2 (-q).toNat = n at *
  generalize den * Nat.pow 2 q.toNat = k at *
  have hk : (0 : ℚ) < k := by exact_mod_cast hpos
  have hunit := two_zpow_pos q
  simp only [mul_lt_mul_iff_left₀ hunit, mul_le_mul_iff_left₀ hunit, le_div_iff₀ hk,
    div_le_iff₀ hk, lt_div_iff₀ hk, div_lt_iff₀ hk] at hlow hhigh hodd
  apply roundDivEven_eq hpos
  · have hlow' : (2 * (m * k) : ℚ) ≤ 2 * n + k := by linarith
    exact_mod_cast hlow'
  · have hhigh' : (2 * n : ℚ) ≤ 2 * (m * k) + k := by linarith
    exact_mod_cast hhigh'
  · intro hm
    obtain ⟨hlow, hhigh⟩ := hodd hm
    have hlow' : (2 * (m * k) : ℚ) < 2 * n + k := by linarith
    have hhigh' : (2 * n : ℚ) < 2 * (m * k) + k := by linarith
    exact ⟨by exact_mod_cast hlow', by exact_mod_cast hhigh'⟩

/-- What `nearest` makes of a unit and a mantissa. -/
theorem nearest_eq_ofParts {negative : Bool} {num den m : Nat} {q : Int} (hnum : 0 < num)
    (hunit : max (floorLog num den - 52) (-1074) = q)
    (hm : roundDivEven (num * Nat.pow 2 (-q).toNat) (den * Nat.pow 2 q.toNat) = m)
    (hfinite : (q + 1074).toNat * 0x10000000000000 + m < 0x7FF0000000000000) :
    nearest negative num den = ofParts negative ((q + 1074).toNat * 0x10000000000000 + m) := by
  rw [nearest, if_neg (by omega)]
  simp only [hunit, hm]
  exact if_pos hfinite

section Nearest

variable {d : Double} {num den : Nat}

/-- At the unit of the value the quotient rounds to its mantissa. -/
theorem nearest_eq_of_unit (hfinite : d.isFinite = true) (hnum : 0 < num) (hden : 0 < den)
    (hx : d.RoundsTo (num / den)) (hunit : max (floorLog num den - 52) (-1074) = d.exponent) :
    nearest d.isNegative num den = d := by
  have hq := d.le_exponent
  have hq' := exponent_le hfinite
  have hm := d.mantissa_lt
  have hwide : (d.mantissa - 1 / 2 : ℚ) * 2 ^ d.exponent ≤
      (d.mantissa - d.gapBelow) * 2 ^ d.exponent := by
    have hgap := d.gapBelow_le
    exact mul_le_mul_of_nonneg_right (by linarith) (two_zpow_pos _).le
  have hround := roundDivEven_scaled hden d.exponent (hwide.trans hx.low) hx.high
    fun hodd => ⟨hwide.trans_lt (hx.odd hodd).1, (hx.odd hodd).2⟩
  rw [nearest_eq_ofParts hnum hunit hround (by omega), d.ofParts_mantissa]

/-- In the quarter below a power of two the mantissa rounds up and carries. -/
theorem nearest_eq_of_carry (hfinite : d.isFinite = true) (hnum : 0 < num) (hden : 0 < den)
    (hx : d.RoundsTo (num / den)) (hq : -1074 < d.exponent)
    (hcarry : (num : ℚ) / den < 2 ^ 52 * 2 ^ d.exponent) :
    nearest d.isNegative num den = d := by
  have hq' := exponent_le hfinite
  have hle := le_mantissa hq
  have hgap := d.gapBelow_le
  have hunit := two_zpow_pos d.exponent
  have hmantissa : d.mantissa = 2 ^ 52 := by
    have hlt := lt_of_mul_lt_mul_right (hx.low.trans_lt hcarry) hunit.le
    have hlt' : (d.mantissa : ℚ) < (2 ^ 52 + 1 : Nat) := by
      push_cast
      linarith
    have hlt'' : d.mantissa < 2 ^ 52 + 1 := by exact_mod_cast hlt'
    omega
  have hquarter : d.gapBelow = 1 / 4 := if_pos (isNarrow_iff.mpr ⟨hmantissa, hq⟩)
  have hhalf : (2 : ℚ) ^ d.exponent = 2 * 2 ^ (d.exponent - 1) := by
    rw [← zpow_one_add₀ two_ne_zero, add_sub_cancel]
  have hlow := hx.low
  rw [hmantissa, hquarter] at hlow
  have hsmall := two_zpow_pos (d.exponent - 1)
  have hfloor : floorLog num den = d.exponent + 51 := by
    apply floorLog_eq hnum hden
    · rw [zpow_add₀ two_ne_zero]
      have hpow : (2 : ℚ) ^ (51 : Int) = 2251799813685248 := by norm_num
      push_cast at hlow
      rw [hpow]
      linarith
    · rw [add_assoc, zpow_add₀ two_ne_zero, mul_comm]
      exact hcarry
  have hround : roundDivEven (num * Nat.pow 2 (-(d.exponent - 1)).toNat)
      (den * Nat.pow 2 (d.exponent - 1).toNat) = 2 ^ 53 := by
    apply roundDivEven_scaled hden
    · push_cast at hlow ⊢
      linarith
    · push_cast
      linarith
    · intro hodd
      cases hodd
  have hmagnitude : (d.exponent - 1 + 1074).toNat * 0x10000000000000 + 2 ^ 53 =
      (d.exponent + 1074).toNat * 0x10000000000000 + d.mantissa := by
    omega
  rw [nearest_eq_ofParts hnum (q := d.exponent - 1) (by omega) hround (by omega), hmagnitude,
    d.ofParts_mantissa]

/-- **Rounding hits the value.**  A quotient in the interval of a value is rounded to it. -/
theorem nearest_eq (hfinite : d.isFinite = true) (hd : d.isZero = false) (hden : 0 < den)
    (hx : d.RoundsTo (num / den)) : nearest d.isNegative num den = d := by
  have hq := d.le_exponent
  have hnum : 0 < num := by
    have hpos := hx.pos hd
    rcases Nat.eq_zero_or_pos num with rfl | hnum
    · simp at hpos
    · exact hnum
  have hceil : floorLog num den < d.exponent + 53 := floorLog_lt hnum hden hx.lt_zpow
  rcases Int.lt_or_eq_of_le hq with hq | hq
  · rcases lt_or_ge ((num : ℚ) / den) (2 ^ 52 * 2 ^ d.exponent) with hcarry | hfull
    · exact nearest_eq_of_carry hfinite hnum hden hx hq hcarry
    · have hfloor : floorLog num den = d.exponent + 52 := by
        apply floorLog_eq hnum hden
        · rw [zpow_add₀ two_ne_zero, mul_comm]
          exact hfull
        · rw [add_assoc]
          exact hx.lt_zpow
      exact nearest_eq_of_unit hfinite hnum hden hx (by omega)
  · exact nearest_eq_of_unit hfinite hnum hden hx (by omega)

end Nearest

/-! ### Decimals -/

theorem ten_zpow_pos (e : Int) : (0 : ℚ) < 10 ^ e := by positivity

/-- Three binary digits are fewer than a decimal one. -/
theorem two_zpow_le_ten_zpow {a b : Int} (h : a ≤ 3 * b) (hb : 0 ≤ b) :
    (2 : ℚ) ^ a ≤ 10 ^ b := by
  obtain ⟨k, rfl⟩ := Int.eq_ofNat_of_zero_le hb
  calc (2 : ℚ) ^ a ≤ 2 ^ ((3 * k : Nat) : Int) :=
        zpow_le_zpow_right₀ one_le_two (by push_cast; exact h)
    _ = 8 ^ k := by
        rw [zpow_natCast, pow_mul]
        norm_num
    _ ≤ 10 ^ (k : Int) := by
        rw [zpow_natCast]
        exact pow_le_pow_left₀ (by norm_num) (by norm_num) k

/-- A decimal lies between the powers of ten that its number of digits names. -/
theorem decimal_bounds {digits : Nat} (hdigits : digits ≠ 0) (e : Int) :
    (10 : ℚ) ^ ((Nat.toDigits 10 digits).length + e - 1) ≤ digits * 10 ^ e ∧
      (digits * 10 ^ e : ℚ) < 10 ^ ((Nat.toDigits 10 digits).length + e) := by
  obtain ⟨k, hk⟩ : ∃ k, (Nat.toDigits 10 digits).length = k + 1 :=
    Nat.exists_eq_succ_of_ne_zero (by simp [Nat.toDigits_ne_nil])
  have hhigh : digits < 10 ^ (k + 1) :=
    (Nat.length_toDigits_le_iff (by decide) (Nat.succ_pos k)).mp hk.le
  have hlow : 10 ^ k ≤ digits := by
    rcases Nat.eq_zero_or_pos k with rfl | hpos
    · exact Nat.pos_of_ne_zero hdigits
    · by_contra hlt
      have hshort := (Nat.length_toDigits_le_iff (b := 10) (by decide) hpos).mpr (not_le.mp hlt)
      omega
  have hlow' : (10 : ℚ) ^ (k : Int) ≤ digits := by
    rw [zpow_natCast]
    exact_mod_cast hlow
  have hhigh' : (digits : ℚ) < 10 ^ ((k + 1 : Nat) : Int) := by
    rw [zpow_natCast]
    exact_mod_cast hhigh
  rw [hk]
  constructor
  · have hexp : ((k + 1 : Nat) : Int) + e - 1 = k + e := by omega
    rw [hexp, zpow_add₀ (by norm_num)]
    exact mul_le_mul_of_nonneg_right hlow' (ten_zpow_pos e).le
  · rw [zpow_add₀ (by norm_num)]
    exact mul_lt_mul_of_pos_right hhigh' (ten_zpow_pos e)

/-- No interval reaches down to where the number of digits settles a decimal. -/
theorem RoundsTo.le {d : Double} {x : ℚ} (hx : d.RoundsTo x) (hd : d.isZero = false) :
    (2 : ℚ) ^ (-1075 : Int) ≤ x := by
  have hmantissa : (1 : ℚ) ≤ d.mantissa := by exact_mod_cast mantissa_pos hd
  have hgap := d.gapBelow_le
  calc (2 : ℚ) ^ (-1075 : Int) = 1 / 2 * 2 ^ (-1074 : Int) := by
        rw [one_div, ← zpow_neg_one, ← zpow_add₀ two_ne_zero]
        rfl
    _ ≤ (d.mantissa - d.gapBelow) * 2 ^ d.exponent :=
        mul_le_mul (by linarith) (zpow_le_zpow_right₀ one_le_two d.le_exponent)
          (two_zpow_pos _).le (by linarith)
    _ ≤ x := hx.low

/-- The digits of a decimal in the interval of a value do not settle it. -/
theorem RoundsTo.size_bounds {d : Double} (hfinite : d.isFinite = true) (hd : d.isZero = false)
    {digits : Nat} {e : Int} (hx : d.RoundsTo (digits * 10 ^ e)) :
    digits ≠ 0 ∧ -400 ≤ ((Nat.toDigits 10 digits).length : Int) + e ∧
      ((Nat.toDigits 10 digits).length : Int) + e ≤ 400 := by
  have hdigits : digits ≠ 0 := by
    rintro rfl
    have hpos := hx.pos hd
    simp at hpos
  obtain ⟨hlow, hhigh⟩ := decimal_bounds hdigits e
  refine ⟨hdigits, ?_, ?_⟩
  · by_contra hsize
    have habove := hx.le hd
    have hbelow : (digits * 10 ^ e : ℚ) < 10 ^ (-400 : Int) :=
      hhigh.trans_le (zpow_le_zpow_right₀ (by norm_num) (by omega))
    have hpowers : (10 : ℚ) ^ (-400 : Int) ≤ 2 ^ (-1075 : Int) := by
      rw [zpow_neg, zpow_neg]
      exact inv_anti₀ (two_zpow_pos 1075) (two_zpow_le_ten_zpow (by decide) (by decide))
    exact (hbelow.trans_le (hpowers.trans habove)).false
  · by_contra hsize
    have hexponent := exponent_le hfinite
    have habove : (10 : ℚ) ^ (400 : Int) ≤ digits * 10 ^ e :=
      (zpow_le_zpow_right₀ (by norm_num) (by omega)).trans hlow
    have hbelow : (digits * 10 ^ e : ℚ) < 2 ^ (1024 : Int) :=
      hx.lt_zpow.trans_le (zpow_le_zpow_right₀ one_le_two (by omega))
    have hpowers : (2 : ℚ) ^ (1024 : Int) ≤ 10 ^ (400 : Int) :=
      two_zpow_le_ten_zpow (by decide) (by decide)
    exact (hbelow.trans_le (hpowers.trans habove)).false

/-- A decimal as a quotient of natural numbers. -/
theorem decimal_eq_ratio (digits : Nat) (e : Int) :
    (digits * 10 ^ e : ℚ) =
      ((digits * Nat.pow 10 e.toNat : Nat) : ℚ) / (Nat.pow 10 (-e).toNat : Nat) := by
  rw [zpow_eq_div_pow (by norm_num), ← mul_div_assoc]
  simp only [Nat.pow_eq]
  push_cast
  rfl

/-- **Decimals.**  A decimal in the interval of a value is read as the value. -/
theorem ofDecimal_eq {d : Double} (hfinite : d.isFinite = true) (hd : d.isZero = false)
    {digits : Nat} {e : Int} (hx : d.RoundsTo (digits * 10 ^ e)) :
    ofDecimal d.isNegative digits e = d := by
  obtain ⟨hdigits, hsmall, hlarge⟩ := hx.size_bounds hfinite hd
  rw [ofDecimal, if_neg hdigits]
  simp only [if_neg (not_lt.mpr hlarge), if_neg (not_lt.mpr hsmall)]
  exact nearest_eq hfinite hd (Nat.pow_pos (by decide)) (by rwa [← decimal_eq_ratio])

theorem zero_isNegative {d : Double} (hd : d.isZero = true) : zero d.isNegative = d := by
  obtain ⟨bits⟩ := d
  have hbits : bits.toNat < 2 ^ 64 := bits.toNat_lt
  have hrest : bits.toNat % 0x8000000000000000 = 0 := eq_of_beq hd
  have hfields := ofParts_fields ⟨bits⟩
  have hmagnitude : (Double.mk bits).exponentField * 0x10000000000000 +
      (Double.mk bits).fraction = 0 := by
    unfold exponentField fraction
    dsimp only
    omega
  rwa [hmagnitude] at hfields

end Double

end TokenSheets
