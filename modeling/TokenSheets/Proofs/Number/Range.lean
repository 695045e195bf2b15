/-
TokenSheets/Proofs/Number/Range.lean

Where doubles overflow.

The greatest finite value has 53 binary digits, all of them one, and from
halfway between it and the next power of two on everything rounds to infinity
(`overflowBound`).  The halfway point itself has an odd mantissa below it, so it
goes up.  Of the quotients that `nearest` is given, those with a leading digit
further down cannot reach the point and those further up are behind it; what is
left is decided by how the mantissa rounds (`isFinite_nearest_iff`).
-/
import TokenSheets.Proofs.Number.Finite
import TokenSheets.Proofs.Number.Rounding

namespace TokenSheets

/-! ### Quotients -/

theorem le_roundDivEven (num den : Nat) : num / den ≤ roundDivEven num den := by
  unfold roundDivEven
  simp only
  split <;> omega

/-- A quotient rounds to less than an even number exactly if it is more than half below it: at the
half it would go up. -/
theorem roundDivEven_lt_iff (num : Nat) {den k : Nat} (hden : 0 < den) (hk : k % 2 = 0) :
    roundDivEven num den < k ↔ 2 * num + den < 2 * (k * den) := by
  have hsplit : den * (num / den) + num % den = num := Nat.div_add_mod num den
  have hrest : num % den < den := Nat.mod_lt num hden
  rw [Nat.mul_comm den] at hsplit
  rcases Nat.lt_trichotomy (num / den + 1) k with hbelow | heq | habove
  · have hround := roundDivEven_le num den
    have hmul : (num / den + 2) * den ≤ k * den := Nat.mul_le_mul_right den (by omega)
    rw [Nat.add_mul] at hmul
    constructor <;> omega
  · subst heq
    rw [Nat.add_mul, roundDivEven]
    split <;> omega
  · have hround := le_roundDivEven num den
    have hmul : k * den ≤ num / den * den := Nat.mul_le_mul_right den (by omega)
    constructor <;> omega

theorem scaled_pos {den : Nat} (hden : 0 < den) (q : Int) : 0 < den * Nat.pow 2 q.toNat :=
  Nat.mul_pos hden (Nat.pow_pos (by decide))

/-- A quotient in units of a power of two, compared with another one. -/
theorem scaled_lt_iff (num : Nat) {den : Nat} (hden : 0 < den) (q : Int) (k : Nat) :
    num * Nat.pow 2 (-q).toNat < 2 ^ k * (den * Nat.pow 2 q.toNat) ↔
      (num : ℚ) / den < 2 ^ (q + k) := by
  have hpos := scaled_pos hden q
  rw [Double.ratio_eq_scaled hden q, add_comm, zpow_add₀ two_ne_zero,
    mul_lt_mul_iff_left₀ (two_zpow_pos q), zpow_natCast]
  generalize num * Nat.pow 2 (-q).toNat = n at *
  generalize den * Nat.pow 2 q.toNat = d at *
  have hd : (0 : ℚ) < d := by exact_mod_cast hpos
  rw [div_lt_iff₀ hd]
  exact_mod_cast Iff.rfl

/-! ### The point of overflow -/

/-- Halfway between the greatest finite value and the next power of two. -/
def overflowBound : Nat := 2 ^ 1024 - 2 ^ 970

theorem overflowBound_eq : overflowBound = (2 ^ 54 - 1) * 2 ^ 970 := by
  have hpow : (2 : Nat) ^ 1024 = 2 ^ 54 * 2 ^ 970 := by rw [← pow_add]
  rw [overflowBound, hpow, Nat.sub_mul, Nat.one_mul]

namespace Double

theorem isFinite_infinity (negative : Bool) : (infinity negative).isFinite = false := by
  cases negative <;> decide

section
variable {negative : Bool} {num den : Nat}

/-- A quotient that does not round to a finite value goes to the infinity of its sign. -/
theorem isFinite_nearest_or (negative : Bool) (num den : Nat) :
    (nearest negative num den).isFinite = true ∨ nearest negative num den = infinity negative := by
  rw [nearest]
  split
  · exact .inl (isFinite_zero negative)
  · simp only
    split
    · rename_i hfits
      exact .inl (isFinite_ofParts hfits)
    · exact .inr rfl

/-- Within the bits the sign and the mantissa leave, the value is finite. -/
theorem isFinite_nearest_iff_magnitude {q : Int} {m : Nat} (hnum : 0 < num)
    (hunit : max (floorLog num den - 52) (-1074) = q)
    (hm : roundDivEven (num * Nat.pow 2 (-q).toNat) (den * Nat.pow 2 q.toNat) = m) :
    (nearest negative num den).isFinite = true ↔
      (q + 1074).toNat * 0x10000000000000 + m < 0x7FF0000000000000 := by
  rw [nearest, if_neg (by omega)]
  simp only [hunit, hm]
  split
  · rename_i hfits
    exact iff_of_true (isFinite_ofParts hfits) hfits
  · rename_i hfits
    exact iff_of_false (by simp [isFinite_infinity]) hfits

section
variable (hnum : 0 < num) (hden : 0 < den)
include hnum hden

/-- Below the topmost unit the mantissa has at most 53 digits and a carry, which still fits. -/
theorem isFinite_nearest_of_floorLog_lt (h : floorLog num den < 1023) :
    (nearest negative num den).isFinite = true ∧ num < overflowBound * den := by
  have hlast : (2 : Nat) ^ 1023 = 2 ^ 53 * 2 ^ 970 := by rw [← pow_add]
  have hhigh := (floorLog_spec hnum hden).2
  obtain ⟨q, hq⟩ : ∃ q, max (floorLog num den - 52) (-1074) = q := ⟨_, rfl⟩
  have hd := scaled_pos hden q
  have hscaled := (scaled_lt_iff num hden q 53).mpr
    (hhigh.trans_le (zpow_le_zpow_right₀ one_le_two (by push_cast; omega)))
  have hbelow := (scaled_lt_iff num hden 0 1023).mpr
    (hhigh.trans_le (zpow_le_zpow_right₀ one_le_two (by push_cast; omega)))
  simp only [Int.neg_zero, Int.toNat_zero, Nat.pow_eq, pow_zero, Nat.mul_one, hlast] at hbelow
  constructor
  · have hquot := (Nat.div_lt_iff_lt_mul hd).mpr hscaled
    have hround := roundDivEven_le (num * Nat.pow 2 (-q).toNat) (den * Nat.pow 2 q.toNat)
    rw [isFinite_nearest_iff_magnitude hnum hq rfl]
    omega
  · rw [overflowBound_eq]
    calc num < 2 ^ 53 * 2 ^ 970 * den := hbelow
      _ ≤ (2 ^ 54 - 1) * 2 ^ 970 * den := by gcongr; norm_num

/-- At the topmost unit the mantissa must not carry. -/
theorem isFinite_nearest_iff_of_floorLog_eq (h : floorLog num den = 1023) :
    (nearest negative num den).isFinite = true ↔ num < overflowBound * den := by
  have hunit : (2 : Nat) ^ 971 = 2 * 2 ^ 970 := by rw [pow_succ, Nat.mul_comm]
  have hd := scaled_pos hden 971
  obtain ⟨m, hm⟩ : ∃ m, roundDivEven (num * Nat.pow 2 (-971 : Int).toNat)
      (den * Nat.pow 2 (971 : Int).toNat) = m := ⟨_, rfl⟩
  have hround := roundDivEven_lt_iff (num * Nat.pow 2 (-971 : Int).toNat) (k := 2 ^ 53) hd
    (by decide)
  rw [hm] at hround
  have hup : (-971 : Int).toNat = 0 := by decide
  have hdown : (971 : Int).toNat = 971 := by decide
  simp only [hup, hdown, Nat.pow_eq, pow_zero, Nat.mul_one, hunit] at hround
  have hmagnitude : (971 + 1074 : Int).toNat * 0x10000000000000 + m < 0x7FF0000000000000 ↔
      m < 2 ^ 53 := by
    omega
  rw [isFinite_nearest_iff_magnitude hnum (by omega) hm, hmagnitude, hround, overflowBound_eq,
    Nat.mul_left_comm den, Nat.mul_comm den, Nat.mul_assoc]
  omega

/-- Above it the unit alone is too large. -/
theorem not_isFinite_nearest_of_lt_floorLog (h : 1023 < floorLog num den) :
    ¬ (nearest negative num den).isFinite = true ∧ ¬ num < overflowBound * den := by
  have htop : (2 : Nat) ^ 1024 = 2 ^ 54 * 2 ^ 970 := by rw [← pow_add]
  have hlow := (floorLog_spec hnum hden).1
  obtain ⟨q, hq⟩ : ∃ q, max (floorLog num den - 52) (-1074) = q := ⟨_, rfl⟩
  have hd := scaled_pos hden q
  have hscaled := (scaled_lt_iff num hden q 52).not.mpr
    (not_lt.mpr ((zpow_le_zpow_right₀ one_le_two (by push_cast; omega)).trans hlow))
  have habove := (scaled_lt_iff num hden 0 1024).not.mpr
    (not_lt.mpr ((zpow_le_zpow_right₀ one_le_two (by push_cast; omega)).trans hlow))
  simp only [Int.neg_zero, Int.toNat_zero, Nat.pow_eq, pow_zero, Nat.mul_one, htop] at habove
  constructor
  · have hquot := (Nat.div_lt_iff_lt_mul hd).not.mpr hscaled
    have hround := le_roundDivEven (num * Nat.pow 2 (-q).toNat) (den * Nat.pow 2 q.toNat)
    rw [isFinite_nearest_iff_magnitude hnum hq rfl]
    omega
  · rw [overflowBound_eq]
    refine fun hlt => habove (hlt.trans_le ?_)
    gcongr
    norm_num

end

/-- **Overflow.**  A quotient rounds to a finite value exactly if it is below the bound. -/
theorem isFinite_nearest_iff (hden : 0 < den) :
    (nearest negative num den).isFinite = true ↔ num < overflowBound * den := by
  rcases Nat.eq_zero_or_pos num with rfl | hnum
  · refine iff_of_true (isFinite_zero negative) ?_
    rw [overflowBound_eq]
    positivity
  rcases lt_trichotomy (floorLog num den) 1023 with hsmall | htop | hlarge
  · obtain ⟨hfinite, hlt⟩ := isFinite_nearest_of_floorLog_lt hnum hden hsmall
    exact iff_of_true hfinite hlt
  · exact isFinite_nearest_iff_of_floorLog_eq hnum hden htop
  · obtain ⟨hinfinite, hge⟩ := not_isFinite_nearest_of_lt_floorLog hnum hden hlarge
    exact iff_of_false hinfinite hge

end

/-! ### Finite values -/

theorem denominator_pos (d : Double) : 0 < d.denominator := Nat.pow_pos (by decide)

/-- A finite value is below the bound by more than one. -/
theorem numerator_add_one_lt {d : Double} (h : d.isFinite = true) :
    d.numerator + 1 < overflowBound := by
  have hmantissa := d.mantissa_lt
  have hexponent : d.exponent.toNat ≤ 971 := by
    have hle := exponent_le h
    omega
  have hunit : (2 : Nat) ^ 971 = 2 * 2 ^ 970 := by rw [pow_succ, Nat.mul_comm]
  have hpos := Nat.lt_two_pow_self (n := 970)
  have hle := Nat.mul_le_mul (Nat.le_sub_one_of_lt hmantissa)
    (Nat.pow_le_pow_right Nat.two_pos hexponent)
  simp only [hunit] at hle
  rw [numerator, Nat.pow_eq, overflowBound_eq]
  omega

/-- Dividing by a natural number does not overflow. -/
theorem isFinite_divNat {d : Double} (h : d.isFinite = true) {k : Nat} (hk : 0 < k) :
    (d.divNat k).isFinite = true := by
  have hden : 0 < d.denominator * k := Nat.mul_pos d.denominator_pos hk
  rw [divNat, if_pos h, isFinite_nearest_iff hden]
  have hlt := numerator_add_one_lt h
  calc d.numerator < overflowBound := by omega
    _ ≤ overflowBound * (d.denominator * k) := Nat.le_mul_of_pos_right _ hden

/-- Neither does rounding to an integer. -/
theorem isFinite_roundHalfAway {d : Double} (h : d.isFinite = true) :
    d.roundHalfAway.isFinite = true := by
  have hden := d.denominator_pos
  have hround : roundDivUp d.numerator d.denominator ≤ d.numerator + 1 := by
    rw [roundDivUp, Nat.div_le_iff_le_mul_add_pred (by omega)]
    have hmul : d.numerator ≤ d.denominator * d.numerator := Nat.le_mul_of_pos_left _ hden
    rw [Nat.mul_add, Nat.mul_assoc]
    omega
  rw [roundHalfAway, if_pos h, isFinite_nearest_iff Nat.one_pos]
  have hlt := numerator_add_one_lt h
  omega

end Double

end TokenSheets
