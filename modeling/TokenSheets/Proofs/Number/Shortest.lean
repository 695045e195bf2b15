/-
TokenSheets/Proofs/Number/Shortest.lean

The shortest decimal of a value rounds to it.

A window holds the interval of a value in units of a power of ten.  The unit is
so small that the value and the ends of the interval are whole numbers of it
(`ofDouble_eq`), and so what a window holds is in the interval
(`roundsTo_of_holds`).  Every grid point that is taken is held by the window,
and so is the value itself, in case no grid had a point.  Leaving out zeros at
the end changes the digits and not the number.
-/
import TokenSheets.Proofs.Number.Rounding

namespace TokenSheets

/-! ### Decimals -/

/-- The number that a decimal stands for. -/
def Decimal.toRat (d : Decimal) : ℚ := d.digits * 10 ^ d.exponent

theorem Decimal.toRat_dropZeros (fuel : Nat) (d : Decimal) :
    (dropZeros fuel d).toRat = d.toRat := by
  induction fuel generalizing d with
  | zero => rfl
  | succ fuel ih =>
    rw [dropZeros]
    split
    · rename_i h
      have hdigits : (d.digits : ℚ) = (d.digits / 10 : Nat) * 10 := by
        exact_mod_cast (Nat.div_mul_cancel (Nat.dvd_of_mod_eq_zero h.1)).symm
      rw [ih, toRat, toRat, hdigits, zpow_add_one₀ (by norm_num)]
      ring
    · rfl

namespace Window

/-! ### What a window holds -/

/-- A value lies strictly within its window. -/
structure IsProper (w : Window) : Prop where
  low : w.low < w.value
  high : w.value < w.high

theorem IsProper.holds_value {w : Window} (hw : w.IsProper) : w.holds w.value = true := by
  have hlow := hw.low
  have hhigh := hw.high
  unfold holds
  split
  · rw [Bool.and_eq_true, decide_eq_true_eq, decide_eq_true_eq]
    omega
  · rw [Bool.and_eq_true, decide_eq_true_eq, decide_eq_true_eq]
    omega

theorem holds_of_onGrid {w : Window} {grid x : Nat} (h : w.onGrid grid = some x) :
    w.holds x = true := by
  rw [onGrid] at h
  split at h
  · rename_i hbelow habove
    dsimp only at h
    split at h
    · rw [← Option.some.inj h]
      exact hbelow
    · rw [← Option.some.inj h]
      exact habove
  · rename_i hbelow _
    rw [← Option.some.inj h]
    exact hbelow
  · rename_i _ habove
    rw [← Option.some.inj h]
    exact habove
  · cases h

theorem holds_shortest {w : Window} (hw : w.IsProper) : w.holds w.shortest = true := by
  rw [shortest]
  cases hfound : (List.range 17).findSome? fun n =>
      w.onGrid (Nat.pow 10 ((Nat.toDigits 10 w.value).length - (n + 1))) with
  | none => exact hw.holds_value
  | some x =>
    obtain ⟨n, -, hn⟩ := List.exists_of_findSome?_eq_some hfound
    exact holds_of_onGrid hn

end Window

namespace Double

/-! ### Windows of doubles -/

/-- A quarter of a unit of the value, in units of the window. -/
def quarterStep (d : Double) : Nat := 2 ^ d.exponent.toNat * 5 ^ ((-d.exponent).toNat + 2)

theorem quarterStep_pos (d : Double) : 0 < d.quarterStep := by
  unfold quarterStep
  positivity

/-- The division by a power of two leaves no rest. -/
theorem step_eq (d : Double) :
    Nat.pow 2 d.exponent.toNat * Nat.pow 10 ((-d.exponent).toNat + 2) /
      Nat.pow 2 (-d.exponent).toNat = 4 * d.quarterStep := by
  apply Nat.div_eq_of_eq_mul_left (Nat.pow_pos (by decide))
  have hten (n : Nat) : 10 ^ n = 2 ^ n * 5 ^ n := by rw [← Nat.mul_pow]
  simp only [Nat.pow_eq, quarterStep, hten]
  ring

/-- The window of a value, without a division. -/
theorem ofDouble_eq (d : Double) :
    Window.ofDouble d =
      { unit := -(((-d.exponent).toNat + 2 : Nat) : Int)
        value := d.mantissa * (4 * d.quarterStep)
        low := d.mantissa * (4 * d.quarterStep) - (if d.isNarrow then 1 else 2) * d.quarterStep
        high := d.mantissa * (4 * d.quarterStep) + 2 * d.quarterStep
        closed := d.mantissa % 2 == 0 } := by
  have hquarter : 4 * d.quarterStep / 4 = d.quarterStep := by omega
  have hhalf : 4 * d.quarterStep / 2 = 2 * d.quarterStep := by omega
  simp only [Window.ofDouble, step_eq, hquarter, hhalf, isNarrow, decide_eq_true_eq, ite_mul,
    Nat.one_mul]

theorem isProper_ofDouble {d : Double} (hd : d.isZero = false) : (Window.ofDouble d).IsProper := by
  have hm := mantissa_pos hd
  have hu := d.quarterStep_pos
  have hvalue : 4 * d.quarterStep ≤ d.mantissa * (4 * d.quarterStep) :=
    Nat.le_mul_of_pos_left _ hm
  rw [ofDouble_eq]
  constructor
  · dsimp only
    split <;> omega
  · dsimp only
    omega

/-- A unit of the value in units of the window. -/
theorem two_zpow_exponent (d : Double) :
    (2 : ℚ) ^ d.exponent = 4 * d.quarterStep * 10 ^ (Window.ofDouble d).unit := by
  have hten : (10 : ℚ) ^ ((-d.exponent).toNat + 2) =
      2 ^ (-d.exponent).toNat * 4 * 5 ^ ((-d.exponent).toNat + 2) := by
    rw [pow_add, pow_add, show (10 : ℚ) = 2 * 5 by norm_num, mul_pow]
    ring
  rw [ofDouble_eq]
  dsimp only
  rw [zpow_neg, zpow_natCast, hten, zpow_eq_div_pow two_ne_zero, quarterStep]
  push_cast
  field_simp

/-- What the window of a value holds is in its interval. -/
theorem roundsTo_of_holds {d : Double} (hd : d.isZero = false) {x : Nat}
    (hx : (Window.ofDouble d).holds x = true) :
    d.RoundsTo (x * 10 ^ (Window.ofDouble d).unit) := by
  have hm := mantissa_pos hd
  have hvalue : 4 * d.quarterStep ≤ d.mantissa * (4 * d.quarterStep) :=
    Nat.le_mul_of_pos_left _ hm
  have hunit : (0 : ℚ) < 10 ^ (Window.ofDouble d).unit := ten_zpow_pos _
  -- the ends of the interval, in units of the window
  have hlow : (d.mantissa - d.gapBelow) * 2 ^ d.exponent =
      ((Window.ofDouble d).low : ℚ) * 10 ^ (Window.ofDouble d).unit := by
    rw [two_zpow_exponent, gapBelow, ofDouble_eq]
    dsimp only
    split
    · rw [Nat.cast_sub (by omega)]
      push_cast
      ring
    · rw [Nat.cast_sub (by omega)]
      push_cast
      ring
  have hhigh : (d.mantissa + 1 / 2) * 2 ^ d.exponent =
      ((Window.ofDouble d).high : ℚ) * 10 ^ (Window.ofDouble d).unit := by
    rw [two_zpow_exponent, ofDouble_eq]
    push_cast
    ring
  have hclosed : (Window.ofDouble d).closed = (d.mantissa % 2 == 0) := by rw [ofDouble_eq]
  rw [Window.holds, hclosed] at hx
  have hwithin : (Window.ofDouble d).low ≤ x ∧ x ≤ (Window.ofDouble d).high := by
    split at hx
    · rwa [Bool.and_eq_true, decide_eq_true_eq, decide_eq_true_eq] at hx
    · rw [Bool.and_eq_true, decide_eq_true_eq, decide_eq_true_eq] at hx
      exact ⟨hx.1.le, hx.2.le⟩
  constructor
  · rw [hlow, mul_le_mul_iff_left₀ hunit]
    exact_mod_cast hwithin.1
  · rw [hhigh, mul_le_mul_iff_left₀ hunit]
    exact_mod_cast hwithin.2
  · intro hodd
    rw [if_neg (by simp [hodd]), Bool.and_eq_true, decide_eq_true_eq, decide_eq_true_eq] at hx
    rw [hlow, hhigh, mul_lt_mul_iff_left₀ hunit, mul_lt_mul_iff_left₀ hunit]
    exact_mod_cast hx

/-- **The shortest decimal** of a value rounds to it. -/
theorem roundsTo_shortest {d : Double} (hd : d.isZero = false) : d.RoundsTo d.shortest.toRat := by
  rw [shortest, if_neg (by simp [hd])]
  dsimp only
  rw [Decimal.toRat_dropZeros]
  exact roundsTo_of_holds hd (Window.holds_shortest (isProper_ofDouble hd))

end Double

end TokenSheets
