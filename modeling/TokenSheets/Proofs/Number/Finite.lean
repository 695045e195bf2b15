/-
TokenSheets/Proofs/Number/Finite.lean

Numbers of documents are finite doubles.

An integer of 64 bits has its leading digit at place 63 at most, so the unit of
its double is `2 ^ 11` at most, and the mantissa keeps to 53 digits and a carry.
Both are far from where a double overflows.
-/
import Mathlib.Tactic.Positivity
import TokenSheets.Proofs.Json.WellFormed

namespace TokenSheets

theorem roundDivEven_le (num den : Nat) : roundDivEven num den ≤ num / den + 1 := by
  unfold roundDivEven
  simp only
  split <;> omega

namespace Double

/-- The bits below the sign decide whether a value is finite. -/
theorem isFinite_ofParts {negative : Bool} {magnitude : Nat}
    (h : magnitude < 0x7FF0000000000000) : (ofParts negative magnitude).isFinite = true := by
  have hbits : (UInt64.ofNat ((if negative then 0x8000000000000000 else 0) + magnitude)).toNat =
      (if negative then 0x8000000000000000 else 0) + magnitude := by
    rw [UInt64.toNat_ofNat']
    apply Nat.mod_eq_of_lt
    split <;> omega
  simp only [isFinite, exponentField, ofParts, hbits, decide_eq_true_eq]
  split <;> omega

theorem isFinite_zero (negative : Bool) : (zero negative).isFinite = true :=
  isFinite_ofParts (by decide)

/-- The leading binary digit of a natural number. -/
theorem floorLog_one {n : Nat} (h : n ≠ 0) : floorLog n 1 = n.log2 := by
  have hlog : Nat.log2 1 = 0 := by decide
  have hle : 2 ^ n.log2 ≤ n := Nat.log2_self_le h
  unfold floorLog
  simp only [hlog, Int.ofNat_zero, Int.sub_zero, Int.toNat_natCast]
  have hneg : (-(n.log2 : Int)).toNat = 0 := by omega
  rw [hneg, if_neg]
  simp only [Nat.pow_eq, Nat.pow_zero, Nat.mul_one, Nat.one_mul]
  omega

/-- The mantissa of a natural number keeps to 53 binary digits and a carry. -/
theorem mantissa_le (n : Nat) :
    roundDivEven (n * Nat.pow 2 (-((n.log2 : Int) - 52)).toNat)
      (1 * Nat.pow 2 ((n.log2 : Int) - 52).toNat) ≤ 2 ^ 53 + 1 := by
  have hlt : n < 2 ^ (n.log2 + 1) := Nat.lt_log2_self
  have hquot : n * Nat.pow 2 (-((n.log2 : Int) - 52)).toNat /
      (1 * Nat.pow 2 ((n.log2 : Int) - 52).toNat) < 2 ^ 53 := by
    simp only [Nat.pow_eq, Nat.one_mul]
    rw [Nat.div_lt_iff_lt_mul (by positivity), ← pow_add]
    by_cases hsmall : n.log2 < 52
    · have hup : (-((n.log2 : Int) - 52)).toNat = 52 - n.log2 := by omega
      have hdown : ((n.log2 : Int) - 52).toNat = 0 := by omega
      have hexp : n.log2 + 1 + (52 - n.log2) = 53 := by omega
      rw [hup, hdown, Nat.add_zero]
      calc n * 2 ^ (52 - n.log2) < 2 ^ (n.log2 + 1) * 2 ^ (52 - n.log2) :=
            Nat.mul_lt_mul_of_pos_right hlt (by positivity)
        _ = 2 ^ 53 := by rw [← pow_add, hexp]
    · have hup : (-((n.log2 : Int) - 52)).toNat = 0 := by omega
      have hexp : 53 + ((n.log2 : Int) - 52).toNat = n.log2 + 1 := by omega
      rw [hup, hexp, pow_zero, Nat.mul_one]
      exact hlt
  have hround := roundDivEven_le (n * Nat.pow 2 (-((n.log2 : Int) - 52)).toNat)
    (1 * Nat.pow 2 ((n.log2 : Int) - 52).toNat)
  omega

/-- Natural numbers below `2 ^ 64` have finite doubles. -/
theorem isFinite_nearest_one {negative : Bool} {n : Nat} (h : n < 0x10000000000000000) :
    (nearest negative n 1).isFinite = true := by
  by_cases hn : n = 0
  · subst hn
    exact isFinite_zero negative
  · have hlog : n.log2 < 64 := (Nat.log2_lt hn).mpr h
    have hq : max (floorLog n 1 - 52) (-1074) = (n.log2 : Int) - 52 := by
      rw [floorLog_one hn]
      omega
    have hm := mantissa_le n
    unfold nearest
    rw [if_neg hn]
    simp only [hq]
    have hmagnitude : ((n.log2 : Int) - 52 + 1074).toNat * 0x10000000000000 +
        roundDivEven (n * Nat.pow 2 (-((n.log2 : Int) - 52)).toNat)
          (1 * Nat.pow 2 ((n.log2 : Int) - 52).toNat) < 0x7FF0000000000000 := by
      omega
    rw [if_pos hmagnitude]
    exact isFinite_ofParts hmagnitude

end Double

/-- The double of a number that a document can hold is finite. -/
theorem Json.Number.isFinite_toDouble {n : Json.Number} (h : n.InRange) :
    n.toDouble.isFinite = true := by
  cases n with
  | int i =>
    obtain ⟨hlow, hhigh⟩ := h
    exact Double.isFinite_nearest_one (by omega)
  | double d => exact h

end TokenSheets
