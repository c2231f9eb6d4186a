import Mathlib.Algebra.Order.Field.Power
import Mathlib.Tactic.FieldSimp
import Lox.Number.Shortest
import Lox.Proofs.Number.Rounding
set_option autoImplicit false

/-! The shortest decimal of a number rounds to the number. It is a multiple of a power of ten that was
found in the interval around the number, or else the number itself. -/

namespace Lox

open Binary64

/-- The exact value of a decimal. -/
def Decimal.value (decimal : Decimal) : ℚ :=
  decimal.digits * 10 ^ decimal.exponent

/-- Every magnitude is its own value. -/
theorem Binary64.rounds_value (magnitude : Nat) : Rounds (value magnitude) magnitude := by
  constructor
  · intro other
    rw [sub_self, abs_zero]
    exact abs_nonneg _
  · intro other different same
    rw [sub_self, abs_zero, abs_eq_zero, sub_eq_zero] at same
    exact absurd (value_strictMono.injective same).symm different

namespace Shortest

/-- What the interval around a magnitude contains rounds to it. -/
theorem Interval.rounds {magnitude dividend divisor : Nat} (positive : 0 < divisor)
    (contains : (Interval.of magnitude).contains dividend divisor = true) :
    Rounds (dividend / divisor / 2 ^ halvesOfOne) magnitude := by
  have halved : (dividend : ℚ) / divisor / 2 ^ halvesOfOne
      = dividend / (divisor * 2 : Nat) / 2 ^ unitsOfOne := by
    rw [div_div, div_div, pow_succ, Nat.cast_mul, Nat.cast_two, mul_assoc, mul_comm 2]
  have double : ∀ bound : Nat, bound * (divisor * 2) = 2 * (bound * divisor) := by
    intro bound
    ring
  rw [halved]
  unfold Interval.contains at contains
  by_cases closed : magnitude % 2 = 0
  · have ends : (Interval.of magnitude).closed = true := beq_iff_eq.mpr closed
    rw [if_pos ends, Bool.and_eq_true, decide_eq_true_eq, decide_eq_true_eq] at contains
    apply Rounds.of_units (Nat.mul_pos positive Nat.two_pos) _ _ (Or.inl closed)
    · rw [double]
      exact Nat.mul_le_mul_left 2 contains.1
    · rw [double]
      exact Nat.mul_le_mul_left 2 contains.2
  · have ends : ¬ (Interval.of magnitude).closed = true := fun even => closed (beq_iff_eq.mp even)
    rw [if_neg ends, Bool.and_eq_true, decide_eq_true_eq, decide_eq_true_eq] at contains
    have low := Nat.mul_lt_mul_of_pos_left contains.1 Nat.two_pos
    have high := Nat.mul_lt_mul_of_pos_left contains.2 Nat.two_pos
    rw [← double] at low high
    exact Rounds.of_units (Nat.mul_pos positive Nat.two_pos) (Nat.le_of_lt low) (Nat.le_of_lt high)
      (Or.inr ⟨fun _ => low, high⟩)

theorem gridStep_value (exponent : Int) :
    0 < (gridStep exponent).2 ∧
      ((gridStep exponent).1 : ℚ) / (gridStep exponent).2 / 2 ^ halvesOfOne = 10 ^ exponent := by
  have unit : (2 : ℚ) ^ halvesOfOne ≠ 0 := by positivity
  cases exponent with
  | ofNat exponent =>
      refine ⟨Nat.one_pos, ?_⟩
      change ((Nat.pow 10 exponent <<< halvesOfOne : Nat) : ℚ) / (1 : Nat) / 2 ^ halvesOfOne = _
      rw [Nat.shiftLeft_eq, Nat.cast_mul, Nat.cast_one, div_one, Nat.cast_pow, Nat.cast_two,
        mul_div_assoc, div_self unit, mul_one, Nat.pow_eq, Nat.cast_pow]
      exact (zpow_natCast 10 exponent).symm
  | negSucc exponent =>
      refine ⟨Nat.pow_pos (by decide), ?_⟩
      change ((1 <<< halvesOfOne : Nat) : ℚ) / (Nat.pow 10 (exponent + 1) : Nat) / 2 ^ halvesOfOne = _
      rw [Nat.shiftLeft_eq, Nat.one_mul, Nat.cast_pow, Nat.cast_two, div_right_comm, div_self unit,
        Nat.pow_eq, Nat.cast_pow, zpow_negSucc, one_div]
      rfl

theorem multiple?_rounds {magnitude digits : Nat} {exponent : Int}
    (found : multiple? (Interval.of magnitude) exponent = some digits) :
    Rounds (Decimal.value ⟨digits, exponent⟩) magnitude := by
  obtain ⟨positive, step⟩ := gridStep_value exponent
  have inside : (Interval.of magnitude).contains (digits * (gridStep exponent).1)
      (gridStep exponent).2 = true := by
    unfold multiple? at found
    dsimp only at found
    split at found
    · next below above =>
        cases found
        split
        · exact below
        · exact above
    · next below _ =>
        cases found
        exact below
    · next _ above =>
        cases found
        exact above
    · cases found
  have rounds := Interval.rounds positive inside
  rw [Nat.cast_mul, mul_div_assoc, mul_div_assoc, step] at rounds
  exact rounds

/-- The search ends with the number itself, if nothing else is found. -/
theorem search_rounds (magnitude height : Nat) :
    Rounds (search (Interval.of magnitude) height).value magnitude := by
  induction height with
  | zero =>
      have same : Decimal.value ⟨2 * units magnitude * Nat.pow 5 halvesOfOne, -halvesOfOne⟩
          = value magnitude := by
        have ten : (10 : ℚ) ^ halvesOfOne = 2 ^ halvesOfOne * 5 ^ halvesOfOne := by
          rw [← mul_pow]
          norm_num
        unfold Decimal.value value
        dsimp only
        rw [Nat.pow_eq, zpow_neg, zpow_natCast, ten, pow_succ 2]
        push_cast
        field_simp
      change Rounds (Decimal.value ⟨2 * units magnitude * Nat.pow 5 halvesOfOne, -halvesOfOne⟩)
        magnitude
      rw [same]
      exact rounds_value magnitude
  | succ height ih =>
      unfold search
      dsimp only
      split
      · next digits found => exact multiple?_rounds found
      · exact ih

theorem decimal_rounds (magnitude : Nat) : Rounds (decimal magnitude).value magnitude :=
  search_rounds magnitude _

end Shortest

end Lox
