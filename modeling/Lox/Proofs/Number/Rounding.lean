import Mathlib.Algebra.Order.Field.Rat
import Mathlib.Tactic.Linarith
import Mathlib.Tactic.Ring
import Lox.Number.Numeral
set_option autoImplicit false

/-! Rounding to the nearest pattern. Every magnitude has an exact value, and an exact number rounds
to the magnitude whose value is nearest, a tie going to the even pattern. Patterns behind the one of
infinity count on as if exponents had no end, so what rounds to one of them is infinite. -/

namespace Lox.Binary64

/-! ### Values -/

theorem units_fields {exponent fraction : Nat} (within : fraction < leadingBit) :
    units (exponent * leadingBit + fraction)
      = if exponent = 0 then fraction else (leadingBit + fraction) * 2 ^ (exponent - 1) := by
  have field : (exponent * leadingBit + fraction) / leadingBit = exponent := by
    rw [Nat.mul_comm, Nat.mul_add_div (by decide), Nat.div_eq_of_lt within, Nat.add_zero]
  have rest : (exponent * leadingBit + fraction) % leadingBit = fraction := by
    rw [Nat.mul_add_mod_self_right, Nat.mod_eq_of_lt within]
  unfold units
  dsimp only
  rw [field, rest, Nat.shiftLeft_eq]

/-- A significand and how often it is doubled. Twice the leading bit carries into the exponent. -/
theorem units_eq {shift significand : Nat} (least : shift = 0 ∨ leadingBit ≤ significand)
    (most : significand ≤ 2 * leadingBit) :
    units (shift * leadingBit + significand) = significand * 2 ^ shift := by
  by_cases carries : significand = 2 * leadingBit
  · have carried : shift * leadingBit + significand = (shift + 2) * leadingBit + 0 := by
      rw [carries]
      ring
    rw [carried, units_fields (by decide), if_neg (by omega), carries, Nat.add_sub_assoc (by decide),
      pow_succ]
    ring
  by_cases small : significand < leadingBit
  · obtain rfl : shift = 0 := by omega
    rw [units_fields small, if_pos rfl, pow_zero, mul_one]
  · have normal : shift * leadingBit + significand
        = (shift + 1) * leadingBit + (significand - leadingBit) := by
      rw [Nat.succ_mul]
      omega
    rw [normal, units_fields (by omega), if_neg (by omega), Nat.add_sub_cancel,
      Nat.add_sub_of_le (by omega)]

theorem exists_significand (magnitude : Nat) :
    ∃ shift significand, magnitude = shift * leadingBit + significand ∧
      (shift = 0 ∨ leadingBit ≤ significand) ∧ significand < 2 * leadingBit := by
  by_cases small : magnitude < leadingBit
  · exact ⟨0, magnitude, by omega, Or.inl rfl, by omega⟩
  · have within : magnitude % leadingBit < leadingBit := Nat.mod_lt _ (by decide)
    have parts := Nat.div_add_mod' magnitude leadingBit
    have some : 0 < magnitude / leadingBit := Nat.div_pos (by omega) (by decide)
    refine ⟨magnitude / leadingBit - 1, leadingBit + magnitude % leadingBit, ?_,
      Or.inr (by omega), by omega⟩
    rw [Nat.sub_mul]
    have room := Nat.mul_le_mul_right leadingBit some
    omega

theorem units_lt_succ (magnitude : Nat) : units magnitude < units (magnitude + 1) := by
  obtain ⟨shift, significand, rfl, least, most⟩ := exists_significand magnitude
  have leastNext : shift = 0 ∨ leadingBit ≤ significand + 1 := by omega
  rw [Nat.add_assoc, units_eq least (by omega), units_eq leastNext (by omega)]
  exact Nat.mul_lt_mul_of_pos_right (Nat.lt_succ_self significand) (Nat.two_pow_pos shift)

theorem units_strictMono : StrictMono units :=
  strictMono_nat_of_lt_succ units_lt_succ

/-- The exact value of a magnitude. -/
def value (magnitude : Nat) : ℚ :=
  units magnitude / 2 ^ unitsOfOne

theorem value_strictMono : StrictMono value := by
  intro first second less
  have fewer : (units first : ℚ) < units second := Nat.cast_lt.mpr (units_strictMono less)
  exact div_lt_div_of_pos_right fewer (by positivity)

/-! ### Nearest magnitudes -/

/-- Among all magnitudes no other one is nearer, and only an even one shares its place. -/
structure Rounds (exact : ℚ) (magnitude : Nat) : Prop where
  nearest : ∀ other, |exact - value magnitude| ≤ |exact - value other|
  even : ∀ other, other ≠ magnitude → |exact - value other| = |exact - value magnitude| →
    magnitude % 2 = 0

section

variable {exact larger : ℚ} {magnitude other : Nat}

/-- It is enough to look at the two neighbours. -/
theorem Rounds.of_between
    (low : value (magnitude - 1) + value magnitude ≤ 2 * exact)
    (high : 2 * exact ≤ value magnitude + value (magnitude + 1))
    (ends : magnitude % 2 = 0 ∨
      (0 < magnitude → value (magnitude - 1) + value magnitude < 2 * exact) ∧
        2 * exact < value magnitude + value (magnitude + 1)) : Rounds exact magnitude := by
  have apart : ∀ other, other ≠ magnitude →
      |exact - value magnitude| ≤ |exact - value other| ∧
        (|exact - value other| = |exact - value magnitude| → magnitude % 2 = 0) := by
    intro other different
    rcases Nat.lt_or_gt_of_ne different with below | above
    · have before : value other ≤ value (magnitude - 1) :=
        value_strictMono.monotone (Nat.le_sub_one_of_lt below)
      have less : value other < value magnitude := value_strictMono below
      have distance : |exact - value other| = exact - value other := by
        apply abs_of_nonneg
        linarith
      rw [distance]
      constructor
      · apply abs_le.mpr
        constructor <;> linarith
      · intro same
        rcases ends with even | strict
        · exact even
        · have lower := strict.1 (Nat.zero_lt_of_lt below)
          rcases abs_choice (exact - value magnitude) with plain | negated
          · linarith
          · linarith
    · have behind : value (magnitude + 1) ≤ value other := value_strictMono.monotone above
      have more : value magnitude < value other := value_strictMono above
      have distance : |exact - value other| = value other - exact := by
        rw [abs_sub_comm]
        apply abs_of_nonneg
        linarith
      rw [distance]
      constructor
      · apply abs_le.mpr
        constructor <;> linarith
      · intro same
        rcases ends with even | strict
        · exact even
        · have upper := strict.2
          rcases abs_choice (exact - value magnitude) with plain | negated
          · linarith
          · linarith
  constructor
  · intro other
    by_cases same : other = magnitude
    · rw [same]
    · exact (apart other same).1
  · exact fun other different => (apart other different).2

/-- What rounds to a magnitude lies behind the midpoint to a smaller one. -/
theorem Rounds.above (rounds : Rounds exact magnitude) (below : other < magnitude) :
    value other + value magnitude ≤ 2 * exact := by
  have less : value other < value magnitude := value_strictMono below
  have nearer := rounds.nearest other
  by_contra before
  rw [abs_of_nonpos (by linarith : exact - value magnitude ≤ 0)] at nearer
  rcases le_abs.mp nearer with far | far <;> linarith

theorem Rounds.below (rounds : Rounds exact magnitude) (above : magnitude < other) :
    2 * exact ≤ value magnitude + value other := by
  have more : value magnitude < value other := value_strictMono above
  have nearer := rounds.nearest other
  by_contra behind
  rw [abs_of_nonneg (by linarith : 0 ≤ exact - value magnitude)] at nearer
  rcases le_abs.mp nearer with far | far <;> linarith

/-- A larger number does not round to a smaller magnitude. -/
theorem Rounds.mono (rounds : Rounds exact magnitude) (also : Rounds larger other)
    (le : exact ≤ larger) : magnitude ≤ other := by
  by_contra beyond
  have less : other < magnitude := Nat.lt_of_not_le beyond
  -- Both numbers are the midpoint, which is as far from the one magnitude as from the other.
  have low := rounds.above less
  have high := also.below less
  have middle : 2 * exact = value other + value magnitude := by linarith
  have same : larger = exact := by linarith
  rw [same] at also
  have tie : |exact - value other| = |exact - value magnitude| :=
    le_antisymm (also.nearest magnitude) (rounds.nearest other)
  have even := rounds.even other (Nat.ne_of_lt less) tie
  have alsoEven := also.even magnitude (Nat.ne_of_gt less) tie.symm
  have between := rounds.above (show other + 1 < magnitude by omega)
  have lower : value other < value (other + 1) := value_strictMono (Nat.lt_succ_self other)
  linarith

theorem Rounds.unique (rounds : Rounds exact magnitude) (also : Rounds exact other) :
    magnitude = other :=
  Nat.le_antisymm (rounds.mono also le_rfl) (also.mono rounds le_rfl)

end

/-! ### Quotients of units -/

section

variable {dividend divisor : Nat}

theorem le_quotient_iff (positive : 0 < divisor) (whole : Nat) :
    (whole : ℚ) / 2 ^ unitsOfOne ≤ dividend / divisor / 2 ^ unitsOfOne ↔
      whole * divisor ≤ dividend := by
  have some : (0 : ℚ) < divisor := Nat.cast_pos.mpr positive
  rw [div_le_div_iff_of_pos_right (by positivity), le_div_iff₀ some]
  norm_cast

theorem quotient_le_iff (positive : 0 < divisor) (whole : Nat) :
    (dividend : ℚ) / divisor / 2 ^ unitsOfOne ≤ whole / 2 ^ unitsOfOne ↔
      dividend ≤ whole * divisor := by
  have some : (0 : ℚ) < divisor := Nat.cast_pos.mpr positive
  rw [div_le_div_iff_of_pos_right (by positivity), div_le_iff₀ some]
  norm_cast

/-- A quotient between the midpoints to both neighbours. -/
theorem Rounds.of_units {magnitude : Nat} (positive : 0 < divisor)
    (low : (units (magnitude - 1) + units magnitude) * divisor ≤ 2 * dividend)
    (high : 2 * dividend ≤ (units magnitude + units (magnitude + 1)) * divisor)
    (ends : magnitude % 2 = 0 ∨
      (0 < magnitude → (units (magnitude - 1) + units magnitude) * divisor < 2 * dividend) ∧
        2 * dividend < (units magnitude + units (magnitude + 1)) * divisor) :
    Rounds (dividend / divisor / 2 ^ unitsOfOne) magnitude := by
  have sum : ∀ first second : Nat, value first + value second
      = (units first + units second : Nat) / 2 ^ unitsOfOne := by
    intro first second
    rw [value, value, ← add_div, Nat.cast_add]
  have doubled : 2 * ((dividend : ℚ) / divisor / 2 ^ unitsOfOne)
      = (2 * dividend : Nat) / divisor / 2 ^ unitsOfOne := by
    rw [Nat.cast_mul, mul_div_assoc, mul_div_assoc, Nat.cast_two]
  apply Rounds.of_between
  · rw [sum, doubled]
    exact (le_quotient_iff positive _).mpr low
  · rw [sum, doubled]
    exact (quotient_le_iff positive _).mpr high
  · rw [sum, sum, doubled]
    rw [lt_iff_lt_of_le_iff_le (quotient_le_iff positive _),
      lt_iff_lt_of_le_iff_le (le_quotient_iff positive _)]
    exact ends

/-! ### The nearest magnitude -/

theorem divideHalfEven_between (dividend : Nat) (positive : 0 < divisor) :
    let quotient := divideHalfEven dividend divisor
    2 * quotient * divisor ≤ 2 * dividend + divisor ∧
      2 * dividend ≤ 2 * quotient * divisor + divisor ∧
      (quotient % 2 = 0 ∨ 2 * quotient * divisor < 2 * dividend + divisor ∧
        2 * dividend < 2 * quotient * divisor + divisor) := by
  have parts := Nat.div_add_mod dividend divisor
  have less := Nat.mod_lt dividend positive
  intro quotient
  have product : 2 * (dividend / divisor) * divisor = 2 * (divisor * (dividend / divisor)) := by
    ring
  have next : 2 * (dividend / divisor + 1) * divisor
      = 2 * (divisor * (dividend / divisor)) + 2 * divisor := by ring
  by_cases down : 2 * (dividend % divisor) < divisor ∨
      2 * (dividend % divisor) = divisor ∧ dividend / divisor % 2 = 0
  · have same : quotient = dividend / divisor := if_pos down
    rw [same, product]
    omega
  · have same : quotient = dividend / divisor + 1 := if_neg down
    rw [same, next]
    omega

/-- How often the unit is doubled to measure a quotient with as many bits as a significand has. -/
theorem significand_bounds (dividend : Nat) (positive : 0 < divisor) :
    let shift := (dividend / divisor).log2 - fractionWidth
    (shift = 0 ∨ leadingBit * (divisor * 2 ^ shift) ≤ dividend) ∧
      dividend < 2 * leadingBit * (divisor * 2 ^ shift) := by
  intro shift
  have bit : leadingBit = 2 ^ fractionWidth := by decide
  constructor
  · by_cases none : shift = 0
    · exact Or.inl none
    · have width : (dividend / divisor).log2 = fractionWidth + shift := by omega
      have nonzero : dividend / divisor ≠ 0 := by
        intro zero
        rw [zero, Nat.log2_zero] at width
        omega
      have least := Nat.log2_self_le nonzero
      rw [width, pow_add, ← bit] at least
      have back := (Nat.le_div_iff_mul_le positive).mp least
      right
      calc leadingBit * (divisor * 2 ^ shift) = leadingBit * 2 ^ shift * divisor := by ring
        _ ≤ dividend := back
  · have most : dividend / divisor < 2 ^ ((dividend / divisor).log2 + 1) := Nat.lt_log2_self
    have widened : 2 ^ ((dividend / divisor).log2 + 1) ≤ 2 ^ (fractionWidth + shift + 1) :=
      Nat.pow_le_pow_right (by decide) (by omega)
    have behind := (Nat.div_lt_iff_lt_mul positive).mp (Nat.lt_of_lt_of_le most widened)
    calc dividend < 2 ^ (fractionWidth + shift + 1) * divisor := behind
      _ = 2 * leadingBit * (divisor * 2 ^ shift) := by
        rw [bit, pow_succ, pow_add]
        ring

/-- The next magnitude is at least one step of the significand away, and two where it carries. -/
theorem succ_significand_le {shift significand : Nat} (least : shift = 0 ∨ leadingBit ≤ significand)
    (most : significand ≤ 2 * leadingBit) :
    (significand + 1) * 2 ^ shift ≤ units (shift * leadingBit + significand + 1) := by
  have leastNext : shift = 0 ∨ leadingBit ≤ significand + 1 := by omega
  by_cases carries : significand = 2 * leadingBit
  · have carried : shift * leadingBit + significand + 1
        = (shift + 1) * leadingBit + (leadingBit + 1) := by
      rw [carries]
      ring
    have doubled : (leadingBit + 1) * 2 ^ (shift + 1) = (2 * leadingBit + 2) * 2 ^ shift := by
      rw [pow_succ]
      ring
    rw [carried, units_eq (Or.inr (Nat.le_succ _)) (by decide), doubled, carries]
    exact Nat.mul_le_mul_right _ (Nat.le_succ _)
  · rw [Nat.add_assoc, units_eq leastNext (by omega)]

/-- A quotient rounded to a significand. Where the doublings begin, the lower neighbour is only half
a step away, but the quotient is not below the significand then. -/
theorem rounds_significand (positive : 0 < divisor) {shift significand : Nat}
    (least : shift = 0 ∨ leadingBit ≤ significand) (most : significand ≤ 2 * leadingBit)
    (begins : shift = 0 ∨ leadingBit * (divisor * 2 ^ shift) ≤ dividend)
    (low : 2 * significand * (divisor * 2 ^ shift) ≤ 2 * dividend + divisor * 2 ^ shift)
    (high : 2 * dividend ≤ 2 * significand * (divisor * 2 ^ shift) + divisor * 2 ^ shift)
    (ends : significand % 2 = 0 ∨
      2 * significand * (divisor * 2 ^ shift) < 2 * dividend + divisor * 2 ^ shift ∧
        2 * dividend < 2 * significand * (divisor * 2 ^ shift) + divisor * 2 ^ shift) :
    Rounds (dividend / divisor / 2 ^ unitsOfOne) (shift * leadingBit + significand) := by
  have step : 0 < divisor * 2 ^ shift := Nat.mul_pos positive (Nat.two_pow_pos shift)
  have parity : (shift * leadingBit + significand) % 2 = significand % 2 := by
    unfold leadingBit
    omega
  have here := units_eq least most
  have above : 2 * significand * (divisor * 2 ^ shift) + divisor * 2 ^ shift
      ≤ (units (shift * leadingBit + significand) + units (shift * leadingBit + significand + 1))
        * divisor := by
    calc 2 * significand * (divisor * 2 ^ shift) + divisor * 2 ^ shift
        = (significand * 2 ^ shift + (significand + 1) * 2 ^ shift) * divisor := by ring
      _ ≤ _ := by
        rw [here]
        exact Nat.mul_le_mul_right _ (Nat.add_le_add_left (succ_significand_le least most) _)
  have below : 0 < shift * leadingBit + significand →
      (units (shift * leadingBit + significand - 1) + units (shift * leadingBit + significand))
          * divisor + divisor * 2 ^ shift ≤ 2 * significand * (divisor * 2 ^ shift) ∨
        (units (shift * leadingBit + significand - 1) + units (shift * leadingBit + significand))
          * divisor < 2 * dividend := by
    intro nonzero
    by_cases inside : shift = 0 ∨ leadingBit < significand
    · left
      have pos : 0 < significand := by
        rcases inside with rfl | more
        · omega
        · omega
      obtain ⟨before, rfl⟩ := Nat.exists_eq_succ_of_ne_zero (Nat.ne_of_gt pos)
      rw [here, Nat.succ_eq_add_one, ← Nat.add_assoc, Nat.add_sub_cancel,
        units_eq (by omega) (by omega)]
      apply le_of_eq
      ring
    · right
      obtain rfl : significand = leadingBit := by omega
      have less := units_lt_succ (shift * leadingBit + leadingBit - 1)
      rw [Nat.sub_add_cancel nonzero] at less
      have twice : (units (shift * leadingBit + leadingBit) + units (shift * leadingBit + leadingBit))
          * divisor = 2 * (leadingBit * (divisor * 2 ^ shift)) := by
        rw [here]
        ring
      have bound := Nat.mul_lt_mul_of_pos_right (Nat.add_lt_add_right less
        (units (shift * leadingBit + leadingBit))) positive
      omega
  apply Rounds.of_units positive
  · rcases Nat.eq_zero_or_pos (shift * leadingBit + significand) with zero | nonzero
    · rw [zero]
      change (units 0 + units 0) * divisor ≤ 2 * dividend
      have none : (units 0 + units 0) * divisor = 0 := Nat.zero_mul divisor
      omega
    · have := below nonzero
      omega
  · omega
  · rcases ends with even | strict
    · exact Or.inl (parity.trans even)
    · right
      constructor
      · intro nonzero
        have := below nonzero
        omega
      · omega

/-- A rounded significand has no more bits than it may have, but for a carry. -/
theorem significand_fits {step significand : Nat} (positive : 0 < step)
    (most : dividend < 2 * leadingBit * step)
    (low : 2 * significand * step ≤ 2 * dividend + step) : significand ≤ 2 * leadingBit := by
  by_contra large
  have bound := Nat.mul_le_mul_right step (show 2 * (2 * leadingBit) + 2 ≤ 2 * significand by omega)
  have unfolded : (2 * (2 * leadingBit) + 2) * step = 2 * (2 * leadingBit * step) + 2 * step := by
    ring
  omega

/-- And no fewer, where the quotient has as many. -/
theorem significand_fills {step significand : Nat} (positive : 0 < step)
    (least : leadingBit * step ≤ dividend)
    (high : 2 * dividend ≤ 2 * significand * step + step) : leadingBit ≤ significand := by
  by_contra small
  have bound := Nat.mul_le_mul_right step (show 2 * significand + 2 ≤ 2 * leadingBit by omega)
  have unfolded : (2 * significand + 2) * step = 2 * significand * step + 2 * step := by ring
  have twice : 2 * leadingBit * step = 2 * (leadingBit * step) := by ring
  omega

/-- The nearest magnitude is what the quotient rounds to, up to the one of infinity. -/
theorem nearest_rounds (dividend : Nat) (positive : 0 < divisor) :
    ∃ magnitude, Rounds (dividend / divisor / 2 ^ unitsOfOne) magnitude ∧
      nearest dividend divisor = min infinity magnitude := by
  obtain ⟨atLeast, atMost⟩ := significand_bounds dividend positive
  generalize doublings : (dividend / divisor).log2 - fractionWidth = shift at atLeast atMost
  have step : 0 < divisor * 2 ^ shift := Nat.mul_pos positive (Nat.two_pow_pos shift)
  obtain ⟨low, high, ends⟩ := divideHalfEven_between dividend step
  generalize measured : divideHalfEven dividend (divisor * 2 ^ shift) = significand at low high ends
  have least : shift = 0 ∨ leadingBit ≤ significand :=
    atLeast.imp_right fun some => significand_fills step some high
  refine ⟨shift * leadingBit + significand, ?_, ?_⟩
  · exact rounds_significand positive least (significand_fits step atMost low) atLeast low high ends
  · unfold nearest
    dsimp only
    rw [doublings, Nat.shiftLeft_eq, measured]

theorem nearest_eq {magnitude : Nat} (positive : 0 < divisor)
    (rounds : Rounds (dividend / divisor / 2 ^ unitsOfOne) magnitude)
    (within : magnitude ≤ infinity) : nearest dividend divisor = magnitude := by
  obtain ⟨found, also, same⟩ := nearest_rounds dividend positive
  rw [same, ← rounds.unique also]
  exact Nat.min_eq_right within

end

end Lox.Binary64
