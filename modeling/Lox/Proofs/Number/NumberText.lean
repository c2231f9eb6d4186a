import Lox.Proofs.Number.Numerals
import Lox.Proofs.Token.Layout
set_option autoImplicit false

/-! The text of a number. It is a numeral behind the sign, and the number is the nearest one to what
the numeral stands for; so the text settles the number. Between a thousandth and ten million the
numeral is one that a source may contain, and elsewhere it is scaled. -/

namespace Lox

/-! ### Leading digits -/

namespace Decimal

/-- The power of ten that the first digit counts. -/
def leading (decimal : Decimal) : Int :=
  decimal.exponent + (Nat.toDigits 10 decimal.digits).length - 1

theorem value_bounds {decimal : Decimal} (positive : 0 < decimal.digits) :
    10 ^ decimal.leading ≤ decimal.value ∧ decimal.value < 10 ^ (decimal.leading + 1) := by
  obtain ⟨digits, exponent⟩ := decimal
  obtain ⟨others, count⟩ : ∃ others, (Nat.toDigits 10 digits).length = others + 1 :=
    Nat.exists_eq_succ_of_ne_zero (Nat.ne_of_gt Nat.length_toDigits_pos)
  have most : digits < 10 ^ (others + 1) :=
    (Nat.length_toDigits_le_iff (by decide) (Nat.succ_pos others)).mp (Nat.le_of_eq count)
  have least : 10 ^ others ≤ digits := by
    cases others with
    | zero => exact positive
    | succ fewer =>
        by_contra small
        have short := (Nat.length_toDigits_le_iff (by decide) (Nat.succ_pos fewer)).mpr
          (Nat.lt_of_not_le small)
        omega
  have leads : leading ⟨digits, exponent⟩ = others + exponent := by
    change exponent + (Nat.toDigits 10 digits).length - 1 = _
    rw [count]
    push_cast
    ring
  have scale : (0 : ℚ) < 10 ^ exponent := by positivity
  unfold value
  rw [leads]
  constructor
  · rw [zpow_add₀ (by norm_num), zpow_natCast]
    exact mul_le_mul_of_nonneg_right (by exact_mod_cast least) scale.le
  · rw [show (others + exponent + 1 : ℤ) = (others + 1 : ℕ) + exponent by push_cast; ring,
      zpow_add₀ (by norm_num), zpow_natCast]
    exact mul_lt_mul_of_pos_right (by exact_mod_cast most) scale

theorem le_leading_iff {decimal : Decimal} (positive : 0 < decimal.digits) (power : Int) :
    power ≤ decimal.leading ↔ 10 ^ power ≤ decimal.value := by
  obtain ⟨least, most⟩ := value_bounds positive
  constructor
  · intro le
    exact (zpow_le_zpow_right₀ (by norm_num) le).trans least
  · intro le
    have less := (zpow_lt_zpow_iff_right₀ (by norm_num : (1 : ℚ) < 10)).mp (le.trans_lt most)
    omega

end Decimal

namespace Shortest

open Binary64

theorem digits_pos {magnitude : Nat} (positive : 0 < magnitude) :
    0 < (decimal magnitude).digits := by
  apply Nat.pos_of_ne_zero
  intro none
  have zero : (decimal magnitude).value = Binary64.value 0 := by
    unfold Decimal.value Binary64.value
    rw [none, Nat.cast_zero, zero_mul]
    exact (zero_div _).symm
  have rounds := decimal_rounds magnitude
  rw [zero] at rounds
  have same := rounds.unique (rounds_value 0)
  omega

/-- The decimal of a number and the number lie on the same side of a power of ten. -/
theorem power_le_iff (power : Int) (bound : Nat) (written : decimal bound = ⟨1, power⟩)
    (before : Binary64.value (bound - 1) < 10 ^ power) (reached : 10 ^ power ≤ Binary64.value bound)
    (magnitude : Nat) :
    10 ^ power ≤ (decimal magnitude).value ↔ 10 ^ power ≤ Binary64.value magnitude := by
  have exact : (decimal bound).value = 10 ^ power := by
    rw [written]
    unfold Decimal.value
    rw [Nat.cast_one, one_mul]
  have rounds := decimal_rounds bound
  constructor
  · intro le
    have larger : bound ≤ magnitude :=
      rounds.mono (decimal_rounds magnitude) (exact.le.trans le)
    exact reached.trans (value_strictMono.monotone larger)
  · intro le
    by_contra small
    have most : magnitude ≤ bound :=
      (decimal_rounds magnitude).mono rounds ((not_le.mp small).le.trans exact.ge)
    have different : magnitude ≠ bound := by
      rintro rfl
      exact small exact.ge
    have fewer := value_strictMono.monotone (Nat.le_sub_one_of_lt (Nat.lt_of_le_of_ne most different))
    exact absurd le (not_le.mpr (fewer.trans_lt before))

theorem thousandth_le_iff (magnitude : Nat) :
    10 ^ (-3 : ℤ) ≤ (decimal magnitude).value ↔ 1 / 1000 ≤ Binary64.value magnitude := by
  have before : units (0x3f50624dd2f1a9fc - 1) * 1000 < 2 ^ unitsOfOne := by decide +kernel
  have reached : 2 ^ unitsOfOne ≤ units 0x3f50624dd2f1a9fc * 1000 := by decide +kernel
  have power : (10 : ℚ) ^ (-3 : ℤ) = 1 / 1000 := by norm_num
  have iff := power_le_iff (-3) 0x3f50624dd2f1a9fc (by decide +kernel)
    (by
      rw [power]
      unfold Binary64.value
      rw [div_lt_div_iff₀ (by positivity) (by norm_num), one_mul]
      exact_mod_cast before)
    (by
      rw [power]
      unfold Binary64.value
      rw [div_le_div_iff₀ (by norm_num) (by positivity), one_mul]
      exact_mod_cast reached) magnitude
  rw [iff, power]

theorem tenMillion_le_iff (magnitude : Nat) :
    10 ^ (7 : ℤ) ≤ (decimal magnitude).value ↔ 10 ^ 7 ≤ Binary64.value magnitude := by
  have exact : units 0x416312d000000000 = 10 ^ 7 * 2 ^ unitsOfOne := by decide +kernel
  have power : (10 : ℚ) ^ (7 : ℤ) = 10 ^ 7 := by norm_num
  have reached : Binary64.value 0x416312d000000000 = 10 ^ 7 := by
    unfold Binary64.value
    rw [exact, Nat.cast_mul, Nat.cast_pow, Nat.cast_pow, Nat.cast_two, Nat.cast_ofNat]
    exact mul_div_cancel_right₀ _ (by positivity)
  have iff := power_le_iff 7 0x416312d000000000 (by decide +kernel)
    (by
      rw [power, ← reached]
      exact value_strictMono (by decide))
    (by rw [power, reached]) magnitude
  rw [iff, power]

/-- The range that is written plainly. -/
theorem plain_iff {magnitude : Nat} (positive : 0 < magnitude) :
    -3 ≤ (decimal magnitude).leading ∧ (decimal magnitude).leading ≤ 6 ↔
      1 / 1000 ≤ Binary64.value magnitude ∧ Binary64.value magnitude < 10 ^ 7 := by
  have digits := digits_pos positive
  have most : (decimal magnitude).leading ≤ 6 ↔ ¬ (7 ≤ (decimal magnitude).leading) := by omega
  rw [most, Decimal.le_leading_iff digits, Decimal.le_leading_iff digits, thousandth_le_iff,
    tenMillion_le_iff, not_le]

end Shortest

/-! ### Forms -/

namespace Numeral

def signed (negative : Bool) (text : List Char) : List Char :=
  if negative then '-' :: text else text

/-- A sign, which may be missing, and the decimal behind it. -/
def signed? : List Char → Option (Bool × Decimal)
  | '-' :: text => (decimal? text).map fun decimal => (true, decimal)
  | text => (decimal? text).map fun decimal => (false, decimal)

/-- One digit, a point, more digits, and a power of ten that may be negative. -/
inductive Scaled : List Char → Prop
  | mk (first : Char) (places : List Char) (negative : Bool) (power : List Char)
      (fractional : places ≠ []) (nonempty : power ≠ [])
      (digits : ∀ digit ∈ first :: places ++ power, digit.isDigit = true) :
      Scaled (first :: '.' :: places ++ 'E' :: signed negative power)

theorem scaled_powerText {first : Char} {places : List Char} (fractional : places ≠ [])
    (digits : ∀ digit ∈ first :: places, digit.isDigit = true) (power : Int) :
    Scaled (first :: '.' :: places ++ 'E' :: powerText power) := by
  cases power with
  | ofNat size =>
      exact .mk first places false _ fractional Nat.toDigits_ne_nil
        (List.forall_mem_append.mpr ⟨digits, isDigit_toDigits size⟩)
  | negSucc size =>
      exact .mk first places true _ fractional Nat.toDigits_ne_nil
        (List.forall_mem_append.mpr ⟨digits, isDigit_toDigits (size + 1)⟩)

theorem isDigit_head {text : List Char} {decimal : Decimal} (read : decimal? text = some decimal) :
    ∃ first others, text = first :: others ∧ first.isDigit = true := by
  cases text with
  | nil => cases read
  | cons first others =>
      refine ⟨first, others, rfl, ?_⟩
      by_contra other
      unfold decimal? at read
      rw [List.takeWhile_cons_of_neg other] at read
      cases read

theorem signed?_signed {text : List Char} {decimal : Decimal} (read : decimal? text = some decimal)
    (negative : Bool) : signed? (signed negative text) = some (negative, decimal) := by
  cases negative with
  | true =>
      change (decimal? text).map (fun decimal => (true, decimal)) = _
      rw [read]
      rfl
  | false =>
      obtain ⟨first, others, rfl, isDigit⟩ := isDigit_head read
      change signed? (first :: others) = _
      unfold signed?
      split
      · next same =>
          cases same
          cases isDigit
      · rw [read]
        rfl

end Numeral

namespace Number

open Numeral

/-- Zero, and what lies between a thousandth and ten million. -/
def Plain (magnitude : Nat) : Prop :=
  magnitude = 0 ∨ 1 / 1000 ≤ Binary64.value magnitude ∧ Binary64.value magnitude < 10 ^ 7

theorem writeMagnitude_plain {magnitude : Nat} (plain : Plain magnitude) :
    ∃ whole places, writeMagnitude .printed magnitude = pointed whole places ∧ whole ≠ [] ∧
      (∀ digit ∈ whole ++ places, digit.isDigit = true) ∧
      Binary64.Rounds (Decimal.value ⟨digitsValue (whole ++ places), -places.length⟩) magnitude := by
  rcases Nat.eq_zero_or_pos magnitude with rfl | positive
  · refine ⟨['0'], [], rfl, nofun, isDigit_zeros 1, ?_⟩
    have zero : Decimal.value ⟨digitsValue (['0'] ++ []), -([] : List Char).length⟩
        = Binary64.value 0 := by
      unfold Decimal.value Binary64.value
      exact (zero_mul _).trans (zero_div _).symm
    rw [zero]
    exact Binary64.rounds_value 0
  · have within := (Shortest.plain_iff positive).mpr (plain.resolve_left (Nat.ne_of_gt positive))
    obtain ⟨whole, places, written, nonempty, digits, same⟩ := positional_pointed
      Nat.toDigits_ne_nil (isDigit_toDigits (Shortest.decimal magnitude).digits)
      (Shortest.decimal magnitude).exponent
    refine ⟨whole, places, ?_, nonempty, digits, ?_⟩
    · rw [← written]
      exact (if_neg (Nat.ne_of_gt positive)).trans (if_pos within)
    · rw [same, digitsValue_toDigits]
      exact Shortest.decimal_rounds magnitude

theorem writeMagnitude_scaled {magnitude : Nat} (other : ¬ Plain magnitude) :
    ∃ first places power,
      writeMagnitude .printed magnitude = first :: '.' :: places ++ 'E' :: powerText power ∧
      places ≠ [] ∧ (∀ digit ∈ first :: places, digit.isDigit = true) ∧
      Binary64.Rounds (Decimal.value ⟨digitsValue (first :: places), power - places.length⟩)
        magnitude := by
  obtain ⟨positive, outside⟩ := not_or.mp other
  have beyond := mt (Shortest.plain_iff (Nat.pos_of_ne_zero positive)).mp outside
  obtain ⟨first, places, written, fractional, digits, same⟩ := scaled_pointed
    Nat.toDigits_ne_nil (isDigit_toDigits (Shortest.decimal magnitude).digits)
    (Shortest.decimal magnitude).leading
  refine ⟨first, places, (Shortest.decimal magnitude).leading, ?_, fractional, digits, ?_⟩
  · rw [← written]
    exact (if_neg positive).trans (if_neg beyond)
  · have exponent : (Shortest.decimal magnitude).leading + 1
        - (Nat.toDigits 10 (Shortest.decimal magnitude).digits).length
          = (Shortest.decimal magnitude).exponent := by
      unfold Decimal.leading
      omega
    rw [same, digitsValue_toDigits, exponent]
    exact Shortest.decimal_rounds magnitude

/-- In either form the number is the nearest one to what its text stands for. -/
theorem decimal?_writeMagnitude (magnitude : Nat) :
    ∃ decimal, decimal? (writeMagnitude .printed magnitude) = some decimal ∧
      Binary64.Rounds decimal.value magnitude := by
  by_cases plain : Plain magnitude
  · obtain ⟨whole, places, written, nonempty, digits, rounds⟩ := writeMagnitude_plain plain
    rw [written]
    exact ⟨_, decimal?_plain nonempty digits, rounds⟩
  · obtain ⟨first, places, power, written, fractional, digits, rounds⟩ :=
      writeMagnitude_scaled plain
    rw [written, ← pointed_singleton fractional]
    exact ⟨_, decimal?_scaled (List.cons_ne_nil _ _) digits (integer?_powerText power), rounds⟩

theorem write_finite {bits : UInt64} {negative : Bool} {magnitude : Nat}
    (finite : Binary64.read bits = .finite negative magnitude) :
    write .printed bits = String.ofList (signed negative (writeMagnitude .printed magnitude)) := by
  unfold write
  rw [finite]
  apply String.toList_inj.mp
  dsimp only
  rw [String.toList_append, String.toList_ofList, String.toList_ofList]
  cases negative <;> rfl

/-- The text of a finite number is read back as its sign and a decimal that rounds to it. -/
theorem signed?_write {bits : UInt64} {negative : Bool} {magnitude : Nat}
    (finite : Binary64.read bits = .finite negative magnitude) :
    ∃ decimal, signed? (write .printed bits).toList = some (negative, decimal) ∧
      Binary64.Rounds decimal.value magnitude := by
  obtain ⟨decimal, read, rounds⟩ := decimal?_writeMagnitude magnitude
  refine ⟨decimal, ?_, rounds⟩
  rw [← signed?_signed read negative]
  rw [write_finite finite, String.toList_ofList]

theorem mem_writeMagnitude (magnitude : Nat) :
    ∀ character ∈ writeMagnitude .printed magnitude,
      character.isDigit = true ∨ character ∈ ['.', 'E', '-'] := by
  have numeral {whole places : List Char} (digits : ∀ digit ∈ whole ++ places, digit.isDigit = true) :
      ∀ character ∈ pointed whole places,
        character.isDigit = true ∨ character ∈ ['.', 'E', '-'] := by
    intro character among
    rcases mem_pointed among with rfl | digit
    · exact Or.inr (by decide)
    · exact Or.inl (digits character digit)
  intro character among
  by_cases plain : Plain magnitude
  · obtain ⟨whole, places, written, _, digits, _⟩ := writeMagnitude_plain plain
    rw [written] at among
    exact numeral digits character among
  · obtain ⟨first, places, power, written, fractional, digits, _⟩ := writeMagnitude_scaled plain
    rw [written, ← pointed_singleton fractional] at among
    rcases List.mem_append.mp among with front | behind
    · exact numeral digits character front
    · rcases List.mem_cons.mp behind with rfl | scaled
      · exact Or.inr (by decide)
      · rcases mem_powerText scaled with rfl | digit
        · exact Or.inr (by decide)
        · exact Or.inl digit

theorem signed?_infinite (negative : Bool) :
    signed? ((if negative then "-" else "") ++ NumberStyle.printed.infinity).toList = none := by
  cases negative <;> decide

end Number

namespace Token

/-- Digits with or without a point are one token. -/
theorem scan_pointed {whole places : List Char} (nonempty : whole ≠ [])
    (digits : ∀ digit ∈ whole ++ places, digit.isDigit = true) :
    scan (String.ofList (Numeral.pointed whole places))
      = .ok [⟨.number, String.ofList (Numeral.pointed whole places),
          .number (Numeral.value whole places), 1⟩, endOfInput 1] := by
  have written := Written.number whole places 1 nonempty digits
  have oneLine : '\n' ∉ Numeral.pointed whole places := by
    intro among
    rcases Numeral.mem_pointed among with point | digit
    · cases point
    · cases digits '\n' digit
  have line : lineAfter 1 (Numeral.pointed whole places) = 1 := by
    unfold lineAfter
    rw [List.count_eq_zero_of_not_mem oneLine]
  have scans : Scans 1 ((String.ofList (Numeral.pointed whole places)).toList ++ []) _ :=
    written.scans nofun (.ends _)
  apply Scans.scan_eq
  simp only [String.toList_ofList, List.append_nil] at scans
  change Scans 1 (Numeral.pointed whole places)
    (.ok [⟨.number, String.ofList (Numeral.pointed whole places),
        .number (Numeral.value whole places), lineAfter 1 (Numeral.pointed whole places)⟩,
      endOfInput (lineAfter 1 (Numeral.pointed whole places))]) at scans
  rw [line] at scans
  rw [String.toList_ofList]
  exact scans

end Token

namespace Binary64

theorem toNat_fields (bits : UInt64) :
    bits.toNat = (if decide (signBit ≤ bits.toNat) then signBit else 0) + bits.toNat % signBit := by
  have most := bits.toNat_lt
  unfold signBit
  by_cases negative : 0x8000000000000000 ≤ bits.toNat
  · rw [decide_eq_true negative, if_pos rfl]
    omega
  · rw [decide_eq_false negative, if_neg Bool.false_ne_true]
    omega

theorem read_finite {bits : UInt64} {negative : Bool} {magnitude : Nat}
    (finite : read bits = .finite negative magnitude) :
    magnitude < infinity ∧ bits.toNat = (if negative then signBit else 0) + magnitude := by
  have fields := toNat_fields bits
  unfold read at finite
  dsimp only at finite
  split at finite
  · cases finite
  split at finite
  · cases finite
  · next small different =>
      cases finite
      exact ⟨by omega, fields⟩

theorem read_infinite {bits : UInt64} {negative : Bool} (infinite : read bits = .infinite negative) :
    bits.toNat = (if negative then signBit else 0) + infinity := by
  have fields := toNat_fields bits
  unfold read at infinite
  dsimp only at infinite
  split at infinite
  · cases infinite
  split at infinite
  · next large same =>
      cases infinite
      rw [same] at fields
      exact fields
  · cases infinite

end Binary64

/-- Numbers that are one have different texts if their bits differ. -/
theorem Number.write_injective {first second : UInt64} (isNumber : Binary64.read first ≠ .notANumber)
    (alsoNumber : Binary64.read second ≠ .notANumber)
    (same : write .printed first = write .printed second) : first = second := by
  have infinite : ∀ {bits : UInt64} {negative : Bool}, Binary64.read bits = .infinite negative →
      write .printed bits = (if negative then "-" else "") ++ NumberStyle.printed.infinity := by
    intro bits negative known
    unfold write
    rw [known]
  apply UInt64.toNat_inj.mp
  cases firstRead : Binary64.read first with
  | notANumber => exact absurd firstRead isNumber
  | infinite negative =>
      cases secondRead : Binary64.read second with
      | notANumber => exact absurd secondRead alsoNumber
      | infinite other =>
          rw [infinite firstRead, infinite secondRead] at same
          have sign : negative = other := by
            cases negative <;> cases other <;> first | rfl | exact absurd same (by decide)
          rw [Binary64.read_infinite firstRead, Binary64.read_infinite secondRead, sign]
      | finite other magnitude =>
          obtain ⟨decimal, read, _⟩ := signed?_write secondRead
          rw [← same, infinite firstRead, signed?_infinite] at read
          cases read
  | finite negative magnitude =>
      obtain ⟨decimal, read, rounds⟩ := signed?_write firstRead
      cases secondRead : Binary64.read second with
      | notANumber => exact absurd secondRead alsoNumber
      | infinite other =>
          rw [same, infinite secondRead, signed?_infinite] at read
          cases read
      | finite other larger =>
          obtain ⟨also, alsoRead, alsoRounds⟩ := signed?_write secondRead
          rw [same, alsoRead] at read
          cases read
          rw [(Binary64.read_finite firstRead).2, (Binary64.read_finite secondRead).2,
            rounds.unique alsoRounds]

/-- A numeral without an exponent has the value that it is written for. -/
theorem Numeral.value_eq {whole places : List Char} {magnitude : Nat}
    (rounds : Binary64.Rounds
      (Decimal.value ⟨digitsValue (whole ++ places), -places.length⟩) magnitude)
    (within : magnitude < Binary64.infinity) :
    Numeral.value whole places = Float.ofBits (UInt64.ofNat magnitude) := by
  unfold Numeral.value Numeral.number
  rw [magnitude_eq rounds (Nat.le_of_lt within)]
  change Float.ofBits (UInt64.ofNat (0 + magnitude)) = _
  rw [Nat.zero_add]

/-- The text of a number reads back as that number. Numbers with different bits have different
texts; a finite number is the nearest one to what its text stands for, the even one of two as near;
and the text without its sign is one token for the number without its sign if it is zero or between
a thousandth and ten million, and is scaled otherwise. -/
theorem number_text_reads_back :
    (∀ first second : UInt64, Binary64.read first ≠ .notANumber →
      Binary64.read second ≠ .notANumber →
      Number.write .printed first = Number.write .printed second → first = second) ∧
    ∀ (bits : UInt64) (negative : Bool) (magnitude : Nat),
      Binary64.read bits = .finite negative magnitude →
      ∃ unsigned, Number.write .printed bits = String.ofList (Numeral.signed negative unsigned) ∧
        (∃ decimal, Numeral.decimal? unsigned = some decimal ∧
          Binary64.Rounds decimal.value magnitude) ∧
        (Number.Plain magnitude → Token.scan (String.ofList unsigned)
          = .ok [⟨.number, String.ofList unsigned,
              .number (Float.ofBits (UInt64.ofNat magnitude)), 1⟩, Token.endOfInput 1]) ∧
        (¬ Number.Plain magnitude → Numeral.Scaled unsigned) := by
  refine ⟨fun first second => Number.write_injective, ?_⟩
  intro bits negative magnitude finite
  refine ⟨Number.writeMagnitude .printed magnitude, Number.write_finite finite,
    Number.decimal?_writeMagnitude magnitude, ?_, ?_⟩
  · intro plain
    obtain ⟨whole, places, same, nonempty, digits, rounds⟩ := Number.writeMagnitude_plain plain
    rw [same, Token.scan_pointed nonempty digits,
      Numeral.value_eq rounds (Binary64.read_finite finite).1]
  · intro other
    obtain ⟨first, places, power, same, fractional, digits, _⟩ :=
      Number.writeMagnitude_scaled other
    rw [same]
    exact Numeral.scaled_powerText fractional digits power

/-- The two zeros have different texts, and a tenth is read back from its text. -/
theorem zeros_and_tenth_read_back :
    (Binary64.read 0 ≠ .notANumber ∧ Binary64.read 0x8000000000000000 ≠ .notANumber ∧
      Number.write .printed 0 ≠ Number.write .printed 0x8000000000000000) ∧
    Binary64.read 0x3fb999999999999a = .finite false 0x3fb999999999999a ∧
      ∃ unsigned, Number.write .printed 0x3fb999999999999a
          = String.ofList (Numeral.signed false unsigned) ∧
        ∃ decimal, Numeral.decimal? unsigned = some decimal ∧
          Binary64.Rounds decimal.value 0x3fb999999999999a := by
  have zero : Binary64.read 0 ≠ .notANumber := by decide
  have negativeZero : Binary64.read 0x8000000000000000 ≠ .notANumber := by decide
  have tenth : Binary64.read 0x3fb999999999999a = .finite false 0x3fb999999999999a := by decide
  refine ⟨⟨zero, negativeZero, fun same => ?_⟩, tenth, ?_⟩
  · have equal := number_text_reads_back.1 _ _ zero negativeZero same
    exact absurd equal (by decide)
  · obtain ⟨unsigned, written, read, _⟩ := number_text_reads_back.2 _ _ _ tenth
    exact ⟨unsigned, written, read⟩

end Lox
