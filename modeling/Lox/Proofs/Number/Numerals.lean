import Lox.Proofs.Number.ShortestDecimal
import Lox.Proofs.Token.Pieces
set_option autoImplicit false

/-! Numerals read in full: digits, maybe a fraction, and maybe a power of ten behind the mark. What
the printed style writes, positionally or scaled, is a numeral for the decimal that was to be
written. -/

namespace Lox

open Piece (Stops takeWhile_stops dropWhile_stops)

namespace Numeral

/-! ### Reading -/

def natural? (text : List Char) : Option Nat :=
  if text.isEmpty || !text.all Char.isDigit then none else some (digitsValue text)

def integer? : List Char → Option Int
  | '-' :: text => (natural? text).map fun size : Nat => -(size : Int)
  | text => (natural? text).map fun size : Nat => (size : Int)

/-- The power of ten behind the mark, which is 0 if nothing is there. -/
def power? : List Char → Option Int
  | [] => some 0
  | 'E' :: text => integer? text
  | _ => none

/-- The exact decimal that a text without a sign stands for. -/
def decimal? (text : List Char) : Option Decimal :=
  let whole := text.takeWhile Char.isDigit
  let (places, others) := Piece.fraction (text.dropWhile Char.isDigit)
  if whole.isEmpty then none
  else (power? others).map fun power => ⟨digitsValue (whole ++ places), power - places.length⟩

/-- Digits before and behind a point, or without one. -/
def pointed (whole places : List Char) : List Char :=
  if places.isEmpty then whole else whole ++ '.' :: places

/-- The power of ten as a scaled number has it behind its mark. -/
def powerText : Int → List Char
  | .ofNat size => Nat.toDigits 10 size
  | .negSucc size => '-' :: Nat.toDigits 10 (size + 1)

theorem pointed_singleton {first : Char} {places : List Char} (fractional : places ≠ []) :
    pointed [first] places = first :: '.' :: places := by
  unfold pointed
  rw [if_neg (mt List.isEmpty_iff.mp fractional)]
  rfl

theorem mem_pointed {whole places : List Char} {character : Char}
    (among : character ∈ pointed whole places) : character = '.' ∨ character ∈ whole ++ places := by
  unfold pointed at among
  split at among
  · exact Or.inr (List.mem_append_left _ among)
  · rcases List.mem_append.mp among with front | behind
    · exact Or.inr (List.mem_append_left _ front)
    · exact (List.mem_cons.mp behind).imp_right (List.mem_append_right _)

/-! ### Digits -/

theorem digitsValue_eq (digits : List Char) : digitsValue digits = Nat.ofDigitChars 10 digits 0 := by
  unfold digitsValue
  rw [Nat.ofDigitChars_eq_foldl]
  simp only [Nat.mul_comm]

theorem digitsValue_toDigits (number : Nat) : digitsValue (Nat.toDigits 10 number) = number := by
  rw [digitsValue_eq, Nat.ofDigitChars_ten_toDigits]

theorem digitsValue_zeros_behind (digits : List Char) (zeros : Nat) :
    digitsValue (digits ++ List.replicate zeros '0') = digitsValue digits * 10 ^ zeros := by
  rw [digitsValue_eq, Nat.ofDigitChars_append, Nat.ofDigitChars_replicate_zero, digitsValue_eq,
    Nat.mul_comm]

theorem digitsValue_zeros_before (digits : List Char) (zeros : Nat) :
    digitsValue (List.replicate zeros '0' ++ digits) = digitsValue digits := by
  rw [digitsValue_eq, Nat.ofDigitChars_append, Nat.ofDigitChars_replicate_zero, Nat.mul_zero,
    digitsValue_eq]

theorem isDigit_toDigits (number : Nat) : ∀ digit ∈ Nat.toDigits 10 number, digit.isDigit = true :=
  fun _ among => Nat.isDigit_of_mem_toDigits (by decide) (by decide) among

theorem mem_powerText {power : Int} {character : Char} (among : character ∈ powerText power) :
    character = '-' ∨ character.isDigit = true := by
  cases power with
  | ofNat size => exact Or.inr (isDigit_toDigits size character among)
  | negSucc size =>
      exact (List.mem_cons.mp among).imp_right (isDigit_toDigits (size + 1) character)

theorem isDigit_zeros (zeros : Nat) : ∀ digit ∈ List.replicate zeros '0', digit.isDigit = true := by
  intro digit among
  rw [List.eq_of_mem_replicate among]
  rfl

/-! ### Reading what is written -/

section

variable {whole places digits others : List Char}

theorem natural?_digits (nonempty : digits ≠ []) (all : ∀ digit ∈ digits, digit.isDigit = true) :
    natural? digits = some (digitsValue digits) := by
  have present : digits.isEmpty = false := List.isEmpty_eq_false_iff.mpr nonempty
  have every : digits.all Char.isDigit = true := List.all_eq_true.mpr all
  unfold natural?
  rw [present, every]
  rfl

theorem integer?_powerText (power : Int) : integer? (powerText power) = some power := by
  cases power with
  | ofNat size =>
      have read := natural?_digits Nat.toDigits_ne_nil (isDigit_toDigits size)
      rw [digitsValue_toDigits] at read
      change integer? (Nat.toDigits 10 size) = _
      unfold integer?
      split
      · next rest same =>
          have dash := isDigit_toDigits size '-' (by rw [same]; exact List.mem_cons_self)
          cases dash
      · rw [read]
        rfl
  | negSucc size =>
      have read := natural?_digits Nat.toDigits_ne_nil (isDigit_toDigits (size + 1))
      rw [digitsValue_toDigits] at read
      change (natural? (Nat.toDigits 10 (size + 1))).map (fun size : Nat => -(size : Int)) = _
      rw [read]
      rfl

theorem decimal?_pointed (nonempty : whole ≠ [])
    (all : ∀ digit ∈ whole ++ places, digit.isDigit = true) (ends : Stops Char.isDigit others)
    (pointless : others.head? ≠ some '.') :
    decimal? (pointed whole places ++ others)
      = (power? others).map fun power =>
          ⟨digitsValue (whole ++ places), power - places.length⟩ := by
  have front : ∀ digit ∈ whole, digit.isDigit = true :=
    fun digit among => all digit (List.mem_append_left _ among)
  have back : ∀ digit ∈ places, digit.isDigit = true :=
    fun digit among => all digit (List.mem_append_right _ among)
  have present : ¬ whole.isEmpty = true := by
    rw [List.isEmpty_iff]
    exact nonempty
  unfold decimal?
  cases places with
  | nil =>
      have cut : Piece.fraction others = ([], others) := by
        rcases Piece.fraction_cases others with ⟨digit, more, rfl, _⟩ | ⟨cut, _⟩
        · exact absurd rfl pointless
        · exact cut
      have same : pointed whole [] ++ others = whole ++ others := rfl
      rw [same]
      simp only [takeWhile_stops front ends, dropWhile_stops front ends, cut, if_neg present,
        List.append_nil]
  | cons place more =>
      obtain ⟨isDigit, inside⟩ := List.forall_mem_cons.mp back
      have point : Stops Char.isDigit ('.' :: (place :: more ++ others)) := by
        intro next first
        cases first
        rfl
      have cut : Piece.fraction ('.' :: (place :: more ++ others)) = (place :: more, others) := by
        change (if place.isDigit = true
          then (place :: (more ++ others).takeWhile Char.isDigit,
            (more ++ others).dropWhile Char.isDigit) else _) = _
        rw [if_pos isDigit, takeWhile_stops inside ends, dropWhile_stops inside ends]
      have same : pointed whole (place :: more) ++ others
          = whole ++ '.' :: (place :: more ++ others) := List.append_assoc _ _ _
      rw [same]
      simp only [takeWhile_stops front point, dropWhile_stops front point, cut, if_neg present]

/-- Digits with or without a point are a numeral by themselves. -/
theorem decimal?_plain (nonempty : whole ≠ [])
    (all : ∀ digit ∈ whole ++ places, digit.isDigit = true) :
    decimal? (pointed whole places) = some ⟨digitsValue (whole ++ places), -places.length⟩ := by
  have ends : Stops Char.isDigit [] := by
    intro next first
    cases first
  have read := decimal?_pointed nonempty all ends nofun
  rw [List.append_nil] at read
  rw [read, power?, Option.map_some, Int.zero_sub]

theorem decimal?_scaled (nonempty : whole ≠ [])
    (all : ∀ digit ∈ whole ++ places, digit.isDigit = true) {power : Int}
    (read : integer? others = some power) :
    decimal? (pointed whole places ++ 'E' :: others)
      = some ⟨digitsValue (whole ++ places), power - places.length⟩ := by
  have mark : Stops Char.isDigit ('E' :: others) := by
    intro next first
    cases first
    rfl
  rw [decimal?_pointed nonempty all mark (fun point => by cases point), power?, read]
  rfl

end

/-- A number is the nearest one to its decimal. -/
theorem magnitude_eq {digits : Nat} {exponent : Int} {magnitude : Nat}
    (rounds : Binary64.Rounds (Decimal.value ⟨digits, exponent⟩) magnitude)
    (within : magnitude ≤ Binary64.infinity) : Numeral.magnitude digits exponent = magnitude := by
  have unit : (2 : ℚ) ^ Binary64.unitsOfOne ≠ 0 := by positivity
  cases exponent with
  | ofNat zeros =>
      apply Binary64.nearest_eq Nat.one_pos _ within
      have same : (((digits * Nat.pow 10 zeros) <<< Binary64.unitsOfOne : Nat) : ℚ) / (1 : Nat)
          / 2 ^ Binary64.unitsOfOne = Decimal.value ⟨digits, .ofNat zeros⟩ := by
        rw [Nat.shiftLeft_eq, Nat.cast_mul, Nat.cast_one, div_one, Nat.cast_pow, Nat.cast_two,
          mul_div_assoc, div_self unit, mul_one, Nat.pow_eq, Nat.cast_mul, Nat.cast_pow]
        exact congrArg _ (zpow_natCast 10 zeros).symm
      rw [same]
      exact rounds
  | negSucc places =>
      apply Binary64.nearest_eq (Nat.pow_pos (by decide)) _ within
      have same : ((digits <<< Binary64.unitsOfOne : Nat) : ℚ) / (10 ^ (places + 1) : Nat)
          / 2 ^ Binary64.unitsOfOne = Decimal.value ⟨digits, .negSucc places⟩ := by
        rw [Nat.shiftLeft_eq, Nat.cast_mul, Nat.cast_pow, Nat.cast_two, div_right_comm,
          mul_div_assoc, div_self unit, mul_one, Nat.cast_pow, Decimal.value,
          zpow_negSucc, div_eq_mul_inv]
        rfl
      rw [same]
      exact rounds

end Numeral

/-! ### Writing -/

namespace Number

open Numeral

/-- What is written positionally has some digits in front of the point, and the value to be
written. -/
theorem positional_pointed {digits : List Char} (nonempty : digits ≠ [])
    (all : ∀ digit ∈ digits, digit.isDigit = true) (exponent : Int) :
    ∃ whole places, positional false digits exponent = pointed whole places ∧ whole ≠ [] ∧
      (∀ digit ∈ whole ++ places, digit.isDigit = true) ∧
      Decimal.value ⟨digitsValue (whole ++ places), -places.length⟩
        = Decimal.value ⟨digitsValue digits, exponent⟩ := by
  cases exponent with
  | ofNat zeros =>
      refine ⟨digits ++ List.replicate zeros '0', [], List.append_nil _,
        List.append_ne_nil_of_left_ne_nil nonempty _, ?_, ?_⟩
      · rw [List.append_nil]
        exact List.forall_mem_append.mpr ⟨all, isDigit_zeros zeros⟩
      · unfold Decimal.value
        rw [List.append_nil, digitsValue_zeros_behind]
        simp
  | negSucc places =>
      have exponent : Int.negSucc places = -((places + 1 : Nat) : Int) := rfl
      unfold positional
      dsimp only
      by_cases inside : places + 1 < digits.length
      · have parts := List.take_append_drop (digits.length - (places + 1)) digits
        have behind : (digits.drop (digits.length - (places + 1))).length = places + 1 := by
          rw [List.length_drop]
          omega
        have some : digits.drop (digits.length - (places + 1)) ≠ [] := by
          intro none
          rw [none] at behind
          cases behind
        refine ⟨digits.take (digits.length - (places + 1)),
          digits.drop (digits.length - (places + 1)), ?_, ?_, ?_, ?_⟩
        · rw [if_pos inside, pointed, if_neg (mt List.isEmpty_iff.mp some)]
        · intro none
          have before := congrArg List.length none
          rw [List.length_take, List.length_nil] at before
          omega
        · rw [parts]
          exact all
        · rw [parts, behind, exponent]
      · have padded : (List.replicate (places + 1 - digits.length) '0' ++ digits).length
            = places + 1 := by
          rw [List.length_append, List.length_replicate]
          omega
        refine ⟨['0'], List.replicate (places + 1 - digits.length) '0' ++ digits, ?_, nofun, ?_, ?_⟩
        · rw [if_neg inside, pointed, if_neg]
          · rfl
          · rw [List.isEmpty_iff]
            exact List.append_ne_nil_of_right_ne_nil _ nonempty
        · have padding := isDigit_zeros (places + 1 - digits.length)
          exact List.forall_mem_append.mpr
            ⟨isDigit_zeros 1, List.forall_mem_append.mpr ⟨padding, all⟩⟩
        · rw [padded, exponent]
          change Decimal.value ⟨digitsValue (List.replicate 1 '0'
            ++ (List.replicate (places + 1 - digits.length) '0' ++ digits)), _⟩ = _
          rw [digitsValue_zeros_before, digitsValue_zeros_before]

/-- What is scaled has one digit in front of the point, some behind it, and a power of ten. -/
theorem scaled_pointed {digits : List Char} (nonempty : digits ≠ [])
    (all : ∀ digit ∈ digits, digit.isDigit = true) (exponent : Int) :
    ∃ first places, scaled .printed digits exponent
        = first :: '.' :: places ++ 'E' :: powerText exponent ∧
      places ≠ [] ∧ (∀ digit ∈ first :: places, digit.isDigit = true) ∧
      Decimal.value ⟨digitsValue (first :: places), exponent - places.length⟩
        = Decimal.value ⟨digitsValue digits, exponent + 1 - digits.length⟩ := by
  match digits, nonempty with
  | [digit], _ =>
      refine ⟨digit, ['0'], rfl, nofun, ?_, ?_⟩
      · exact List.forall_mem_cons.mpr ⟨all digit List.mem_cons_self, isDigit_zeros 1⟩
      · have behind : digitsValue [digit, '0'] = digitsValue [digit] * 10 :=
          digitsValue_zeros_behind [digit] 1
        unfold Decimal.value
        simp only [behind, List.length_singleton, Nat.cast_one, add_sub_cancel_right, Nat.cast_mul]
        rw [zpow_sub₀ (by norm_num), zpow_one, Nat.cast_ofNat]
        ring
  | digit :: next :: others, _ =>
      refine ⟨digit, next :: others, rfl, nofun, all, ?_⟩
      have same : exponent - ((next :: others).length : Int)
          = exponent + 1 - ((digit :: next :: others).length : Int) := by
        simp only [List.length_cons]
        omega
      rw [same]

end Number

end Lox
