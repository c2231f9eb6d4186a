import Lox.Token.Scan
set_option autoImplicit false

/-! What is cut from the front of a text, case by case: which characters a piece is made of, and
which it is not followed by; and how a text is scanned, piece by piece. -/

namespace Lox

namespace Piece

/-- The text does not go on with a character that passes the test. -/
def Stops (test : Char → Bool) (text : List Char) : Prop :=
  ∀ next, text.head? = some next → test next = false

theorem stops_dropWhile (test : Char → Bool) (text : List Char) :
    Stops test (text.dropWhile test) := by
  intro next first
  have behind := List.head?_dropWhile_not test text
  rw [first] at behind
  simpa using behind

theorem holds_takeWhile {test : Char → Bool} {text : List Char} :
    ∀ character ∈ text.takeWhile test, test character = true :=
  List.all_eq_true.mp List.all_takeWhile

theorem takeWhile_stops {test : Char → Bool} {front behind : List Char}
    (inside : ∀ character ∈ front, test character = true)
    (ends : Stops test behind) : (front ++ behind).takeWhile test = front := by
  rw [List.takeWhile_append_of_pos inside]
  cases behind with
  | nil => exact List.append_nil front
  | cons next more =>
      rw [List.takeWhile_cons_of_neg (ne_true_of_eq_false (ends next rfl)), List.append_nil]

theorem dropWhile_stops {test : Char → Bool} {front behind : List Char}
    (inside : ∀ character ∈ front, test character = true)
    (ends : Stops test behind) : (front ++ behind).dropWhile test = behind := by
  rw [List.dropWhile_append_of_pos inside]
  cases behind with
  | nil => rfl
  | cons next more => exact List.dropWhile_cons_of_neg (ne_true_of_eq_false (ends next rfl))

theorem stops_of_ne {mark : Char} {text : List Char} (other : ∀ others, text ≠ mark :: others) :
    Stops (· == mark) text := by
  intro next first
  obtain ⟨others, rfl⟩ := List.head?_eq_some_iff.mp first
  exact beq_false_of_ne fun same => other others (by rw [same])

theorem isWordPart_of_digit {character : Char} (digit : character.isDigit = true) :
    isWordPart character = true := by
  unfold isWordPart Char.isAlphanum
  rw [digit, Bool.or_true, Bool.true_or]

theorem isWordPart_of_wordStart {character : Char} (start : isWordStart character = true) :
    isWordPart character = true := by
  unfold isWordPart Char.isAlphanum
  rcases Bool.or_eq_true_iff.mp start with letter | underscore
  · rw [letter, Bool.true_or, Bool.true_or]
  · rw [underscore, Bool.or_true]

theorem bounds_of_isAlpha {character : Char} (letter : character.isAlpha = true) :
    65 ≤ character.toNat ∧ character.toNat ≤ 122 := by
  rcases Bool.or_eq_true_iff.mp letter with upper | lower
  · have bounds := of_decide_eq_true upper
    exact ⟨UInt32.le_iff_toNat_le.mp bounds.1,
      Nat.le_trans (UInt32.le_iff_toNat_le.mp bounds.2) (by decide)⟩
  · obtain ⟨least, most⟩ := Bool.and_eq_true_iff.mp lower
    exact ⟨Nat.le_trans (by decide) (UInt32.le_iff_toNat_le.mp (of_decide_eq_true least)),
      UInt32.le_iff_toNat_le.mp (of_decide_eq_true most)⟩

theorem bounds_of_isDigit {character : Char} (digit : character.isDigit = true) :
    48 ≤ character.toNat ∧ character.toNat ≤ 57 := by
  obtain ⟨least, most⟩ := Bool.and_eq_true_iff.mp digit
  exact ⟨UInt32.le_iff_toNat_le.mp (of_decide_eq_true least),
    UInt32.le_iff_toNat_le.mp (of_decide_eq_true most)⟩

/-- No word starts with a digit. -/
theorem isDigit_of_wordStart {character : Char} (start : isWordStart character = true) :
    character.isDigit = false := by
  apply eq_false_of_ne_true
  intro digit
  have within := bounds_of_isDigit digit
  rcases Bool.or_eq_true_iff.mp start with letter | underscore
  · have beyond := bounds_of_isAlpha letter
    omega
  · rw [beq_iff_eq.mp underscore] at within
    exact absurd within.2 (by decide)

/-- A character starts no piece. -/
def isUnexpected (first : Char) : Bool :=
  (single? first).isNone && (equalable? first).isNone && !isLayout first && first != '/'
    && first != '"' && !first.isDigit && !isWordStart first

/-- What cutting comes to, and why. -/
inductive Cuts (first : Char) (rest : List Char) : Except LexicalError Piece → Prop
  | single {kind : TokenKind} (known : single? first = some kind) :
      Cuts first rest (.ok (mark kind [first] rest))
  | long {short long : TokenKind} {others : List Char}
      (known : equalable? first = some (short, long)) (lengthened : rest = '=' :: others) :
      Cuts first rest (.ok (mark long [first, '='] others))
  | short {short long : TokenKind} (known : equalable? first = some (short, long))
      (ends : Stops (· == '=') rest) :
      Cuts first rest (.ok (mark short [first] rest))
  | layout (blank : isLayout first = true) : Cuts first rest (.ok (gap [first] rest))
  | comment {content others : List Char} (starts : first = '/')
      (whole : rest = '/' :: (content ++ others))
      (inside : ∀ character ∈ content, character != '\n') (ends : Stops (· != '\n') others) :
      Cuts first rest (.ok (gap ('/' :: '/' :: content) others))
  | slash (starts : first = '/') (ends : Stops (· == '/') rest) :
      Cuts first rest (.ok (mark .slash ['/'] rest))
  | string {content others : List Char} (starts : first = '"')
      (whole : rest = content ++ '"' :: others) (inside : ∀ character ∈ content, character != '"') :
      Cuts first rest
        (.ok ⟨some (.string, .string (String.ofList content)), '"' :: content ++ ['"'], others⟩)
  | unterminated (starts : first = '"') (inside : ∀ character ∈ rest, character != '"') :
      Cuts first rest (.error .unterminatedString)
  | whole {digits others : List Char} (starts : first.isDigit = true)
      (whole : rest = digits ++ others) (inside : ∀ character ∈ digits, character.isDigit)
      (ends : Stops Char.isDigit others)
      (pointless : ∀ digit more, others = '.' :: digit :: more → digit.isDigit = false) :
      Cuts first rest
        (.ok ⟨some (.number, .number (Numeral.value (first :: digits) [])),
          first :: digits, others⟩)
  | decimal {digits places others : List Char} (starts : first.isDigit = true)
      (whole : rest = digits ++ '.' :: (places ++ others))
      (inside : ∀ character ∈ digits, character.isDigit) (fractional : places ≠ [])
      (behind : ∀ character ∈ places, character.isDigit) (ends : Stops Char.isDigit others) :
      Cuts first rest
        (.ok ⟨some (.number, .number (Numeral.value (first :: digits) places)),
          first :: digits ++ '.' :: places, others⟩)
  | word {parts others : List Char} (starts : isWordStart first = true)
      (whole : rest = parts ++ others) (inside : ∀ character ∈ parts, isWordPart character)
      (ends : Stops isWordPart others) :
      Cuts first rest
        (.ok (mark (.ofWord (String.ofList (first :: parts))) (first :: parts) others))
  | unexpected (unknown : isUnexpected first = true) :
      Cuts first rest (.error .unexpectedCharacter)

theorem equalable_cuts {first : Char} {short long : TokenKind}
    (known : equalable? first = some (short, long)) (rest : List Char) :
    Cuts first rest (.ok (equalable first short long rest)) := by
  unfold equalable
  split
  · exact .long known rfl
  · next other => exact .short known (stops_of_ne other)

theorem slash_cuts (rest : List Char) : Cuts '/' rest (.ok (slash rest)) := by
  unfold slash
  split
  · next others =>
      refine .comment rfl ?_ holds_takeWhile (stops_dropWhile _ others)
      rw [List.takeWhile_append_dropWhile]
  · next other => exact .slash rfl (stops_of_ne other)

theorem string_cuts (rest : List Char) : Cuts '"' rest (string rest) := by
  have whole := List.takeWhile_append_dropWhile (p := (· != '"')) (l := rest)
  have inside : ∀ character ∈ rest.takeWhile (· != '"'), (character != '"') = true :=
    holds_takeWhile
  have ends := stops_dropWhile (· != '"') rest
  unfold string
  split
  · next none =>
      rw [none, List.append_nil] at whole
      rw [whole] at inside
      exact .unterminated rfl inside
  · next quote others behind =>
      rw [behind] at whole ends
      have closing : quote = '"' := by simpa using ends quote rfl
      subst closing
      exact .string rfl whole.symm inside

theorem fraction_cases (text : List Char) :
    (∃ digit more, text = '.' :: digit :: more ∧ digit.isDigit = true ∧
      fraction text = (digit :: more.takeWhile Char.isDigit, more.dropWhile Char.isDigit)) ∨
    fraction text = ([], text) ∧
      ∀ digit more, text = '.' :: digit :: more → digit.isDigit = false := by
  unfold fraction
  split
  · next digit more =>
      by_cases pointed : digit.isDigit = true
      · exact Or.inl ⟨digit, more, rfl, pointed, if_pos pointed⟩
      · refine Or.inr ⟨if_neg pointed, ?_⟩
        intro other others same
        cases same
        exact eq_false_of_ne_true pointed
  · next other => exact Or.inr ⟨rfl, fun digit more same => absurd same (other digit more)⟩

theorem number_cuts {first : Char} (starts : first.isDigit = true) (rest : List Char) :
    Cuts first rest (.ok (number first rest)) := by
  have whole := List.takeWhile_append_dropWhile (p := Char.isDigit) (l := rest)
  have ends := stops_dropWhile Char.isDigit rest
  unfold number
  rcases fraction_cases (rest.dropWhile Char.isDigit) with
    ⟨digit, more, behind, pointed, cut⟩ | ⟨cut, pointless⟩
  · simp only [cut, List.isEmpty_cons]
    refine .decimal starts ?_ holds_takeWhile (List.cons_ne_nil _ _) ?_ (stops_dropWhile _ more)
    · rw [List.cons_append, List.takeWhile_append_dropWhile, ← behind, whole]
    · intro character among
      rcases List.mem_cons.mp among with rfl | inside
      · exact pointed
      · exact holds_takeWhile character inside
  · simp only [cut, List.isEmpty_nil]
    exact .whole starts whole.symm holds_takeWhile ends pointless

theorem word_cuts {first : Char} (starts : isWordStart first = true) (rest : List Char) :
    Cuts first rest (.ok (word first rest)) :=
  .word starts (List.takeWhile_append_dropWhile).symm holds_takeWhile (stops_dropWhile _ rest)

theorem cut_cuts (first : Char) (rest : List Char) : Cuts first rest (cut first rest) := by
  unfold cut
  split
  · next known => exact .single known
  · next known => exact equalable_cuts known rest
  · next unknown alsoUnknown =>
      split
      · next blank => exact .layout blank
      split
      · next starts =>
          subst starts
          exact slash_cuts rest
      split
      · next starts =>
          subst starts
          exact string_cuts rest
      split
      · next starts => exact number_cuts starts rest
      split
      · next starts => exact word_cuts starts rest
      · next blank mark quote digit start =>
          refine .unexpected ?_
          unfold isUnexpected
          simp_all

/-- The token of a piece that ends on the line, if it is one. -/
def tokens (line : Nat) (piece : Piece) : List Token :=
  match piece.token? with
  | none => []
  | some (kind, literal) => [⟨kind, String.ofList piece.text, literal, line⟩]

end Piece

theorem Token.lineAfter_append (line : Nat) (front back : List Char) :
    lineAfter (lineAfter line front) back = lineAfter line (front ++ back) := by
  unfold lineAfter
  rw [List.count_append, Nat.add_assoc]

theorem Piece.Splits.lineAfter_rest {piece : Piece} {text : List Char} (splits : piece.Splits text)
    (line : Nat) :
    Token.lineAfter (Token.lineAfter line piece.text) piece.rest = Token.lineAfter line text := by
  rw [Token.lineAfter_append, splits.text_append_rest]

open Piece

/-- What scanning comes to from a line on, piece by piece. -/
inductive Scans : Nat → List Char → Except LexicalFailure (List Token) → Prop
  | ends (line : Nat) : Scans line [] (.ok [Token.endOfInput line])
  | fails {line : Nat} {first : Char} {rest : List Char} {error : LexicalError}
      (cuts : Cuts first rest (.error error)) :
      Scans line (first :: rest) (.error (Token.failureAt line (first :: rest) error))
  | more {line : Nat} {first : Char} {rest : List Char} {piece : Piece}
      {outcome : Except LexicalFailure (List Token)} (cuts : Cuts first rest (.ok piece))
      (splits : piece.Splits (first :: rest))
      (behind : Scans (Token.lineAfter line piece.text) piece.rest outcome) :
      Scans line (first :: rest)
        (outcome.map (piece.tokens (Token.lineAfter line piece.text) ++ ·))

theorem scanFrom_scans (found : List Token) (line : Nat) (text : List Char) :
    ∃ outcome, Scans line text outcome ∧
      Token.scanFrom found line text = outcome.map (found.reverse ++ ·) := by
  fun_induction Token.scanFrom found line text with
  | case1 found line => exact ⟨_, .ends line, by simp [Except.map]⟩
  | case2 found line first rest error cutOff =>
      have cuts := cut_cuts first rest
      rw [cutOff] at cuts
      exact ⟨_, .fails cuts, rfl⟩
  | case3 found line first rest piece cutOff after gap ih =>
      obtain ⟨outcome, scans, same⟩ := ih
      have cuts := cut_cuts first rest
      rw [cutOff] at cuts
      refine ⟨_, .more cuts (cut_splits cutOff) scans, ?_⟩
      have nothing : piece.tokens (Token.lineAfter line piece.text) = [] := by
        unfold tokens
        rw [gap]
      rw [nothing]
      exact same.trans (by cases outcome <;> rfl)
  | case4 found line first rest piece cutOff after kind literal lexeme ih =>
      obtain ⟨outcome, scans, same⟩ := ih
      have cuts := cut_cuts first rest
      rw [cutOff] at cuts
      refine ⟨_, .more cuts (cut_splits cutOff) scans, ?_⟩
      have one : piece.tokens (Token.lineAfter line piece.text)
          = [⟨kind, String.ofList piece.text, literal, Token.lineAfter line piece.text⟩] := by
        unfold tokens
        rw [lexeme]
      rw [one, same, List.reverse_cons]
      cases outcome with
      | error failure => rfl
      | ok tokens => exact congrArg Except.ok (List.append_assoc _ _ _)

theorem scan_scans (source : String) : Scans 1 source.toList (Token.scan source) := by
  obtain ⟨outcome, scans, same⟩ := scanFrom_scans [] 1 source.toList
  unfold Token.scan
  rw [same]
  cases outcome <;> exact scans

end Lox
