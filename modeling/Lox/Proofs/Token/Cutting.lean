import Lox.Proofs.Token.Lossless
set_option autoImplicit false

/-! What is cut from a text, and how it is scanned, is settled by the conditions that `Piece.Cuts`
and `Scans` state. So a scan may be put together piece by piece, without cutting anything. -/

namespace Lox

namespace Piece

/-! ### Which way a character leads -/

variable {first : Char}

/-- The characters that start no mark. -/
def isPlain (first : Char) : Bool :=
  isLayout first || first == '/' || first == '"' || first.isDigit || isWordStart first

theorem single?_plain (plain : isPlain first = true) : single? first = none := by
  unfold single?
  split <;> first | rfl | exact absurd plain (by decide)

theorem equalable?_plain (plain : isPlain first = true) : equalable? first = none := by
  unfold equalable?
  split <;> first | rfl | exact absurd plain (by decide)

theorem single?_equalable {pair : TokenKind × TokenKind} (known : equalable? first = some pair) :
    single? first = none := by
  unfold equalable? at known
  split at known <;> first | rfl | cases known

theorem cut_single {kind : TokenKind} (known : single? first = some kind) (rest : List Char) :
    cut first rest = .ok (mark kind [first] rest) := by
  unfold cut
  rw [known]

theorem cut_equalable {short long : TokenKind} (known : equalable? first = some (short, long))
    (rest : List Char) : cut first rest = .ok (equalable first short long rest) := by
  unfold cut
  rw [single?_equalable known, known]

theorem cut_layout (blank : isLayout first = true) (rest : List Char) :
    cut first rest = .ok (gap [first] rest) := by
  have plain : isPlain first = true := by
    unfold isPlain
    rw [blank]
    rfl
  unfold cut
  rw [single?_plain plain, equalable?_plain plain]
  exact if_pos blank

theorem mem_of_isLayout (blank : isLayout first = true) : first ∈ [' ', '\t', '\r', '\n'] := by
  unfold isLayout at blank
  simp only [Bool.or_eq_true, beq_iff_eq] at blank
  rcases blank with ((rfl | rfl) | rfl) | rfl <;> decide

/-- No digit and no start of a word is a blank, a slash or a quote. -/
theorem isWordPart_other (part : isWordPart first = true) :
    isLayout first = false ∧ first ≠ '/' ∧ first ≠ '"' := by
  refine ⟨?_, ?_, ?_⟩
  · apply eq_false_of_ne_true
    intro blank
    have others : [' ', '\t', '\r', '\n'].all (fun blank => !isWordPart blank) = true := by decide
    have other := List.all_eq_true.mp others first (mem_of_isLayout blank)
    rw [part] at other
    cases other
  · rintro rfl
    exact absurd part (by decide)
  · rintro rfl
    exact absurd part (by decide)

theorem cut_digit (digit : first.isDigit = true) (rest : List Char) :
    cut first rest = .ok (number first rest) := by
  have plain : isPlain first = true := by
    unfold isPlain
    rw [digit, Bool.or_true, Bool.true_or]
  obtain ⟨noBlank, noSlash, noQuote⟩ := isWordPart_other (isWordPart_of_digit digit)
  unfold cut
  rw [single?_plain plain, equalable?_plain plain, noBlank, digit]
  exact (if_neg noSlash).trans (if_neg noQuote)

theorem cut_word (start : isWordStart first = true) (rest : List Char) :
    cut first rest = .ok (word first rest) := by
  have plain : isPlain first = true := by
    unfold isPlain
    rw [start, Bool.or_true]
  obtain ⟨noBlank, noSlash, noQuote⟩ := isWordPart_other (isWordPart_of_wordStart start)
  unfold cut
  rw [single?_plain plain, equalable?_plain plain, noBlank, isDigit_of_wordStart start, start]
  exact (if_neg noSlash).trans (if_neg noQuote)

theorem cut_unexpected (unknown : isUnexpected first = true) (rest : List Char) :
    cut first rest = .error .unexpectedCharacter := by
  unfold isUnexpected at unknown
  simp only [Bool.and_eq_true, Option.isNone_iff_eq_none, Bool.not_eq_true', bne_iff_ne] at unknown
  obtain ⟨⟨⟨⟨⟨⟨noSingle, noPair⟩, noBlank⟩, noSlash⟩, noQuote⟩, noDigit⟩, noStart⟩ := unknown
  unfold cut
  rw [noSingle, noPair, noBlank, noDigit, noStart]
  exact (if_neg noSlash).trans (if_neg noQuote)

/-! ### What is cut there -/

theorem equalable_stops {short long : TokenKind} {rest : List Char}
    (ends : Stops (· == '=') rest) :
    equalable first short long rest = mark short [first] rest := by
  unfold equalable
  split
  · next others => exact absurd (ends '=' rfl) (by decide)
  · rfl

theorem slash_stops {rest : List Char} (ends : Stops (· == '/') rest) :
    slash rest = mark .slash ['/'] rest := by
  unfold slash
  split
  · next others => exact absurd (ends '/' rfl) (by decide)
  · rfl

theorem string_closed {content : List Char} (inside : ∀ character ∈ content, character != '"')
    (others : List Char) :
    string (content ++ '"' :: others)
      = .ok ⟨some (.string, .string (String.ofList content)), '"' :: content ++ ['"'], others⟩ := by
  have ends : Stops (· != '"') ('"' :: others) := by
    intro next first
    cases first
    rfl
  unfold string
  rw [takeWhile_stops inside ends, dropWhile_stops inside ends]

theorem string_open {rest : List Char} (inside : ∀ character ∈ rest, character != '"') :
    string rest = .error .unterminatedString := by
  have nothing : (rest ++ []).dropWhile (· != '"') = [] := dropWhile_stops inside nofun
  rw [List.append_nil] at nothing
  unfold string
  rw [nothing]

theorem number_whole {digits others : List Char} (inside : ∀ character ∈ digits, character.isDigit)
    (ends : Stops Char.isDigit others)
    (pointless : ∀ digit more, others = '.' :: digit :: more → digit.isDigit = false) :
    number first (digits ++ others)
      = ⟨some (.number, .number (Numeral.value (first :: digits) [])), first :: digits,
          others⟩ := by
  have cut : fraction others = ([], others) := by
    rcases fraction_cases others with ⟨digit, more, pointed, isDigit, _⟩ | ⟨cut, _⟩
    · rw [pointless digit more pointed] at isDigit
      cases isDigit
    · exact cut
  unfold number
  rw [takeWhile_stops inside ends, dropWhile_stops inside ends, cut]
  rfl

theorem number_decimal {digits places others : List Char}
    (inside : ∀ character ∈ digits, character.isDigit) (fractional : places ≠ [])
    (behind : ∀ character ∈ places, character.isDigit) (ends : Stops Char.isDigit others) :
    number first (digits ++ '.' :: (places ++ others))
      = ⟨some (.number, .number (Numeral.value (first :: digits) places)),
          first :: digits ++ '.' :: places, others⟩ := by
  have point : Stops Char.isDigit ('.' :: (places ++ others)) := by
    intro next first
    cases first
    rfl
  have cut : fraction ('.' :: (places ++ others)) = (places, others) := by
    cases places with
    | nil => exact absurd rfl fractional
    | cons place more =>
        have later : ∀ character ∈ more, character.isDigit = true :=
          fun character among => behind character (List.mem_cons_of_mem _ among)
        change (if place.isDigit then
          (place :: (more ++ others).takeWhile Char.isDigit, (more ++ others).dropWhile Char.isDigit)
          else ([], '.' :: place :: (more ++ others))) = _
        rw [if_pos (behind place List.mem_cons_self), takeWhile_stops later ends,
          dropWhile_stops later ends]
  have present : places.isEmpty = false := List.isEmpty_eq_false_iff.mpr fractional
  unfold number
  rw [takeWhile_stops inside point, dropWhile_stops inside point, cut]
  simp only [present, Bool.false_eq_true, if_false]

theorem word_stops {parts others : List Char} (inside : ∀ character ∈ parts, isWordPart character)
    (ends : Stops isWordPart others) :
    word first (parts ++ others)
      = mark (.ofWord (String.ofList (first :: parts))) (first :: parts) others := by
  unfold word
  rw [takeWhile_stops inside ends, dropWhile_stops inside ends]

variable {rest : List Char} {piece : Piece}

/-- The conditions leave one outcome. -/
theorem Cuts.cut_eq {outcome : Except LexicalError Piece} (cuts : Cuts first rest outcome) :
    cut first rest = outcome := by
  cases cuts with
  | single known => exact cut_single known rest
  | long known lengthened =>
      rw [cut_equalable known, lengthened]
      rfl
  | short known ends => rw [cut_equalable known, equalable_stops ends]
  | layout blank => exact cut_layout blank rest
  | @comment content others starts whole inside ends =>
      subst starts whole
      change Except.ok (gap ('/' :: '/' :: (content ++ others).takeWhile (· != '\n'))
        ((content ++ others).dropWhile (· != '\n'))) = _
      rw [takeWhile_stops inside ends, dropWhile_stops inside ends]
  | slash starts ends =>
      subst starts
      exact congrArg Except.ok (slash_stops ends)
  | string starts whole inside =>
      subst starts whole
      exact string_closed inside _
  | unterminated starts inside =>
      subst starts
      exact string_open inside
  | whole starts whole inside ends pointless =>
      rw [cut_digit starts, whole, number_whole inside ends pointless]
  | decimal starts whole inside fractional behind ends =>
      rw [cut_digit starts, whole, number_decimal inside fractional behind ends]
  | word starts whole inside ends => rw [cut_word starts, whole, word_stops inside ends]
  | unexpected unknown => exact cut_unexpected unknown rest

theorem Cuts.splits (cuts : Cuts first rest (.ok piece)) : piece.Splits (first :: rest) :=
  cut_splits cuts.cut_eq

end Piece

/-! ### Scans -/

/-- Tokens may be put in front of an outcome one part after the other. -/
theorem Token.map_append (first second : List Token)
    (outcome : Except LexicalFailure (List Token)) :
    outcome.map (first ++ second ++ ·) = (outcome.map (second ++ ·)).map (first ++ ·) := by
  cases outcome with
  | error failure => rfl
  | ok tokens => exact congrArg Except.ok (List.append_assoc _ _ _)

variable {line : Nat} {text : List Char} {outcome : Except LexicalFailure (List Token)}

theorem Scans.scanFrom_eq (scans : Scans line text outcome) (found : List Token) :
    Token.scanFrom found line text = outcome.map (found.reverse ++ ·) := by
  induction scans generalizing found with
  | ends line =>
      rw [Token.scanFrom, List.reverse_cons]
      rfl
  | @fails line first rest error cuts =>
      rw [Token.scanFrom]
      split
      · next other also =>
          rw [cuts.cut_eq] at also
          cases also
          rfl
      · next piece also =>
          rw [cuts.cut_eq] at also
          cases also
  | @more line first rest piece outcome cuts splits behind ih =>
      rw [Token.scanFrom_cons cuts.cut_eq, ih, List.reverse_append, List.reverse_reverse]
      exact Token.map_append _ _ outcome

/-- A source is scanned as its pieces tell. -/
theorem Scans.scan_eq {source : String} (scans : Scans 1 source.toList outcome) :
    Token.scan source = outcome := by
  unfold Token.scan
  rw [scans.scanFrom_eq]
  cases outcome <;> rfl

end Lox
