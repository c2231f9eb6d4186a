import Lox.Proofs.Token.ByteScanner
set_option autoImplicit false

/-! Tokens in a row of bytes. Where a piece of a text starts, the scanner goes over the bytes of the
piece and finds the token that it carries. -/

namespace Lox

namespace ByteScan

variable {bytes passed : List UInt8} {scanner : ByteScanner} {front back rest : List Char}
variable {first : Char}

/-! ### Parts -/

theorem isBoundary_at (front back : List Char) :
    isBoundary (Utf8.bytes front ++ Utf8.bytes back) (Utf8.bytes front).length = true := by
  unfold isBoundary
  cases back with
  | nil => simp
  | cons first rest =>
      obtain ⟨lead, others, encoded, begins⟩ := Utf8.exists_lead first
      have found : (Utf8.bytes front ++ Utf8.bytes (first :: rest))[(Utf8.bytes front).length]?
          = some lead := by
        rw [List.getElem?_append_right (Nat.le_refl _), Nat.sub_self, Utf8.bytes_cons, encoded]
        rfl
      rw [found]
      simp [begins]

theorem fromUTF8?_bytes (text : List Char) :
    String.fromUTF8? (Utf8.bytes text).toByteArray = some (String.ofList text) :=
  dif_pos (ByteArray.IsValidUTF8.intro text rfl)

/-- What stands between two characters can be cut out. -/
theorem slice_at {front text back : List Char} {first last : Nat}
    (whole : bytes = Utf8.bytes front ++ (Utf8.bytes text ++ Utf8.bytes back))
    (starts : first = (Utf8.bytes front).length)
    (ends : last = (Utf8.bytes front).length + (Utf8.bytes text).length) :
    slice bytes first last scanner = .ok (String.ofList text) scanner := by
  subst whole starts ends
  have startsWell : isBoundary (Utf8.bytes front ++ (Utf8.bytes text ++ Utf8.bytes back))
      (Utf8.bytes front).length = true := by
    rw [← Utf8.bytes_append]
    exact isBoundary_at front (text ++ back)
  have endsWell : isBoundary (Utf8.bytes front ++ (Utf8.bytes text ++ Utf8.bytes back))
      ((Utf8.bytes front).length + (Utf8.bytes text).length) = true := by
    rw [← List.append_assoc, ← List.length_append, ← Utf8.bytes_append]
    exact isBoundary_at (front ++ text) back
  have part : ((Utf8.bytes front ++ (Utf8.bytes text ++ Utf8.bytes back)).drop
      (Utf8.bytes front).length).take
        ((Utf8.bytes front).length + (Utf8.bytes text).length - (Utf8.bytes front).length)
          = Utf8.bytes text := by
    rw [List.drop_left, Nat.add_sub_cancel_left, List.take_left]
  unfold slice
  rw [if_pos ⟨Nat.le_add_right _ _, startsWell, endsWell⟩, part, fromUTF8?_bytes]
  rfl

/-- A token starts where the scanner stands, between two parts of a text. -/
structure Starts (bytes : List UInt8) (scanner : ByteScanner) (front back : List Char) : Prop where
  whole : bytes = Utf8.bytes front ++ Utf8.bytes back
  place : scanner.current = (Utf8.bytes front).length
  start : scanner.start = (Utf8.bytes front).length

theorem Starts.at (starts : Starts bytes scanner front back) :
    At bytes scanner (Utf8.bytes front) (Utf8.bytes back) :=
  ⟨starts.whole, starts.place⟩

/-- Over the front part of what is ahead. -/
theorem Starts.past {text : List Char} (starts : Starts bytes scanner front (text ++ rest)) :
    At bytes (scanner.past (Utf8.bytes text)) (Utf8.bytes front ++ Utf8.bytes text)
      (Utf8.bytes rest) := by
  have place := starts.at
  rw [Utf8.bytes_append] at place
  exact place.past

theorem lexeme_at {text : List Char} (starts : Starts bytes scanner front (text ++ rest)) :
    lexeme bytes (scanner.past (Utf8.bytes text))
      = .ok (String.ofList text) (scanner.past (Utf8.bytes text)) := by
  have whole := starts.whole
  rw [Utf8.bytes_append] at whole
  exact slice_at whole starts.start (congrArg (· + (Utf8.bytes text).length) starts.place)

/-- The scanner behind a piece of the text. -/
def behind (scanner : ByteScanner) (piece : Piece) : ByteScanner :=
  { scanner.past (Utf8.bytes piece.text) with
    found := scanner.found ++ piece.tokens (Token.lineAfter scanner.line piece.text) }

theorem addToken_at (piece : Piece) {kind : TokenKind} {literal : Literal}
    (starts : Starts bytes scanner front (piece.text ++ piece.rest))
    (carries : piece.token? = some (kind, literal)) :
    addToken bytes kind literal (scanner.past (Utf8.bytes piece.text))
      = .ok () (behind scanner piece) := by
  have one : piece.tokens (Token.lineAfter scanner.line piece.text)
      = [⟨kind, String.ofList piece.text, literal,
          (scanner.past (Utf8.bytes piece.text)).line⟩] := by
    unfold Piece.tokens Token.lineAfter ByteScanner.past
    rw [carries, Utf8.count_bytes]
  unfold addToken
  rw [bind_ok (lexeme_at starts)]
  unfold behind
  rw [one]
  rfl

theorem past_gap (piece : Piece) (gap : piece.token? = none) :
    scanner.past (Utf8.bytes piece.text) = behind scanner piece := by
  unfold behind Piece.tokens
  rw [gap, List.append_nil]
  rfl

/-! ### Tokens -/

variable {fuel : Nat} {parse : String → Option Float}

/-- The next byte passes a test when the next character does. -/
theorem head_passes {test : Char → Bool} {constant : Bool}
    (wide : ∀ character : Char, 128 ≤ character.toNat → test character = constant)
    (ends : test (Char.ofUInt8 0) = false) (text : List Char) :
    test (Char.ofUInt8 ((Utf8.bytes text).head?.getD 0)) = text.head?.any test := by
  cases text with
  | nil => exact ends
  | cons first rest =>
      obtain ⟨lead, others, encoded, _⟩ := Utf8.exists_lead first
      have among : lead ∈ String.utf8EncodeChar first := by
        rw [encoded]
        exact List.mem_cons_self
      rw [Utf8.bytes_cons, encoded]
      exact Utf8.test_byte wide among

theorem matching_stops {mark : Char} (narrow : mark.toNat < 128)
    (place : At bytes scanner passed (Utf8.bytes rest)) (ends : Piece.Stops (· == mark) rest) :
    matching bytes mark scanner = .ok false scanner := by
  refine matching_other place fun byte head => ?_
  cases rest with
  | nil => cases head
  | cons character others =>
      obtain ⟨lead, more, encoded, _⟩ := Utf8.exists_lead character
      rw [Utf8.bytes_cons, encoded] at head
      cases head
      have among : byte ∈ String.utf8EncodeChar character := by
        rw [encoded]
        exact List.mem_cons_self
      have same := Utf8.test_byte (fun _ wide => Utf8.wide_ne wide mark narrow) among
      exact ne_of_beq_false (same.trans (ends character rfl))

/-- The row at a narrow character, and the scanner behind it. -/
theorem Starts.narrow {text : List Char} {mark : Char} (narrow : mark.toNat < 128)
    (starts : Starts bytes scanner front (text ++ mark :: rest)) :
    ∃ byte, Char.ofUInt8 byte = mark ∧
      At bytes (scanner.past (Utf8.bytes text)) (Utf8.bytes front ++ Utf8.bytes text)
        (byte :: Utf8.bytes rest) ∧
      (scanner.past (Utf8.bytes text)).past [byte]
        = scanner.past (Utf8.bytes (text ++ [mark])) := by
  have place := starts.past
  have alone : Utf8.bytes [mark] = [UInt8.ofNat mark.toNat] := by
    rw [Utf8.bytes_cons, Utf8.encode_narrow narrow]
    rfl
  rw [Utf8.bytes_cons, Utf8.encode_narrow narrow] at place
  refine ⟨_, Utf8.ofUInt8_narrow narrow, place, ?_⟩
  rw [ByteScanner.past_past, Utf8.bytes_append, alone]

theorem ne_feed {byte : UInt8} {mark : Char} (same : Char.ofUInt8 byte = mark)
    (feeds : mark ≠ '\n') : byte ≠ 10 := by
  rintro rfl
  exact feeds same.symm

theorem advance_starts {text : List Char} {mark : Char} (narrow : mark.toNat < 128)
    (feeds : mark ≠ '\n') (starts : Starts bytes scanner front (text ++ mark :: rest)) :
    ∃ byte, Char.ofUInt8 byte = mark ∧
      advance bytes (scanner.past (Utf8.bytes text))
        = .ok byte (scanner.past (Utf8.bytes (text ++ [mark]))) := by
  obtain ⟨byte, same, place, behind⟩ := starts.narrow narrow
  exact ⟨byte, same, by rw [advance_at place (ne_feed same feeds), behind]⟩

theorem matching_starts {text : List Char} {mark : Char} (narrow : mark.toNat < 128)
    (feeds : mark ≠ '\n') (starts : Starts bytes scanner front (text ++ mark :: rest)) :
    matching bytes mark (scanner.past (Utf8.bytes text))
      = .ok true (scanner.past (Utf8.bytes (text ++ [mark]))) := by
  obtain ⟨byte, same, place, behind⟩ := starts.narrow narrow
  rw [matching_at place same (ne_feed same feeds), behind]

theorem takeWhile_run {test : Char → Bool} {constant : Bool} {run others : List Char}
    (wide : ∀ character : Char, 128 ≤ character.toNat → test character = constant)
    (inside : ∀ character ∈ run, test character = true) (ends : Piece.Stops test others) :
    (Utf8.bytes (run ++ others)).takeWhile (test <| Char.ofUInt8 ·) = Utf8.bytes run := by
  rw [Utf8.takeWhile_bytes wide, Piece.takeWhile_stops inside ends]

theorem token_eq (starts : Starts bytes scanner front (first :: rest)) (narrow : first.toNat < 128)
    (feeds : first ≠ '\n') :
    token bytes fuel parse scanner
      = tokenFrom bytes fuel parse first (scanner.past (Utf8.bytes [first])) := by
  have whole : Starts bytes scanner front ([] ++ first :: rest) := starts
  obtain ⟨byte, same, advanced⟩ := advance_starts narrow feeds whole
  unfold token
  refine (bind_ok advanced).trans ?_
  rw [same]
  rfl

theorem single_narrow {kind : TokenKind} (known : Piece.single? first = some kind) :
    first.toNat < 128 ∧ first ≠ '\n' := by
  unfold Piece.single? at known
  split at known <;> first | decide | cases known

theorem equalable_narrow {kinds : TokenKind × TokenKind}
    (known : Piece.equalable? first = some kinds) :
    first.toNat < 128 ∧ first ≠ '\n' ∧ Piece.single? first = none := by
  unfold Piece.equalable? at known
  split at known <;> first | decide | cases known

theorem token_single {kind : TokenKind} (known : Piece.single? first = some kind)
    (starts : Starts bytes scanner front (first :: rest)) :
    token bytes fuel parse scanner = .ok () (behind scanner (.mark kind [first] rest)) := by
  obtain ⟨narrow, feeds⟩ := single_narrow known
  rw [token_eq starts narrow feeds]
  unfold tokenFrom
  rw [known]
  exact addToken_at (.mark kind [first] rest) starts rfl

theorem token_short {short long : TokenKind} (known : Piece.equalable? first = some (short, long))
    (ends : Piece.Stops (· == '=') rest) (starts : Starts bytes scanner front (first :: rest)) :
    token bytes fuel parse scanner = .ok () (behind scanner (.mark short [first] rest)) := by
  obtain ⟨narrow, feeds, single⟩ := equalable_narrow known
  have starts : Starts bytes scanner front ([first] ++ rest) := starts
  rw [token_eq starts narrow feeds]
  unfold tokenFrom
  rw [single, known]
  refine (bind_ok (matching_stops (by decide) starts.past ends)).trans ?_
  exact addToken_at (.mark short [first] rest) starts rfl

theorem token_long {short long : TokenKind} (known : Piece.equalable? first = some (short, long))
    (starts : Starts bytes scanner front (first :: '=' :: rest)) :
    token bytes fuel parse scanner = .ok () (behind scanner (.mark long [first, '='] rest)) := by
  obtain ⟨narrow, feeds, single⟩ := equalable_narrow known
  rw [token_eq starts narrow feeds]
  unfold tokenFrom
  rw [single, known]
  have whole : Starts bytes scanner front ([first] ++ '=' :: rest) := starts
  refine (bind_ok (matching_starts (by decide) (by decide) whole)).trans ?_
  exact addToken_at (.mark long [first, '='] rest) starts rfl

theorem token_layout (blank : Piece.isLayout first = true)
    (starts : Starts bytes scanner front (first :: rest)) :
    token bytes fuel parse scanner = .ok () (behind scanner (.gap [first] rest)) := by
  rw [← past_gap (.gap [first] rest) rfl]
  simp only [Piece.isLayout, Bool.or_eq_true, beq_iff_eq] at blank
  rcases blank with ((rfl | rfl) | rfl) | rfl
  · exact token_eq starts (by decide) (by decide)
  · exact token_eq starts (by decide) (by decide)
  · exact token_eq starts (by decide) (by decide)
  · -- The line feed is counted by its own branch.
    have place : At bytes scanner (Utf8.bytes front) (10 :: Utf8.bytes rest) := starts.at
    exact bind_ok (advance_uncounted place)

theorem token_slash (ends : Piece.Stops (· == '/') rest)
    (starts : Starts bytes scanner front ('/' :: rest)) :
    token bytes fuel parse scanner = .ok () (behind scanner (.mark .slash ['/'] rest)) := by
  have whole : Starts bytes scanner front (['/'] ++ rest) := starts
  rw [token_eq starts (by decide) (by decide)]
  refine (bind_ok (matching_stops (by decide) whole.past ends)).trans ?_
  exact addToken_at (.mark .slash ['/'] rest) starts rfl

theorem token_comment {content others : List Char}
    (inside : ∀ character ∈ content, character != '\n') (ends : Piece.Stops (· != '\n') others)
    (enough : bytes.length < fuel)
    (starts : Starts bytes scanner front ('/' :: '/' :: (content ++ others))) :
    token bytes fuel parse scanner
      = .ok () (behind scanner (.gap ('/' :: '/' :: content) others)) := by
  have slashes : Starts bytes scanner front (['/', '/'] ++ (content ++ others)) := starts
  have matched : matching bytes '/' (scanner.past (Utf8.bytes ['/']))
      = .ok true (scanner.past (Utf8.bytes ['/', '/'])) :=
    matching_starts (by decide) (by decide) starts
  have run := takeWhile_run (fun _ wide => by rw [bne, Utf8.wide_ne wide '\n' (by decide)])
    inside ends
  rw [token_eq starts (by decide) (by decide), ← past_gap (.gap ('/' :: '/' :: content) others) rfl]
  refine (bind_ok matched).trans ((comment_at slashes.past (slashes.past.enough enough)).trans ?_)
  rw [run, ByteScanner.past_past, ← Utf8.bytes_append]
  rfl

/-! ### Strings, numbers and words -/

theorem string_at {content others : List Char} (inside : ∀ character ∈ content, character != '"')
    (enough : bytes.length < fuel)
    (starts : Starts bytes scanner front ('"' :: (content ++ '"' :: others))) :
    string bytes fuel (scanner.past (Utf8.bytes ['"']))
      = .ok () (behind scanner
          ⟨some (.string, .string (String.ofList content)), '"' :: content ++ ['"'], others⟩) := by
  have opened : Starts bytes scanner front (['"'] ++ (content ++ '"' :: others)) := starts
  have filled : Starts bytes scanner front (('"' :: content) ++ '"' :: others) := starts
  have run : (Utf8.bytes (content ++ '"' :: others)).takeWhile (Char.ofUInt8 · != '"')
      = Utf8.bytes content :=
    takeWhile_run (fun _ wide => by rw [bne, Utf8.wide_ne wide '"' (by decide)]) inside
      fun next head => by cases head; rfl
  obtain ⟨quote, _same, closed⟩ := advance_starts (by decide) (by decide) filled
  have looped := string_loop_at opened.past (opened.past.enough enough)
  rw [run, ByteScanner.past_past, ← Utf8.bytes_append] at looped
  have goesOn := isAtEnd_at filled.past
  have whole : bytes = Utf8.bytes (front ++ ['"'])
      ++ (Utf8.bytes content ++ Utf8.bytes ('"' :: others)) := by
    rw [starts.whole, ← Utf8.bytes_append, ← Utf8.bytes_append, ← Utf8.bytes_append,
      List.append_assoc]
    rfl
  unfold string
  refine (bind_ok looped).trans ((bind_ok goesOn).trans ?_)
  refine (bind_ok (discard_ok closed)).trans ((bind_get _).trans ?_)
  have after : Starts bytes scanner front ('"' :: content ++ ['"'] ++ others) := by
    rw [List.append_assoc]
    exact starts
  have quoted : (Utf8.bytes (front ++ ['"'])).length = (Utf8.bytes front).length + 1 := by
    rw [Utf8.bytes_append, List.length_append]
    rfl
  have closing : (Utf8.bytes ('"' :: content ++ ['"'])).length
      = 1 + (Utf8.bytes content).length + 1 := by
    rw [Utf8.bytes_append, List.length_append, Utf8.bytes_cons, List.length_append]
    rfl
  have current : (scanner.past (Utf8.bytes ('"' :: content ++ ['"']))).current
      = (Utf8.bytes front).length + (1 + (Utf8.bytes content).length + 1) :=
    (congrArg (scanner.current + ·) closing).trans (congrArg (· + _) starts.place)
  refine (bind_ok (slice_at whole ?_ ?_)).trans ?_
  · rw [quoted]
    exact congrArg (· + 1) starts.start
  · rw [quoted, current]
    omega
  · exact addToken_at
      ⟨some (.string, .string (String.ofList content)), '"' :: content ++ ['"'], others⟩ after rfl

theorem isWordPart_wide {character : Char} (wide : 128 ≤ character.toNat) :
    Piece.isWordPart character = false := by
  have other := Utf8.wide_ne wide '_' (by decide)
  apply eq_false_of_ne_true
  intro part
  rcases Bool.or_eq_true_iff.mp part with alphanumeric | underscore
  · have narrow := Mode.isAlphanum_narrow alphanumeric
    omega
  · exact absurd underscore (ne_true_of_eq_false other)

theorem isDigit_wide {character : Char} (wide : 128 ≤ character.toNat) :
    character.isDigit = false := by
  apply eq_false_of_ne_true
  intro digit
  have alphanumeric : character.isAlphanum = true := Bool.or_eq_true_iff.mpr (Or.inr digit)
  have narrow := Mode.isAlphanum_narrow alphanumeric
  omega

theorem word_at {parts others : List Char}
    (inside : ∀ character ∈ parts, Piece.isWordPart character = true)
    (ends : Piece.Stops Piece.isWordPart others) (enough : bytes.length < fuel)
    (starts : Starts bytes scanner front (first :: (parts ++ others))) :
    word bytes fuel (scanner.past (Utf8.bytes [first]))
      = .ok () (behind scanner
          (.mark (.ofWord (String.ofList (first :: parts))) (first :: parts) others)) := by
  have begun : Starts bytes scanner front ([first] ++ (parts ++ others)) := starts
  have whole : Starts bytes scanner front ((first :: parts) ++ others) := starts
  have skipped : skip bytes fuel Piece.isWordPart (scanner.past (Utf8.bytes [first]))
      = .ok () (scanner.past (Utf8.bytes (first :: parts))) := by
    refine (skip_at rfl rfl begun.past (begun.past.enough enough)).trans ?_
    rw [takeWhile_run (fun _ => isWordPart_wide) inside ends, ByteScanner.past_past,
      ← Utf8.bytes_append]
    rfl
  unfold word
  refine (bind_ok skipped).trans ((bind_ok (lexeme_at whole)).trans ?_)
  exact addToken_at (.mark _ (first :: parts) others) whole rfl

/-- Whether a point comes next and a digit behind it. -/
theorem pointed_eq (others : List Char) :
    (Char.ofUInt8 ((Utf8.bytes others).head?.getD 0) == '.'
        && (Char.ofUInt8 (((Utf8.bytes others).drop 1).head?.getD 0)).isDigit)
      = (others.head?.any (· == '.') && (others.drop 1).head?.any Char.isDigit) := by
  have point : (Char.ofUInt8 ((Utf8.bytes others).head?.getD 0) == '.')
      = others.head?.any (· == '.') :=
    head_passes (fun _ wide => Utf8.wide_ne wide '.' (by decide)) rfl others
  rw [point]
  cases others with
  | nil => rfl
  | cons first rest =>
      by_cases pointed : first = '.'
      · subst pointed
        exact head_passes (fun _ => isDigit_wide) rfl rest
      · have none : ((first :: rest).head?.any (· == '.')) = false := by simpa using pointed
        rw [none]
        rfl

end ByteScan

/-- Every run of digits is read as the number that it writes, and so are two with a point between
them. -/
def Numeral.Reads (parse : String → Option Float) : Prop :=
  ∀ whole places : List Char, whole ≠ [] → (∀ digit ∈ whole ++ places, digit.isDigit = true) →
    parse (String.ofList (if places.isEmpty then whole else whole ++ '.' :: places))
      = some (Numeral.value whole places)

namespace ByteScan

variable {bytes : List UInt8} {scanner : ByteScanner} {front rest : List Char} {first : Char}
variable {fuel : Nat} {parse : String → Option Float}

theorem digits_at {before digits others : List Char}
    (inside : ∀ character ∈ digits, character.isDigit = true)
    (ends : Piece.Stops Char.isDigit others) (enough : bytes.length < fuel)
    (starts : Starts bytes scanner front (before ++ (digits ++ others))) :
    skip bytes fuel Char.isDigit (scanner.past (Utf8.bytes before))
      = .ok () (scanner.past (Utf8.bytes (before ++ digits))) := by
  refine (skip_at rfl rfl starts.past (starts.past.enough enough)).trans ?_
  rw [takeWhile_run (fun _ => isDigit_wide) inside ends, ByteScanner.past_past,
    ← Utf8.bytes_append]

/-- A lexeme of digits is read as their value. -/
theorem numeral_at (reads : Numeral.Reads parse) (piece : Piece) {whole places : List Char}
    (nonempty : whole ≠ []) (digits : ∀ digit ∈ whole ++ places, digit.isDigit = true)
    (spelled : piece.text = if places.isEmpty then whole else whole ++ '.' :: places)
    (carries : piece.token? = some (.number, .number (Numeral.value whole places)))
    (starts : Starts bytes scanner front (piece.text ++ piece.rest)) :
    numeral bytes parse (scanner.past (Utf8.bytes piece.text)) = .ok () (behind scanner piece) := by
  have read := reads whole places nonempty digits
  rw [← spelled] at read
  unfold numeral
  refine (bind_ok (lexeme_at starts)).trans ?_
  rw [read]
  exact addToken_at piece starts carries

/-- No digits follow a point, or no point follows. -/
theorem fraction_none {digits others : List Char}
    (pointless : ∀ digit more, others = '.' :: digit :: more → digit.isDigit = false)
    (starts : Starts bytes scanner front (digits ++ others)) :
    fraction bytes fuel (scanner.past (Utf8.bytes digits))
      = .ok () (scanner.past (Utf8.bytes digits)) := by
  have pointed :
      (others.head?.any (· == '.') && (others.drop 1).head?.any Char.isDigit) = false := by
    rcases others with _ | ⟨point, _ | ⟨digit, more⟩⟩
    · rfl
    · exact Bool.and_false _
    · by_cases same : point = '.'
      · subst same
        exact pointless digit more rfl
      · have other : (point == '.') = false := beq_false_of_ne same
        exact congrArg (· && digit.isDigit) other
  unfold fraction
  refine (bind_ok (peek_at starts.past)).trans ((bind_ok (peekNext_at starts.past)).trans ?_)
  rw [pointed_eq, pointed]
  rfl

theorem fraction_some {digits places others : List Char} (fractional : places ≠ [])
    (inside : ∀ character ∈ places, character.isDigit = true)
    (ends : Piece.Stops Char.isDigit others) (enough : bytes.length < fuel)
    (starts : Starts bytes scanner front (digits ++ '.' :: (places ++ others))) :
    fraction bytes fuel (scanner.past (Utf8.bytes digits))
      = .ok () (scanner.past (Utf8.bytes (digits ++ '.' :: places))) := by
  have pointed : (('.' :: (places ++ others)).head?.any (· == '.')
      && (('.' :: (places ++ others)).drop 1).head?.any Char.isDigit) = true := by
    cases places with
    | nil => exact absurd rfl fractional
    | cons digit more => exact inside digit List.mem_cons_self
  have whole : Starts bytes scanner front (digits ++ ['.'] ++ (places ++ others)) := by
    rw [List.append_assoc]
    exact starts
  obtain ⟨point, _same, advanced⟩ := advance_starts (by decide) (by decide) starts
  unfold fraction
  refine (bind_ok (peek_at starts.past)).trans ((bind_ok (peekNext_at starts.past)).trans ?_)
  rw [pointed_eq, pointed]
  refine (bind_ok (discard_ok advanced)).trans ((digits_at inside ends enough whole).trans ?_)
  rw [List.append_assoc]
  rfl

theorem number_whole (reads : Numeral.Reads parse) {digits others : List Char}
    (begins : first.isDigit = true) (inside : ∀ character ∈ digits, character.isDigit = true)
    (ends : Piece.Stops Char.isDigit others)
    (pointless : ∀ digit more, others = '.' :: digit :: more → digit.isDigit = false)
    (enough : bytes.length < fuel)
    (starts : Starts bytes scanner front (first :: (digits ++ others))) :
    number bytes fuel parse (scanner.past (Utf8.bytes [first]))
      = .ok () (behind scanner
          ⟨some (.number, .number (Numeral.value (first :: digits) [])), first :: digits,
            others⟩) := by
  have begun : Starts bytes scanner front ([first] ++ (digits ++ others)) := starts
  have whole : Starts bytes scanner front ((first :: digits) ++ others) := starts
  have all : ∀ digit ∈ (first :: digits) ++ [], digit.isDigit = true := by
    rw [List.append_nil]
    exact List.forall_mem_cons.mpr ⟨begins, inside⟩
  unfold number
  refine (bind_ok (digits_at inside ends enough begun)).trans ?_
  refine (bind_ok (fraction_none pointless whole)).trans ?_
  exact numeral_at reads ⟨_, first :: digits, others⟩ (List.cons_ne_nil _ _) all rfl rfl whole

theorem number_decimal (reads : Numeral.Reads parse) {digits places others : List Char}
    (begins : first.isDigit = true) (inside : ∀ character ∈ digits, character.isDigit = true)
    (fractional : places ≠ []) (behindPoint : ∀ character ∈ places, character.isDigit = true)
    (ends : Piece.Stops Char.isDigit others) (enough : bytes.length < fuel)
    (starts : Starts bytes scanner front (first :: (digits ++ '.' :: (places ++ others)))) :
    number bytes fuel parse (scanner.past (Utf8.bytes [first]))
      = .ok () (behind scanner
          ⟨some (.number, .number (Numeral.value (first :: digits) places)),
            first :: digits ++ '.' :: places, others⟩) := by
  have begun : Starts bytes scanner front ([first] ++ (digits ++ '.' :: (places ++ others))) :=
    starts
  have pointed : Starts bytes scanner front ((first :: digits) ++ '.' :: (places ++ others)) :=
    starts
  have whole : Starts bytes scanner front ((first :: digits ++ '.' :: places) ++ others) := by
    rw [List.append_assoc]
    exact starts
  have all : ∀ digit ∈ (first :: digits) ++ places, digit.isDigit = true := by
    have front : ∀ digit ∈ first :: digits, digit.isDigit = true :=
      List.forall_mem_cons.mpr ⟨begins, inside⟩
    intro digit among
    exact (List.mem_append.mp among).elim (front digit) (behindPoint digit)
  have spelled : first :: digits ++ '.' :: places
      = if places.isEmpty then first :: digits else first :: digits ++ '.' :: places := by
    cases places with
    | nil => exact absurd rfl fractional
    | cons place more => rfl
  have pointStops : Piece.Stops Char.isDigit ('.' :: (places ++ others)) := by
    intro next head
    cases head
    rfl
  unfold number
  refine (bind_ok (digits_at inside pointStops enough begun)).trans ?_
  refine (bind_ok (fraction_some fractional behindPoint ends enough pointed)).trans ?_
  exact numeral_at reads ⟨_, first :: digits ++ '.' :: places, others⟩ (List.cons_ne_nil _ _) all
    spelled rfl whole

end ByteScan

end Lox
