import Lox.Proofs.Token.ByteTokens
set_option autoImplicit false

/-! Scanning bytes comes to the same as cutting pieces, on every source: so it ends, it reads no
byte outside the row, it cuts through no character, and its outcome is the one that the automaton
tells. -/

namespace Lox

namespace ByteScan

variable {bytes : List UInt8} {scanner : ByteScanner} {front rest : List Char} {first : Char}
variable {fuel : Nat} {parse : String → Option Float}

/-! ### Every piece -/

/-- What may be in a word is not told by its kind alone. -/
theorem tokenFrom_wordPart (part : Piece.isWordPart first = true) :
    tokenFrom bytes fuel parse first
      = if first.isDigit then number bytes fuel parse
        else if Piece.isWordStart first then word bytes fuel
        else fail LexicalError.unexpectedCharacter.message := by
  have noSingle : Piece.single? first = none := by
    cases known : Piece.single? first with
    | none => rfl
    | some kind =>
        exfalso
        revert part
        unfold Piece.single? at known
        split at known <;> first | decide | cases known
  have noEqualable : Piece.equalable? first = none := by
    cases known : Piece.equalable? first with
    | none => rfl
    | some kinds =>
        exfalso
        revert part
        unfold Piece.equalable? at known
        split at known <;> first | decide | cases known
  have other : ∀ mark, Piece.isWordPart mark = false → first ≠ mark := by
    rintro mark no rfl
    rw [no] at part
    cases part
  unfold tokenFrom
  rw [noSingle, noEqualable]
  simp only [other '/' rfl, other ' ' rfl, other '\r' rfl, other '\t' rfl, other '\n' rfl,
    other '"' rfl, or_self, if_false]

theorem token_wordPart (part : Piece.isWordPart first = true)
    (starts : Starts bytes scanner front (first :: rest)) :
    token bytes fuel parse scanner
      = (if first.isDigit then number bytes fuel parse
        else if Piece.isWordStart first then word bytes fuel
        else fail LexicalError.unexpectedCharacter.message)
          (scanner.past (Utf8.bytes [first])) := by
  have narrow : first.toNat < 128 := by
    by_cases narrow : first.toNat < 128
    · exact narrow
    · rw [isWordPart_wide (Nat.le_of_not_lt narrow)] at part
      cases part
  have feeds : first ≠ '\n' := by
    rintro rfl
    cases part
  rw [token_eq starts narrow feeds, tokenFrom_wordPart part]

/-- Every piece is gone over as it is cut. -/
theorem token_at (reads : Numeral.Reads parse) {piece : Piece}
    (cuts : Piece.Cuts first rest (.ok piece)) (enough : bytes.length < fuel)
    (starts : Starts bytes scanner front (first :: rest)) :
    token bytes fuel parse scanner = .ok () (behind scanner piece) := by
  cases cuts with
  | single known => exact token_single known starts
  | long known lengthened =>
      subst lengthened
      exact token_long known starts
  | short known ends => exact token_short known ends starts
  | layout blank => exact token_layout blank starts
  | comment begins whole inside ends =>
      subst begins whole
      exact token_comment inside ends enough starts
  | slash begins ends =>
      subst begins
      exact token_slash ends starts
  | string begins whole inside =>
      subst begins whole
      exact (token_eq starts (by decide) (by decide)).trans (string_at inside enough starts)
  | whole begins whole inside ends pointless =>
      subst whole
      rw [token_wordPart (Piece.isWordPart_of_digit begins) starts, if_pos begins]
      exact number_whole reads begins inside ends pointless enough starts
  | decimal begins whole inside fractional digits ends =>
      subst whole
      rw [token_wordPart (Piece.isWordPart_of_digit begins) starts, if_pos begins]
      exact number_decimal reads begins inside fractional digits ends enough starts
  | word begins whole inside ends =>
      subst whole
      have noDigit := Piece.isDigit_of_wordStart begins
      rw [token_wordPart (Piece.isWordPart_of_wordStart begins) starts, noDigit,
        if_neg Bool.false_ne_true, if_pos begins]
      exact word_at inside ends enough starts

theorem isUnexpected_wide {character : Char} (wide : 128 ≤ character.toNat) :
    Piece.isUnexpected character = true := by
  have noSingle : Piece.single? character = none := by
    cases known : Piece.single? character with
    | none => rfl
    | some kind =>
        have narrow := (single_narrow known).1
        omega
  have noEqualable : Piece.equalable? character = none := by
    cases known : Piece.equalable? character with
    | none => rfl
    | some kinds =>
        have narrow := (equalable_narrow known).1
        omega
  have noPart := isWordPart_wide wide
  have noStart : Piece.isWordStart character = false := by
    apply eq_false_of_ne_true
    intro start
    rw [Piece.isWordPart_of_wordStart start] at noPart
    cases noPart
  have other : ∀ mark : Char, mark.toNat < 128 → (character == mark) = false :=
    fun mark => Utf8.wide_ne wide mark
  unfold Piece.isUnexpected Piece.isLayout
  simp only [noSingle, noEqualable, noStart, isDigit_wide wide, bne, other ' ' (by decide),
    other '\t' (by decide), other '\r' (by decide), other '\n' (by decide), other '/' (by decide),
    other '"' (by decide)]
  rfl

theorem tokenFrom_unexpected (unknown : Piece.isUnexpected first = true) :
    tokenFrom bytes fuel parse first = fail LexicalError.unexpectedCharacter.message := by
  unfold Piece.isUnexpected Piece.isLayout at unknown
  simp only [Bool.and_eq_true, Option.isNone_iff_eq_none, Bool.not_eq_true', Bool.or_eq_false_iff,
    beq_eq_false_iff_ne, bne_iff_ne] at unknown
  obtain ⟨⟨⟨⟨⟨⟨noSingle, noEqualable⟩, ⟨⟨noSpace, noTab⟩, noReturn⟩, noFeed⟩, noSlash⟩, noQuote⟩,
    noDigit⟩, noStart⟩ := unknown
  unfold tokenFrom
  rw [noSingle, noEqualable]
  simp only [noSpace, noTab, noReturn, noFeed, noSlash, noQuote, noDigit, noStart, or_self,
    if_false, Bool.false_eq_true]

/-- Where no piece can be cut, the scanner fails on the same line and with the same message. -/
theorem token_fails {error : LexicalError} (cuts : Piece.Cuts first rest (.error error))
    (enough : bytes.length < fuel) (starts : Starts bytes scanner front (first :: rest)) :
    ∃ stopped, token bytes fuel parse scanner
      = .error (.failure (Token.failureAt scanner.line (first :: rest) error).line error.message)
          stopped := by
  cases cuts with
  | unterminated begins inside =>
      subst begins
      have opened : Starts bytes scanner front (['"'] ++ (rest ++ [])) := by
        rw [List.append_nil]
        exact starts
      have all : Starts bytes scanner front (('"' :: rest) ++ []) := by
        rw [List.append_nil]
        exact starts
      have run : (Utf8.bytes (rest ++ [])).takeWhile (Char.ofUInt8 · != '"') = Utf8.bytes rest :=
        takeWhile_run (fun _ wide => by rw [bne, Utf8.wide_ne wide '"' (by decide)]) inside
          fun next head => by cases head
      have looped := string_loop_at opened.past (opened.past.enough enough)
      rw [run, ByteScanner.past_past, ← Utf8.bytes_append] at looped
      have line : (scanner.past (Utf8.bytes ('"' :: rest))).line
          = Token.lineAfter scanner.line ('"' :: rest) :=
        congrArg (scanner.line + ·) (Utf8.count_bytes _)
      refine ⟨scanner.past (Utf8.bytes ('"' :: rest)), ?_⟩
      rw [token_eq starts (by decide) (by decide)]
      refine (bind_ok looped).trans ((bind_ok (isAtEnd_at all.past)).trans ?_)
      change EStateM.Result.error (ScanStop.failure _ _) _ = _
      rw [line]
      rfl
  | unexpected unknown =>
      obtain ⟨lead, others, encoded, _⟩ := Utf8.exists_lead first
      have among : lead ∈ String.utf8EncodeChar first := by
        rw [encoded]
        exact List.mem_cons_self
      have alsoUnknown : Piece.isUnexpected (Char.ofUInt8 lead) = true :=
        (Utf8.test_byte (fun _ => isUnexpected_wide) among).trans unknown
      have feeds : lead ≠ 10 := by
        rintro rfl
        cases alsoUnknown
      have place := starts.at
      rw [Utf8.bytes_cons, encoded] at place
      have line : (scanner.past [lead]).line = scanner.line := by
        unfold ByteScanner.past
        rw [List.count_singleton, if_neg (by simpa using feeds)]
        rfl
      refine ⟨scanner.past [lead], (bind_ok (advance_at place feeds)).trans ?_⟩
      rw [tokenFrom_unexpected alsoUnknown]
      change EStateM.Result.error (ScanStop.failure _ _) _ = _
      rw [line]
      rfl

/-! ### Texts -/

theorem behind_at {piece : Piece} (splits : piece.Splits rest)
    (starts : Starts bytes scanner front rest) :
    At bytes (behind scanner piece) (Utf8.bytes (front ++ piece.text)) (Utf8.bytes piece.rest) := by
  rw [← splits.text_append_rest] at starts
  have place := starts.past
  rw [← Utf8.bytes_append] at place
  exact ⟨place.whole, place.place⟩

theorem behind_line (scanner : ByteScanner) (piece : Piece) :
    (behind scanner piece).line = Token.lineAfter scanner.line piece.text :=
  congrArg (scanner.line + ·) (Utf8.count_bytes piece.text)

theorem bytes_rest_lt {piece : Piece} (splits : piece.Splits rest) :
    (Utf8.bytes piece.rest).length < (Utf8.bytes rest).length := by
  rw [← splits.text_append_rest, Utf8.bytes_append, List.length_append]
  cases spelled : piece.text with
  | nil => exact absurd spelled splits.text_ne_nil
  | cons first others =>
      obtain ⟨lead, more, encoded, _⟩ := Utf8.exists_lead first
      rw [Utf8.bytes_cons, encoded, List.length_append, List.length_cons]
      omega

/-- What the loop over tokens comes to. -/
def Answers (scanner : ByteScanner) :
    Except LexicalFailure (List Token) → EStateM.Result ScanStop ByteScanner Unit → Prop
  | .ok found, .ok _ last => last.found ++ [Token.endOfInput last.line] = scanner.found ++ found
  | .error failure, .error stop _ => stop = .failure failure.line failure.error.message
  | _, _ => False

theorem Answers.prepend {piece : Piece} {outcome : Except LexicalFailure (List Token)}
    {result : EStateM.Result ScanStop ByteScanner Unit}
    (answers : Answers (behind { scanner with start := scanner.current } piece) outcome result) :
    Answers scanner
      (outcome.map (piece.tokens (Token.lineAfter scanner.line piece.text) ++ ·)) result := by
  cases outcome with
  | error failure => cases result <;> exact answers
  | ok found =>
      cases result with
      | error stop last => exact answers
      | ok done last => exact answers.trans (List.append_assoc _ _ _)

theorem nextToken_eq (scanner : ByteScanner) :
    nextToken bytes fuel parse scanner
      = token bytes fuel parse { scanner with start := scanner.current } :=
  rfl

theorem goesOn_at {passed ahead : List UInt8} (place : At bytes scanner passed ahead) :
    (do return !(← isAtEnd bytes) : ByteScan Bool) scanner = .ok (!ahead.isEmpty) scanner :=
  bind_ok (isAtEnd_at place)

/-- The loop over tokens finds those of the scan, from any place on. -/
theorem loop_answers (reads : Numeral.Reads parse) (enough : bytes.length < fuel) {line : Nat}
    {text : List Char} {outcome : Except LexicalFailure (List Token)}
    (scans : Scans line text outcome) {scanner : ByteScanner} {front : List Char}
    (place : At bytes scanner (Utf8.bytes front) (Utf8.bytes text)) (same : scanner.line = line)
    {rounds : Nat} (many : (Utf8.bytes text).length < rounds) :
    Answers scanner outcome
      (loop (do return !(← isAtEnd bytes)) (nextToken bytes fuel parse) rounds scanner) := by
  induction scans generalizing scanner front rounds with
  | ends line =>
      obtain ⟨rounds, rfl⟩ := Nat.exists_eq_succ_of_ne_zero (Nat.ne_zero_of_lt many)
      unfold loop
      rw [bind_ok (goesOn_at place)]
      subst same
      rfl
  | @fails line first rest error cuts =>
      obtain ⟨rounds, rfl⟩ := Nat.exists_eq_succ_of_ne_zero (Nat.ne_zero_of_lt many)
      have starts : Starts bytes { scanner with start := scanner.current } front (first :: rest) :=
        ⟨place.whole, place.place, place.place⟩
      have failing : ∃ stopped, token bytes fuel parse { scanner with start := scanner.current }
          = .error (.failure (Token.failureAt scanner.line (first :: rest) error).line
              error.message) stopped := token_fails cuts enough starts
      obtain ⟨stopped, failed⟩ := failing
      have goesOn : (!(Utf8.bytes (first :: rest)).isEmpty) = true := by
        obtain ⟨lead, others, encoded, _⟩ := Utf8.exists_lead first
        rw [Utf8.bytes_cons, encoded]
        rfl
      unfold loop
      rw [bind_ok (goesOn_at place), goesOn]
      change Answers _ _ ((nextToken bytes fuel parse >>= fun _ => loop _ _ rounds) scanner)
      rw [bind_error ((nextToken_eq scanner).trans failed)]
      subst same
      cases error <;> rfl
  | @more line first rest piece outcome cuts splits scans ih =>
      obtain ⟨rounds, rfl⟩ := Nat.exists_eq_succ_of_ne_zero (Nat.ne_zero_of_lt many)
      have starts : Starts bytes { scanner with start := scanner.current } front (first :: rest) :=
        ⟨place.whole, place.place, place.place⟩
      have ran := token_at reads cuts enough starts
      have less := bytes_rest_lt splits
      have goesOn : (!(Utf8.bytes (first :: rest)).isEmpty) = true := by
        obtain ⟨lead, others, encoded, _⟩ := Utf8.exists_lead first
        rw [Utf8.bytes_cons, encoded]
        rfl
      have later := ih (behind_at splits starts)
        ((behind_line _ piece).trans (congrArg (Token.lineAfter · piece.text) same))
        (Nat.lt_of_lt_of_le less (Nat.le_of_lt_succ many))
      unfold loop
      rw [bind_ok (goesOn_at place), goesOn]
      change Answers _ _ ((nextToken bytes fuel parse >>= fun _ => loop _ _ rounds) scanner)
      rw [bind_ok ((nextToken_eq scanner).trans ran)]
      subst same
      exact later.prepend

end ByteScan

def LexicalFailure.stop (failure : LexicalFailure) : ScanStop :=
  .failure failure.line failure.error.message

/-- Byte by byte or piece by piece, scanning comes to the same. -/
theorem ByteScanner.scan_eq {parse : String → Option Float} (reads : Numeral.Reads parse)
    (source : String) :
    ByteScanner.scan parse source = (Token.scan source).mapError LexicalFailure.stop := by
  have place : ByteScan.At source.toUTF8.data.toList ⟨0, 0, 1, []⟩ (Utf8.bytes [])
      (Utf8.bytes source.toList) := ⟨Utf8.toUTF8_data source, rfl⟩
  have answers := ByteScan.loop_answers reads (Nat.lt_succ_self _) (scan_scans source) place rfl
    (by rw [← Utf8.toUTF8_data]; exact Nat.lt_succ_self _)
  simp only [scan, ByteScan.tokens]
  cases ran : ByteScan.loop (do return !(← ByteScan.isAtEnd source.toUTF8.data.toList))
      (ByteScan.nextToken source.toUTF8.data.toList (source.toUTF8.data.toList.length + 1) parse)
      (source.toUTF8.data.toList.length + 1) ⟨0, 0, 1, []⟩ with
  | ok done last =>
      rw [ran] at answers
      rw [ByteScan.bind_ok ran]
      cases scanned : Token.scan source with
      | error failure =>
          rw [scanned] at answers
          exact absurd answers id
      | ok tokens =>
          rw [scanned] at answers
          exact congrArg Except.ok answers
  | error stop last =>
      rw [ran] at answers
      rw [ByteScan.bind_error ran]
      cases scanned : Token.scan source with
      | error failure =>
          rw [scanned] at answers
          exact congrArg Except.error answers
      | ok tokens =>
          rw [scanned] at answers
          exact absurd answers id

theorem LexicalError.message_injective {first second : LexicalError}
    (same : first.message = second.message) : first = second := by
  cases first <;> cases second <;> first | rfl | exact absurd same (by decide)

/-- Scanning the bytes of a source fails exactly where the automaton does. It ends in tokens when
the automaton accepts the bytes; it tells an unexpected character, and its line, exactly when the
automaton meets a bad byte there; and an unterminated string when the bytes end in one, on the last
line. Nothing else stops it: no numeral is refused, no byte is read outside the source, and no
character is cut through. Cutting the source into pieces comes to the same. -/
theorem scan_fails_with_automaton {parse : String → Option Float} (reads : Numeral.Reads parse)
    (source : String) :
    ((∃ tokens, ByteScanner.scan parse source = .ok tokens) ↔
      Mode.Accepts source.toUTF8.data.toList) ∧
    (∀ line, ByteScanner.scan parse source = .error (.failure line "Unexpected character.") ↔
      Mode.FailsOn source.toUTF8.data.toList line) ∧
    (∀ line, ByteScanner.scan parse source = .error (.failure line "Unterminated string.") ↔
      Mode.StaysOpen source.toUTF8.data.toList line) ∧
    (∀ stop, ByteScanner.scan parse source = .error stop →
      ∃ line, stop = .failure line "Unexpected character." ∨
        stop = .failure line "Unterminated string.") ∧
    ByteScanner.scan parse source = (Token.scan source).mapError LexicalFailure.stop := by
  have same := ByteScanner.scan_eq reads source
  have tells := Mode.scan_tellsBytes source
  have stops : ∀ line error, ByteScanner.scan parse source = .error (.failure line error.message) ↔
      Token.scan source = .error ⟨line, error⟩ := by
    intro line error
    rw [same]
    rcases Token.scan source with ⟨place, cause⟩ | tokens
    · change Except.error (ScanStop.failure place cause.message) = _ ↔ _
      rw [Except.error.injEq, ScanStop.failure.injEq, Except.error.injEq, LexicalFailure.mk.injEq]
      exact and_congr_right fun _ => ⟨LexicalError.message_injective, congrArg _⟩
    · exact iff_of_false nofun nofun
  refine ⟨?_, fun line => ?_, fun line => ?_, ?_, same⟩
  · rw [← tells.ok_iff, same]
    rcases Token.scan source with failure | tokens
    · exact iff_of_false nofun nofun
    · exact iff_of_true ⟨tokens, rfl⟩ ⟨tokens, rfl⟩
  · exact (stops line .unexpectedCharacter).trans (tells.unexpected_iff line)
  · exact (stops line .unterminatedString).trans (tells.unterminated_iff line)
  · intro stop stopped
    rw [same] at stopped
    generalize Token.scan source = outcome at stopped
    rcases outcome with ⟨line, _ | _⟩ | tokens
    · cases stopped
      exact ⟨line, Or.inl rfl⟩
    · cases stopped
      exact ⟨line, Or.inr rfl⟩
    · cases stopped

/-- Reads digits, with or without a point between two of them. -/
def Numeral.read? (text : String) : Option Float :=
  let whole := text.toList.takeWhile Char.isDigit
  match text.toList.dropWhile Char.isDigit with
  | [] => if whole.isEmpty then none else some (value whole [])
  | point :: places =>
    if whole.isEmpty || point != '.' || places.isEmpty || !places.all Char.isDigit then none
    else some (value whole places)

theorem Numeral.read?_reads : Numeral.Reads Numeral.read? := by
  intro whole places nonempty digits
  have front : ∀ digit ∈ whole, digit.isDigit = true := fun digit among =>
    digits digit (List.mem_append_left _ among)
  have back : places.all Char.isDigit = true := List.all_eq_true.mpr fun digit among =>
    digits digit (List.mem_append_right _ among)
  have present : whole.isEmpty = false := List.isEmpty_eq_false_iff.mpr nonempty
  unfold read?
  rw [String.toList_ofList]
  cases places with
  | nil =>
      have all : (whole ++ []).takeWhile Char.isDigit = whole ++ [] :=
        List.takeWhile_append_of_pos front
      have nothing : (whole ++ []).dropWhile Char.isDigit = [] := List.dropWhile_append_of_pos front
      rw [List.append_nil] at all nothing
      simp only [List.isEmpty_nil, if_true, all, nothing, present]
      rfl
  | cons place more =>
      have all : (whole ++ '.' :: place :: more).takeWhile Char.isDigit = whole := by
        rw [List.takeWhile_append_of_pos front]
        exact List.append_nil whole
      have rest :
          (whole ++ '.' :: place :: more).dropWhile Char.isDigit = '.' :: place :: more := by
        rw [List.dropWhile_append_of_pos front]
        rfl
      simp only [List.isEmpty_cons, Bool.false_eq_true, if_false, all, rest, present, back]
      rfl

/-- A quote in a comment begins no string, and wide characters are bad only in code. -/
theorem scan_price_fails :
    Numeral.Reads Numeral.read? ∧
      ByteScanner.scan Numeral.read? "\"é\" // \"\n1.5 €"
        = .error (.failure 2 "Unexpected character.") :=
  ⟨Numeral.read?_reads,
    ((scan_fails_with_automaton Numeral.read?_reads _).2.1 2).mpr
      ⟨"\"é\" // \"\n1.5 ".toUTF8.data.toList, 0xE2, [0x82, 0xAC], .code, by decide +kernel,
        by decide +kernel, by decide +kernel, by decide +kernel⟩⟩

end Lox
