import Lox.Proofs.Token.Pieces
set_option autoImplicit false

/-! What a scan finds is all there is. The lexemes of the tokens, with blanks and comments between
them, are the source; each lexeme is as long as it can be, and bears its kind, its literal and the
line on which it ends. -/

namespace Lox

open Piece (Stops)

/-! ### Tokens as they are written -/

/-- The words that are not identifiers. -/
def TokenKind.keywords : List (String × TokenKind) :=
  [("and", .andWord), ("class", .classWord), ("else", .elseWord), ("false", .falseWord),
    ("for", .forWord), ("fun", .funWord), ("if", .ifWord), ("nil", .nilWord), ("or", .orWord),
    ("print", .printWord), ("return", .returnWord), ("super", .superWord), ("this", .thisWord),
    ("true", .trueWord), ("var", .varWord), ("while", .whileWord)]

/-- The lexemes of fixed spelling that are no words. -/
def TokenKind.marks : List (String × TokenKind) :=
  [("(", .leftParen), (")", .rightParen), ("\x7b", .leftBrace), ("\x7d", .rightBrace),
    (",", .comma), (".", .dot), ("-", .minus), ("+", .plus), (";", .semicolon), ("/", .slash),
    ("*", .star), ("?", .question), (":", .colon), ("!", .bang), ("!=", .bangEqual), ("=", .equal),
    ("==", .equalEqual), (">", .greater), (">=", .greaterEqual), ("<", .less), ("<=", .lessEqual)]

def TokenKind.isWord (kind : TokenKind) : Bool :=
  kind == .identifier || keywords.any (·.2 == kind)

namespace Token

/-- A token of a source and how it is written. A string stands between its quotes, and a number is
the value of its digits. -/
inductive Written : Token → Prop
  | mark {text : String} {kind : TokenKind} (line : Nat) (known : (text, kind) ∈ TokenKind.marks) :
      Written ⟨kind, text, .nil, line⟩
  | string (content : List Char) (line : Nat) (inside : '"' ∉ content) :
      Written
        ⟨.string, String.ofList ('"' :: content ++ ['"']), .string (String.ofList content), line⟩
  | number (whole places : List Char) (line : Nat) (nonempty : whole ≠ [])
      (digits : ∀ digit ∈ whole ++ places, digit.isDigit = true) :
      Written
        ⟨.number, String.ofList (if places.isEmpty then whole else whole ++ '.' :: places),
          .number (Numeral.value whole places), line⟩
  | word (first : Char) (parts : List Char) (line : Nat) (starts : Piece.isWordStart first = true)
      (inside : ∀ character ∈ parts, Piece.isWordPart character = true) :
      Written
        ⟨.ofWord (String.ofList (first :: parts)), String.ofList (first :: parts), .nil, line⟩

/-- A lexeme of the kind could not have gone on into the text behind it. -/
structure Longest (kind : TokenKind) (lexeme behind : List Char) : Prop where
  word : kind.isWord = true → Stops Piece.isWordPart behind
  number : kind = .number → Stops Char.isDigit behind
  fraction : kind = .number → '.' ∉ lexeme →
    ∀ digit more, behind = '.' :: digit :: more → digit.isDigit = false
  equalable : kind ∈ [.bang, .equal, .less, .greater] → Stops (· == '=') behind
  slash : kind = .slash → Stops (· == '/') behind

end Token

/-- Blanks and comments. Each comment goes up to a line feed or to the end of the text behind. -/
inductive Gap (behind : List Char) : List Char → Prop
  | nil : Gap behind []
  | blank {first : Char} {rest : List Char} (layout : Piece.isLayout first = true)
      (more : Gap behind rest) : Gap behind (first :: rest)
  | comment {content rest : List Char} (inside : '\n' ∉ content)
      (ends : Stops (· != '\n') (rest ++ behind)) (more : Gap behind rest) :
      Gap behind ('/' :: '/' :: (content ++ rest))

/-- Gaps and the lexemes behind them, put together again. -/
def Token.joined : List (List Char × Token) → List Char
  | [] => []
  | (gap, token) :: others => gap ++ token.lexeme.toList ++ joined others

/-! ### Pieces -/

namespace Token

variable {kind : TokenKind} {lexeme behind : List Char}

/-- Nothing could lengthen the lexeme. -/
theorem Longest.of_plain (plain : kind.isWord = false)
    (other : kind ∉ [.number, .bang, .equal, .less, .greater, .slash]) :
    Longest kind lexeme behind := by
  constructor
  · intro word
    rw [plain] at word
    cases word
  · rintro rfl
    exact absurd (by decide) other
  · rintro rfl
    exact absurd (by decide) other
  · intro among
    refine absurd (List.mem_cons_of_mem _ ?_) other
    exact List.mem_append_left [.slash] among
  · rintro rfl
    exact absurd (by decide) other

theorem Longest.of_word (isWord : kind.isWord = true) (ends : Stops Piece.isWordPart behind) :
    Longest kind lexeme behind := by
  have other : ∀ kind ∈ [TokenKind.number, .bang, .equal, .less, .greater, .slash],
      kind.isWord = false := by decide
  constructor
  · exact fun _ => ends
  · rintro rfl
    cases isWord
  · rintro rfl
    cases isWord
  · intro among
    have more : kind ∈ [TokenKind.bang, .equal, .less, .greater] ++ [.slash] :=
      List.mem_append_left _ among
    rw [other kind (List.mem_cons_of_mem _ more)] at isWord
    cases isWord
  · rintro rfl
    cases isWord

theorem Longest.of_equalable (among : kind ∈ [.bang, .equal, .less, .greater])
    (ends : Stops (· == '=') behind) : Longest kind lexeme behind := by
  have plain : ∀ kind ∈ [TokenKind.bang, .equal, .less, .greater],
      kind.isWord = false ∧ kind ≠ .number ∧ kind ≠ .slash := by decide
  obtain ⟨noWord, noNumber, noSlash⟩ := plain kind among
  refine ⟨?_, (absurd · noNumber), (absurd · noNumber), fun _ => ends, (absurd · noSlash)⟩
  intro word
  rw [noWord] at word
  cases word

theorem Longest.of_number (ends : Stops Char.isDigit behind)
    (fraction : '.' ∉ lexeme →
      ∀ digit more, behind = '.' :: digit :: more → digit.isDigit = false) :
    Longest .number lexeme behind :=
  ⟨nofun, fun _ => ends, fun _ => fraction, (absurd · (by decide)), nofun⟩

theorem single_written {first : Char} (known : Piece.single? first = some kind) :
    (String.ofList [first], kind) ∈ TokenKind.marks ∧ kind.isWord = false ∧
      kind ∉ [TokenKind.number, .bang, .equal, .less, .greater, .slash] := by
  unfold Piece.single? at known
  split at known <;> first | (cases known; decide +kernel) | cases known

theorem equalable_written {first : Char} {short long : TokenKind}
    (known : Piece.equalable? first = some (short, long)) :
    (String.ofList [first], short) ∈ TokenKind.marks ∧
      short ∈ [TokenKind.bang, .equal, .less, .greater] ∧
      (String.ofList [first, '='], long) ∈ TokenKind.marks ∧ long.isWord = false ∧
      long ∉ [TokenKind.number, .bang, .equal, .less, .greater, .slash] := by
  unfold Piece.equalable? at known
  split at known <;> first | (cases known; decide +kernel) | cases known

theorem ofWord_known (text : String) :
    TokenKind.ofWord text = .identifier ∨ (text, TokenKind.ofWord text) ∈ TokenKind.keywords := by
  unfold TokenKind.ofWord
  split <;> first | exact Or.inl rfl | exact Or.inr (by decide +kernel)

theorem isWord_ofWord (text : String) : (TokenKind.ofWord text).isWord = true := by
  unfold TokenKind.isWord
  rcases ofWord_known text with same | among
  · rw [same]
    rfl
  · exact Bool.or_eq_true_iff.mpr (Or.inr (List.any_eq_true.mpr ⟨_, among, beq_self_eq_true _⟩))

/-- A piece that carries a token is written as tokens are, and as long as it can be. -/
theorem cuts_written {first : Char} {rest : List Char} {piece : Piece}
    (cuts : Piece.Cuts first rest (.ok piece)) {literal : Literal}
    (carries : piece.token? = some (kind, literal)) (line : Nat) :
    Written ⟨kind, String.ofList piece.text, literal, line⟩ ∧
      Longest kind piece.text piece.rest := by
  cases cuts with
  | single known =>
      cases carries
      obtain ⟨mark, plain, other⟩ := single_written known
      exact ⟨.mark line mark, .of_plain plain other⟩
  | long known lengthened =>
      cases carries
      obtain ⟨_, _, mark, plain, other⟩ := equalable_written known
      exact ⟨.mark line mark, .of_plain plain other⟩
  | short known ends =>
      cases carries
      obtain ⟨mark, among, _⟩ := equalable_written known
      exact ⟨.mark line mark, .of_equalable among ends⟩
  | layout blank => cases carries
  | comment starts whole inside ends => cases carries
  | slash starts ends =>
      cases carries
      have known : ("/", TokenKind.slash) ∈ TokenKind.marks := by decide
      exact ⟨.mark line known,
        ⟨nofun, nofun, nofun, (absurd · (by decide)), fun _ => ends⟩⟩
  | @string content others starts whole inside =>
      cases carries
      have noQuote : '"' ∉ content := fun among => by simpa using inside _ among
      exact ⟨.string content line noQuote, .of_plain rfl (by decide)⟩
  | @whole digits others starts whole inside ends pointless =>
      cases carries
      have all : ∀ digit ∈ (first :: digits) ++ [], digit.isDigit = true := by
        rw [List.append_nil]
        exact List.forall_mem_cons.mpr ⟨starts, inside⟩
      exact ⟨.number (first :: digits) [] line (List.cons_ne_nil _ _) all,
        .of_number ends fun _ => pointless⟩
  | @decimal digits places others starts whole inside fractional placesInside ends =>
      cases carries
      have front : ∀ digit ∈ first :: digits, digit.isDigit = true :=
        List.forall_mem_cons.mpr ⟨starts, inside⟩
      have all : ∀ digit ∈ (first :: digits) ++ places, digit.isDigit = true := fun digit among =>
        (List.mem_append.mp among).elim (front digit) (placesInside digit)
      have written := Written.number (first :: digits) places line (List.cons_ne_nil _ _) all
      rw [if_neg (by simpa using fractional)] at written
      have pointed : '.' ∈ first :: digits ++ '.' :: places :=
        List.mem_append_right _ List.mem_cons_self
      exact ⟨written, .of_number ends fun none => absurd pointed none⟩
  | @word parts others starts whole inside ends =>
      cases carries
      exact ⟨.word first parts line starts inside, .of_word (isWord_ofWord _) ends⟩

/-- A piece that carries no token goes on with a gap. -/
theorem cuts_gap {first : Char} {rest : List Char} {piece : Piece}
    (cuts : Piece.Cuts first rest (.ok piece)) (carries : piece.token? = none)
    {gap behind : List Char} (whole : piece.rest = gap ++ behind) (more : Gap behind gap) :
    Gap behind (piece.text ++ gap) := by
  cases cuts with
  | layout blank => exact .blank blank more
  | @comment content others starts all inside ends =>
      have rest : others = gap ++ behind := whole
      rw [rest] at ends
      exact .comment (fun among => by simpa using inside _ among) ends more
  | single | long | short | slash | string | whole | decimal | word => cases carries

/-! ### Texts -/

theorem joined_cons (gap : List Char) (token : Token) (others : List (List Char × Token)) :
    joined ((gap, token) :: others) = gap ++ token.lexeme.toList ++ joined others :=
  rfl

/-- Tokens behind their gaps, from a line on, with a gap behind the last. -/
def Tiled (last : List Char) : (line : Nat) → List (List Char × Token) → Prop
  | _, [] => Gap [] last
  | line, (gap, token) :: others =>
    Gap (token.lexeme.toList ++ (joined others ++ last)) gap ∧
      token.line = line + (gap ++ token.lexeme.toList).count '\n' ∧ token.Written ∧
      Longest token.kind token.lexeme.toList (joined others ++ last) ∧ Tiled last token.line others

theorem Tiled.last_gap {last : List Char} {line : Nat} {words : List (List Char × Token)}
    (tiled : Tiled last line words) : Gap [] last := by
  induction words generalizing line with
  | nil => exact tiled
  | cons word others ih => exact ih tiled.2.2.2.2

/-- Everything about a token, wherever it stands. -/
theorem Tiled.at {last : List Char} {line : Nat} {words front back : List (List Char × Token)}
    {gap : List Char} {token : Token} (tiled : Tiled last line words)
    (whole : words = front ++ (gap, token) :: back) :
    Gap (token.lexeme.toList ++ (joined back ++ last)) gap ∧
      token.line = line + (joined front ++ gap ++ token.lexeme.toList).count '\n' ∧ token.Written ∧
      Longest token.kind token.lexeme.toList (joined back ++ last) := by
  induction front generalizing line words with
  | nil =>
      subst whole
      obtain ⟨gaps, lines, written, longest, _⟩ := tiled
      exact ⟨gaps, lines, written, longest⟩
  | cons word others ih =>
      subst whole
      obtain ⟨earlier, previous⟩ := word
      obtain ⟨_, lines, _, _, more⟩ := tiled
      obtain ⟨gaps, further, written, longest⟩ := ih more rfl
      refine ⟨gaps, ?_, written, longest⟩
      rw [further, lines, joined_cons]
      simp only [List.count_append]
      omega

section

variable {first : Char} {rest : List Char} {piece : Piece} {line : Nat}
variable {words : List (List Char × Token)} {last : List Char}

/-- A gap goes before the first token, or before the end. -/
theorem Tiled.prepend_gap (cuts : Piece.Cuts first rest (.ok piece))
    (carries : piece.token? = none) (whole : piece.rest = joined words ++ last)
    (tiled : Tiled last (lineAfter line piece.text) words) :
    ∃ others ending, others.map Prod.snd = words.map Prod.snd ∧
      piece.text ++ piece.rest = joined others ++ ending ∧ Tiled ending line others := by
  cases words with
  | nil =>
      refine ⟨[], piece.text ++ last, rfl, congrArg (piece.text ++ ·) whole, ?_⟩
      exact cuts_gap cuts carries (whole.trans (List.append_nil last).symm) tiled
  | cons word others =>
      obtain ⟨gap, token⟩ := word
      obtain ⟨gaps, lines, written, longest, more⟩ := tiled
      refine ⟨(piece.text ++ gap, token) :: others, last, rfl, ?_, ?_, ?_, written, longest, more⟩
      · rw [whole, joined_cons, joined_cons]
        simp only [List.append_assoc]
      · refine cuts_gap cuts carries ?_ gaps
        rw [whole, joined_cons]
        simp only [List.append_assoc]
      · rw [lines]
        unfold lineAfter
        simp only [List.count_append]
        omega

/-- A token stands before the others, with no gap so far. -/
theorem Tiled.prepend_token (cuts : Piece.Cuts first rest (.ok piece)) {literal : Literal}
    (carries : piece.token? = some (kind, literal)) (whole : piece.rest = joined words ++ last)
    (tiled : Tiled last (lineAfter line piece.text) words) :
    let token : Token := ⟨kind, String.ofList piece.text, literal, lineAfter line piece.text⟩
    piece.text ++ piece.rest = joined (([], token) :: words) ++ last ∧
      Tiled last line (([], token) :: words) := by
  intro token
  obtain ⟨written, longest⟩ := cuts_written cuts carries (lineAfter line piece.text)
  refine ⟨?_, .nil, ?_, written, ?_, tiled⟩
  · rw [joined_cons, String.toList_ofList, whole, List.append_assoc]
    rfl
  · rw [String.toList_ofList]
    rfl
  · rw [String.toList_ofList, ← whole]
    exact longest

theorem Tiled.prepend (cuts : Piece.Cuts first rest (.ok piece))
    (whole : piece.rest = joined words ++ last)
    (tiled : Tiled last (lineAfter line piece.text) words) :
    ∃ others ending,
      others.map Prod.snd = piece.tokens (lineAfter line piece.text) ++ words.map Prod.snd ∧
      piece.text ++ piece.rest = joined others ++ ending ∧ Tiled ending line others := by
  unfold Piece.tokens
  cases carries : piece.token? with
  | none => exact tiled.prepend_gap cuts carries whole
  | some found =>
      obtain ⟨same, further⟩ := tiled.prepend_token cuts carries whole
      exact ⟨_, last, rfl, same, further⟩

end

theorem scans_tiled {line : Nat} {text : List Char} {outcome : Except LexicalFailure (List Token)}
    (scans : Scans line text outcome) {tokens : List Token} (scanned : outcome = .ok tokens) :
    ∃ words last, tokens = words.map Prod.snd ++ [endOfInput (line + text.count '\n')] ∧
      text = joined words ++ last ∧ Tiled last line words := by
  induction scans generalizing tokens with
  | ends line =>
      cases scanned
      exact ⟨[], [], rfl, rfl, .nil⟩
  | fails cuts => cases scanned
  | @more line first rest piece outcome cuts splits scans ih =>
      cases outcome with
      | error failure => cases scanned
      | ok found =>
          cases scanned
          obtain ⟨words, last, rfl, whole, tiled⟩ := ih rfl
          obtain ⟨others, ending, same, alsoWhole, alsoTiled⟩ := tiled.prepend cuts whole
          have lines : lineAfter line piece.text + piece.rest.count '\n'
              = line + (first :: rest).count '\n' := splits.lineAfter_rest line
          rw [lines, ← splits.text_append_rest]
          refine ⟨others, ending, ?_, alsoWhole, alsoTiled⟩
          rw [same, List.append_assoc]

/-- A token has the kind of a keyword exactly when the keyword is its whole lexeme. -/
theorem Written.keyword {token : Token} (written : token.Written) :
    ∀ entry ∈ TokenKind.keywords, token.kind = entry.2 ↔ token.lexeme = entry.1 := by
  intro entry listed
  cases written with
  | @mark text kind line known =>
      have apart : ∀ mark ∈ TokenKind.marks, ∀ entry ∈ TokenKind.keywords,
          mark.2 ≠ entry.2 ∧ mark.1 ≠ entry.1 := by decide +kernel
      obtain ⟨kinds, texts⟩ := apart (text, kind) known entry listed
      exact iff_of_false kinds texts
  | string content line inside =>
      have apart : ∀ entry ∈ TokenKind.keywords,
          .string ≠ entry.2 ∧ some '"' ≠ entry.1.toList.head? := by decide +kernel
      obtain ⟨kinds, texts⟩ := apart entry listed
      refine iff_of_false kinds fun same => texts ?_
      rw [← same, String.toList_ofList]
      rfl
  | number whole places line nonempty digits =>
      have apart : ∀ entry ∈ TokenKind.keywords,
          .number ≠ entry.2 ∧ entry.1.toList.head?.any Char.isDigit = false := by decide +kernel
      obtain ⟨kinds, texts⟩ := apart entry listed
      refine iff_of_false kinds fun same => ?_
      rw [← same, String.toList_ofList] at texts
      cases whole with
      | nil => exact nonempty rfl
      | cons first more =>
          have digit := digits first List.mem_cons_self
          have starts :
              (if places.isEmpty then first :: more else first :: more ++ '.' :: places).head?
                = some first := by split <;> rfl
          rw [starts] at texts
          exact absurd digit (ne_true_of_eq_false texts)
  | word first parts line starts inside =>
      have named : ∀ entry ∈ TokenKind.keywords,
          TokenKind.ofWord entry.1 = entry.2 ∧ entry.2 ≠ .identifier := by decide +kernel
      have once : ∀ entry ∈ TokenKind.keywords, ∀ other ∈ TokenKind.keywords,
          entry.2 = other.2 → entry.1 = other.1 := by decide +kernel
      constructor
      · intro same
        rcases ofWord_known (String.ofList (first :: parts)) with plain | among
        · exact absurd (same.symm.trans plain) (named entry listed).2
        · exact once _ among entry listed same
      · intro same
        exact (congrArg TokenKind.ofWord same).trans (named entry listed).1

end Token

theorem Token.scanFrom_cons {found : List Token} {line : Nat} {first : Char} {rest : List Char}
    {piece : Piece} (cutOff : Piece.cut first rest = .ok piece) :
    scanFrom found line (first :: rest)
      = scanFrom ((piece.tokens (lineAfter line piece.text)).reverse ++ found)
          (lineAfter line piece.text) piece.rest := by
  rw [scanFrom]
  split
  · next error failed =>
      rw [cutOff] at failed
      cases failed
  · next other also =>
      rw [cutOff] at also
      cases also
      unfold Piece.tokens
      cases piece.token? <;> rfl

theorem dotted_scanned :
    Token.scan "1.2.3\n"
      = .ok
        [⟨.number, "1.2", .number (Numeral.value ['1'] ['2']), 1⟩, ⟨.dot, ".", .nil, 1⟩,
          ⟨.number, "3", .number (Numeral.value ['3'] []), 1⟩, Token.endOfInput 2] := by
  change Token.scanFrom [] 1 ['1', '.', '2', '.', '3', '\n'] = _
  refine (Token.scanFrom_cons rfl).trans ((Token.scanFrom_cons rfl).trans ?_)
  refine (Token.scanFrom_cons rfl).trans ((Token.scanFrom_cons rfl).trans ?_)
  exact Token.scanFrom.eq_1 _ _

end Lox
