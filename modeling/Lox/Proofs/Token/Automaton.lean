import Lox.Proofs.Token.Bytes
import Lox.Proofs.Token.Pieces
set_option autoImplicit false

/-! Which byte a scan fails at is told by an automaton that reads the bytes one by one and remembers
only what kind of text it is in. -/

namespace Lox

/-- The kind of text that a byte stands in. -/
inductive Mode where
  | code
  /-- Code right behind a slash, which another slash turns into a comment. -/
  | slash
  | comment
  | string
  deriving DecidableEq, Repr

namespace Mode

/-- What code may consist of, besides letters and digits. -/
def marks : List Char :=
  [' ', '\t', '\r', '\n', '_', '(', ')', '\x7b', '\x7d', ',', '.', '-', '+', ';', '/', '*', '?',
    ':', '!', '=', '<', '>']

def isOrdinary (character : Char) : Bool :=
  character.isAlphanum || marks.contains character

/-- The mode behind a character in code, which may be a bad one. -/
def codeNext? (character : Char) : Option Mode :=
  if character = '/' then some slash
  else if character = '"' then some string
  else if isOrdinary character then some code
  else none

def next? : Mode → Char → Option Mode
  | code, character => codeNext? character
  | slash, character => if character = '/' then some comment else codeNext? character
  | comment, character => some (if character = '\n' then code else comment)
  | string, character => some (if character = '"' then code else string)

/-- The mode behind some bytes, if none of them is bad. -/
def after? (mode : Mode) : List UInt8 → Option Mode
  | [] => some mode
  | byte :: others => (mode.next? (Char.ofUInt8 byte)).bind fun later => later.after? others

theorem after?_append (mode : Mode) (front back : List UInt8) :
    mode.after? (front ++ back) = (mode.after? front).bind (·.after? back) := by
  induction front generalizing mode with
  | nil => rfl
  | cons byte others ih =>
      change (mode.next? (Char.ofUInt8 byte)).bind (·.after? (others ++ back))
        = ((mode.next? (Char.ofUInt8 byte)).bind (·.after? others)).bind (·.after? back)
      cases mode.next? (Char.ofUInt8 byte) with
      | none => rfl
      | some later => exact ih later

/-! ### Characters -/

theorem marks_narrow : ∀ mark ∈ marks, mark.toNat < 128 := by
  have all : marks.all (fun mark => decide (mark.toNat < 128)) = true := by decide
  exact fun mark among => of_decide_eq_true (List.all_eq_true.mp all mark among)

theorem isAlphanum_narrow {character : Char} (holds : character.isAlphanum = true) :
    character.toNat < 128 := by
  rcases Bool.or_eq_true_iff.mp holds with letter | digit
  · have bounds := Piece.bounds_of_isAlpha letter
    omega
  · have bounds := Piece.bounds_of_isDigit digit
    omega

theorem codeNext?_wide {character : Char} (wide : 128 ≤ character.toNat) :
    codeNext? character = none := by
  have plain : isOrdinary character = false := by
    unfold isOrdinary
    rw [Bool.or_eq_false_iff]
    constructor
    · apply eq_false_of_ne_true
      intro holds
      have narrow := isAlphanum_narrow holds
      omega
    · apply eq_false_of_ne_true
      intro among
      have narrow := marks_narrow character (List.contains_iff_mem.mp among)
      omega
  unfold codeNext?
  rw [if_neg (by simpa using Utf8.wide_ne wide '/' (by decide)),
    if_neg (by simpa using Utf8.wide_ne wide '"' (by decide)), plain]
  rfl

/-- What a wide character does, and each of its bytes: it is bad in code and nothing elsewhere. -/
def wideNext? : Mode → Option Mode
  | code => none
  | slash => none
  | comment => some comment
  | string => some string

theorem next?_wide (mode : Mode) {character : Char} (wide : 128 ≤ character.toNat) :
    mode.next? character = mode.wideNext? := by
  cases mode with
  | code => exact codeNext?_wide wide
  | slash =>
      have other := ne_of_beq_false (Utf8.wide_ne wide '/' (by decide))
      exact (if_neg other).trans (codeNext?_wide wide)
  | comment =>
      have other := ne_of_beq_false (Utf8.wide_ne wide '\n' (by decide))
      exact congrArg some (if_neg other)
  | string =>
      have other := ne_of_beq_false (Utf8.wide_ne wide '"' (by decide))
      exact congrArg some (if_neg other)

theorem after?_wide {mode : Mode} (stays : mode.wideNext? = some mode) (bytes : List UInt8)
    (high : ∀ byte ∈ bytes, 128 ≤ byte.toNat) : mode.after? bytes = some mode := by
  induction bytes with
  | nil => rfl
  | cons byte others ih =>
      have wide : 128 ≤ (Char.ofUInt8 byte).toNat := by
        rw [Utf8.ofUInt8_toNat]
        exact high byte List.mem_cons_self
      unfold after?
      rw [mode.next?_wide wide, stays]
      exact ih fun byte among => high byte (List.mem_cons_of_mem _ among)

/-- The mode behind the bytes of a character is the one behind the character. -/
theorem after?_encode (mode : Mode) (character : Char) :
    mode.after? (String.utf8EncodeChar character) = mode.next? character := by
  by_cases narrow : character.toNat < 128
  · rw [Utf8.encode_narrow narrow]
    unfold after?
    rw [Utf8.ofUInt8_narrow narrow]
    cases mode.next? character <;> rfl
  · have wide := Nat.le_of_not_lt narrow
    obtain ⟨lead, others, encoded, first, behind⟩ := Utf8.encode_wide wide
    have above : 128 ≤ (Char.ofUInt8 lead).toNat := by
      rw [Utf8.ofUInt8_toNat]
      omega
    have high : ∀ byte ∈ others, 128 ≤ byte.toNat := fun byte among => (behind byte among).1
    rw [encoded, mode.next?_wide wide]
    unfold after?
    rw [mode.next?_wide above]
    cases mode with
    | code | slash => rfl
    | comment | string => exact after?_wide rfl others high

/-- A character is bad because of its first byte. -/
theorem next?_lead {mode : Mode} {character : Char} {lead : UInt8} {others : List UInt8}
    (encoded : String.utf8EncodeChar character = lead :: others)
    (bad : mode.next? character = none) : mode.next? (Char.ofUInt8 lead) = none := by
  by_cases narrow : character.toNat < 128
  · rw [Utf8.encode_narrow narrow] at encoded
    cases encoded
    rw [Utf8.ofUInt8_narrow narrow]
    exact bad
  · have wide := Nat.le_of_not_lt narrow
    obtain ⟨other, more, alsoEncoded, first, behind⟩ := Utf8.encode_wide wide
    rw [encoded] at alsoEncoded
    cases alsoEncoded
    have above : 128 ≤ (Char.ofUInt8 lead).toNat := by
      rw [Utf8.ofUInt8_toNat]
      omega
    rw [mode.next?_wide above, ← mode.next?_wide wide]
    exact bad

theorem after?_bytes (mode : Mode) (text : List Char) :
    mode.after? (Utf8.bytes text) = text.foldlM next? mode := by
  induction text generalizing mode with
  | nil => rfl
  | cons first rest ih =>
      rw [Utf8.bytes_cons, after?_append, after?_encode, List.foldlM_cons]
      cases mode.next? first with
      | none => rfl
      | some later => exact ih later

/-! ### Pieces -/

/-- The mode is as good as code before the text. -/
def Ready : Mode → List Char → Prop
  | code, _ => True
  | slash, text => Piece.Stops (· == '/') text
  | comment, text => Piece.Stops (· != '\n') text
  | string, _ => False

theorem Ready.next? {mode : Mode} {first : Char} {rest : List Char}
    (ready : mode.Ready (first :: rest)) : mode.next? first = codeNext? first := by
  cases mode with
  | code => rfl
  | slash => exact if_neg (ne_of_beq_false (ready first rfl))
  | comment =>
      have feeds : first = '\n' := by simpa using ready first rfl
      rw [feeds]
      decide
  | string => exact absurd ready id

theorem foldlM_stays {mode : Mode} {text : List Char}
    (stays : ∀ character ∈ text, mode.next? character = some mode) :
    text.foldlM Mode.next? mode = some mode := by
  induction text with
  | nil => rfl
  | cons first rest ih =>
      rw [List.foldlM_cons, stays first List.mem_cons_self]
      exact ih fun character among => stays character (List.mem_cons_of_mem _ among)

theorem foldlM_code {text : List Char}
    (ordinary : ∀ character ∈ text, codeNext? character = some code) :
    text.foldlM Mode.next? code = some code :=
  foldlM_stays ordinary

theorem codeNext?_of_wordPart {character : Char} (part : Piece.isWordPart character = true) :
    codeNext? character = some code := by
  have noSlash : character ≠ '/' := by
    rintro rfl
    revert part
    decide
  have noQuote : character ≠ '"' := by
    rintro rfl
    revert part
    decide
  have ordinary : isOrdinary character = true := by
    rcases Bool.or_eq_true_iff.mp part with alphanumeric | underscore
    · exact Bool.or_eq_true_iff.mpr (Or.inl alphanumeric)
    · rw [beq_iff_eq.mp underscore]
      decide
  unfold codeNext?
  rw [if_neg noSlash, if_neg noQuote, if_pos ordinary]

theorem codeNext?_of_single {character : Char} {kind : TokenKind}
    (known : Piece.single? character = some kind) : codeNext? character = some code := by
  unfold Piece.single? at known
  split at known <;> first | decide | cases known

theorem codeNext?_of_equalable {character : Char} {kinds : TokenKind × TokenKind}
    (known : Piece.equalable? character = some kinds) : codeNext? character = some code := by
  unfold Piece.equalable? at known
  split at known <;> first | decide | cases known

theorem codeNext?_of_layout {character : Char} (blank : Piece.isLayout character = true) :
    codeNext? character = some code := by
  simp only [Piece.isLayout, Bool.or_eq_true, beq_iff_eq] at blank
  rcases blank with ((rfl | rfl) | rfl) | rfl <;> decide

/-- What starts no piece is bad in code. -/
theorem codeNext?_of_unexpected {character : Char} (unknown : Piece.isUnexpected character = true) :
    codeNext? character = none := by
  have marked : marks.all (fun mark => !Piece.isUnexpected mark) = true := by decide
  have plain : isOrdinary character = false := by
    apply eq_false_of_ne_true
    intro ordinary
    rcases Bool.or_eq_true_iff.mp ordinary with alphanumeric | among
    · unfold Piece.isUnexpected Piece.isWordStart at unknown
      unfold Char.isAlphanum at alphanumeric
      rcases Bool.or_eq_true_iff.mp alphanumeric with letter | digit
      · simp [letter] at unknown
      · simp [digit] at unknown
    · have known := List.all_eq_true.mp marked character (List.contains_iff_mem.mp among)
      rw [unknown] at known
      cases known
  have noSlash : character ≠ '/' := by
    rintro rfl
    revert unknown
    decide
  have noQuote : character ≠ '"' := by
    rintro rfl
    revert unknown
    decide
  unfold codeNext?
  rw [if_neg noSlash, if_neg noQuote, plain]
  rfl

/-- Behind a piece the automaton is as good as in code again. -/
theorem cuts_ready {first : Char} {rest : List Char} {piece : Piece}
    (cuts : Piece.Cuts first rest (.ok piece)) :
    ∃ mode, piece.text.foldlM Mode.next? code = some mode ∧ mode.Ready piece.rest := by
  cases cuts with
  | single known =>
      exact ⟨code, foldlM_code (List.forall_mem_singleton.mpr (codeNext?_of_single known)), trivial⟩
  | long known lengthened =>
      have both : ∀ character ∈ [first, '='], codeNext? character = some code :=
        List.forall_mem_cons.mpr
          ⟨codeNext?_of_equalable known, List.forall_mem_singleton.mpr (by decide)⟩
      exact ⟨code, foldlM_code both, trivial⟩
  | short known ends =>
      exact ⟨code, foldlM_code (List.forall_mem_singleton.mpr (codeNext?_of_equalable known)),
        trivial⟩
  | layout blank =>
      exact ⟨code, foldlM_code (List.forall_mem_singleton.mpr (codeNext?_of_layout blank)), trivial⟩
  | @comment content others starts whole inside ends =>
      have quiet : ∀ character ∈ content, comment.next? character = some comment :=
        fun character among => congrArg some (if_neg (by simpa using inside character among))
      exact ⟨comment, foldlM_stays quiet, ends⟩
  | slash starts ends => exact ⟨slash, rfl, ends⟩
  | @string content others starts whole inside =>
      have quiet : ∀ character ∈ content, string.next? character = some string :=
        fun character among => congrArg some (if_neg (by simpa using inside character among))
      have closes : (content ++ ['"']).foldlM Mode.next? string = some code := by
        rw [List.foldlM_append, foldlM_stays quiet]
        rfl
      exact ⟨code, closes, trivial⟩
  | @whole digits others starts whole inside ends pointless =>
      have all : ∀ character ∈ first :: digits, codeNext? character = some code :=
        List.forall_mem_cons.mpr ⟨codeNext?_of_wordPart (Piece.isWordPart_of_digit starts),
          fun character among =>
            codeNext?_of_wordPart (Piece.isWordPart_of_digit (inside character among))⟩
      exact ⟨code, foldlM_code all, trivial⟩
  | @decimal digits places others starts whole inside fractional behind ends =>
      have all : ∀ character ∈ first :: digits ++ '.' :: places,
          codeNext? character = some code := by
        simp only [List.cons_append, List.mem_cons, List.mem_append]
        rintro character (rfl | among | rfl | among)
        · exact codeNext?_of_wordPart (Piece.isWordPart_of_digit starts)
        · exact codeNext?_of_wordPart (Piece.isWordPart_of_digit (inside character among))
        · decide
        · exact codeNext?_of_wordPart (Piece.isWordPart_of_digit (behind character among))
      exact ⟨code, foldlM_code all, trivial⟩
  | @word parts others starts whole inside ends =>
      have all : ∀ character ∈ first :: parts, codeNext? character = some code :=
        List.forall_mem_cons.mpr ⟨codeNext?_of_wordPart (Piece.isWordPart_of_wordStart starts),
          fun character among => codeNext?_of_wordPart (inside character among)⟩
      exact ⟨code, foldlM_code all, trivial⟩

/-! ### Texts -/

/-- The outcome of a scan from a line on is told by the automaton, which is in the given mode. -/
def Tells (mode : Mode) (line : Nat) (text : List Char) :
    Except LexicalFailure (List Token) → Prop
  | .ok _ => ∃ last, text.foldlM Mode.next? mode = some last ∧ last ≠ string
  | .error ⟨place, .unterminatedString⟩ =>
    text.foldlM Mode.next? mode = some string ∧ place = line + text.count '\n'
  | .error ⟨place, .unexpectedCharacter⟩ =>
    ∃ before bad behind last, text = before ++ bad :: behind ∧
      before.foldlM Mode.next? mode = some last ∧ last.next? bad = none ∧
      place = line + before.count '\n'

theorem Tells.append {mode middle : Mode} {line : Nat} {front back : List Char}
    (passed : front.foldlM Mode.next? mode = some middle)
    {outcome : Except LexicalFailure (List Token)}
    (tells : middle.Tells (line + front.count '\n') back outcome) (found : List Token) :
    mode.Tells line (front ++ back) (outcome.map (found ++ ·)) := by
  have through : ∀ text : List Char,
      (front ++ text).foldlM Mode.next? mode = text.foldlM Mode.next? middle := by
    intro text
    rw [List.foldlM_append, passed]
    rfl
  rcases outcome with ⟨place, error⟩ | tokens
  · cases error with
    | unterminatedString =>
        obtain ⟨unclosed, rfl⟩ := tells
        exact ⟨(through back).trans unclosed, by rw [List.count_append, Nat.add_assoc]⟩
    | unexpectedCharacter =>
        obtain ⟨before, bad, behind, last, rfl, reached, fails, rfl⟩ := tells
        exact ⟨front ++ before, bad, behind, last, (List.append_assoc _ _ _).symm,
          (through before).trans reached, fails, by rw [List.count_append, Nat.add_assoc]⟩
  · obtain ⟨last, reached, closed⟩ := tells
    exact ⟨last, (through back).trans reached, closed⟩

theorem Ready.tells {mode : Mode} {first : Char} {rest : List Char}
    (ready : mode.Ready (first :: rest)) {line : Nat} {outcome : Except LexicalFailure (List Token)}
    (tells : code.Tells line (first :: rest) outcome) :
    mode.Tells line (first :: rest) outcome := by
  have through : ∀ text : List Char,
      (first :: text).foldlM Mode.next? mode = (first :: text).foldlM Mode.next? code := by
    intro text
    rw [List.foldlM_cons, List.foldlM_cons, ready.next?]
    rfl
  rcases outcome with ⟨place, error⟩ | tokens
  · cases error with
    | unterminatedString =>
        obtain ⟨unclosed, rfl⟩ := tells
        exact ⟨(through rest).trans unclosed, rfl⟩
    | unexpectedCharacter =>
        obtain ⟨before, bad, behind, last, whole, reached, fails, rfl⟩ := tells
        cases before with
        | nil =>
            cases whole
            cases reached
            exact ⟨[], first, rest, mode, rfl, rfl, ready.next?.trans fails, rfl⟩
        | cons character others =>
            cases whole
            exact ⟨first :: others, bad, behind, last, rfl, (through others).trans reached, fails,
              rfl⟩
  · obtain ⟨last, reached, closed⟩ := tells
    exact ⟨last, (through rest).trans reached, closed⟩

/-- The outcome of every scan is the one that the automaton tells. -/
theorem scans_tells {line : Nat} {text : List Char} {outcome : Except LexicalFailure (List Token)}
    (scans : Scans line text outcome) {mode : Mode} (ready : mode.Ready text) :
    mode.Tells line text outcome := by
  induction scans generalizing mode with
  | ends line =>
      refine ⟨mode, rfl, ?_⟩
      rintro rfl
      exact ready
  | @fails line first rest error cuts =>
      apply ready.tells
      cases cuts with
      | unterminated starts inside =>
          subst starts
          have quiet : ∀ character ∈ rest, string.next? character = some string :=
            fun character among => congrArg some (if_neg (by simpa using inside character among))
          exact ⟨foldlM_stays quiet, rfl⟩
      | unexpected unknown =>
          exact ⟨[], first, rest, code, rfl, rfl, codeNext?_of_unexpected unknown, rfl⟩
  | @more line first rest piece outcome cuts splits behind ih =>
      obtain ⟨middle, passed, still⟩ := cuts_ready cuts
      apply ready.tells
      rw [← splits.text_append_rest]
      exact (ih still).append passed _

/-! ### Bytes -/

/-- No byte is bad, and the last does not stand in a string. -/
def Accepts (bytes : List UInt8) : Prop :=
  ∃ last, code.after? bytes = some last ∧ last ≠ string

/-- No byte is bad, but the last stands in a string. It stands on the line. -/
def StaysOpen (bytes : List UInt8) (line : Nat) : Prop :=
  code.after? bytes = some string ∧ line = 1 + bytes.count 10

/-- The automaton meets a bad byte on the line. -/
def FailsOn (bytes : List UInt8) (line : Nat) : Prop :=
  ∃ before bad behind last, bytes = before ++ bad :: behind ∧
    code.after? before = some last ∧ last.next? (Char.ofUInt8 bad) = none ∧
    line = 1 + before.count 10

theorem after?_bad {mode last : Mode} {before : List UInt8} {bad : UInt8}
    (reached : mode.after? before = some last) (fails : last.next? (Char.ofUInt8 bad) = none)
    (behind : List UInt8) : mode.after? (before ++ bad :: behind) = none := by
  rw [after?_append, reached]
  change (last.next? (Char.ofUInt8 bad)).bind _ = none
  rw [fails]
  rfl

variable {bytes : List UInt8} {line : Nat}

theorem FailsOn.after?_eq_none (failing : FailsOn bytes line) : code.after? bytes = none := by
  obtain ⟨before, bad, behind, last, rfl, reached, fails, _⟩ := failing
  exact after?_bad reached fails behind

/-- There is only one first bad byte. -/
theorem FailsOn.unique {other : Nat} (failing : FailsOn bytes line) (also : FailsOn bytes other) :
    line = other := by
  obtain ⟨before, bad, behind, last, whole, reached, fails, rfl⟩ := failing
  obtain ⟨earlier, first, later, second, alsoWhole, alsoReached, alsoFails, rfl⟩ := also
  rw [whole] at alsoWhole
  rcases List.append_eq_append_iff.mp alsoWhole with ⟨more, rfl, rest⟩ | ⟨more, rfl, rest⟩
  · cases more with
    | nil => rw [List.append_nil]
    | cons byte more =>
        cases rest
        rw [after?_bad reached fails] at alsoReached
        cases alsoReached
  · cases more with
    | nil => rw [List.append_nil]
    | cons byte more =>
        cases rest
        rw [after?_bad alsoReached alsoFails] at reached
        cases reached

/-- The outcome of a scan is told by the automaton, over bytes. -/
def TellsBytes (bytes : List UInt8) : Except LexicalFailure (List Token) → Prop
  | .ok _ => Accepts bytes
  | .error ⟨line, .unterminatedString⟩ => StaysOpen bytes line
  | .error ⟨line, .unexpectedCharacter⟩ => FailsOn bytes line

theorem Tells.toBytes {text : List Char} {outcome : Except LexicalFailure (List Token)}
    (tells : code.Tells 1 text outcome) : TellsBytes (Utf8.bytes text) outcome := by
  rcases outcome with ⟨line, error⟩ | tokens
  · cases error with
    | unterminatedString =>
        obtain ⟨unclosed, rfl⟩ := tells
        exact ⟨(after?_bytes code _).trans unclosed, by rw [Utf8.count_bytes]⟩
    | unexpectedCharacter =>
        obtain ⟨before, bad, behind, last, rfl, reached, fails, rfl⟩ := tells
        obtain ⟨lead, others, encoded, _⟩ := Utf8.exists_lead bad
        refine ⟨Utf8.bytes before, lead, others ++ Utf8.bytes behind, last, ?_,
          (after?_bytes code _).trans reached, next?_lead encoded fails, by rw [Utf8.count_bytes]⟩
        rw [Utf8.bytes_append, Utf8.bytes_cons, encoded, List.cons_append]
  · obtain ⟨last, reached, closed⟩ := tells
    exact ⟨last, (after?_bytes code _).trans reached, closed⟩

theorem scan_tellsBytes (source : String) :
    TellsBytes source.toUTF8.data.toList (Token.scan source) := by
  rw [Utf8.toUTF8_data]
  have tells : code.Tells 1 source.toList (Token.scan source) :=
    scans_tells (scan_scans source) trivial
  exact tells.toBytes

/-! The automaton leaves no choice of outcome. -/

variable {outcome : Except LexicalFailure (List Token)}

theorem TellsBytes.ok_iff (tells : TellsBytes bytes outcome) :
    (∃ tokens, outcome = .ok tokens) ↔ Accepts bytes := by
  constructor
  · intro holds
    obtain ⟨tokens, rfl⟩ := holds
    exact tells
  · intro accepts
    obtain ⟨last, reached, closed⟩ := accepts
    rcases outcome with ⟨line, _ | _⟩ | tokens
    · rw [FailsOn.after?_eq_none tells] at reached
      cases reached
    · rw [tells.1] at reached
      exact absurd (Option.some.inj reached).symm closed
    · exact ⟨tokens, rfl⟩

theorem TellsBytes.unterminated_iff (tells : TellsBytes bytes outcome) (line : Nat) :
    outcome = .error ⟨line, .unterminatedString⟩ ↔ StaysOpen bytes line := by
  constructor
  · intro same
    rw [same] at tells
    exact tells
  · intro unclosed
    rcases outcome with ⟨place, _ | _⟩ | tokens
    · have reached := unclosed.1
      rw [FailsOn.after?_eq_none tells] at reached
      cases reached
    · rw [tells.2, unclosed.2]
    · obtain ⟨last, reached, closed⟩ := tells
      rw [unclosed.1] at reached
      exact absurd (Option.some.inj reached).symm closed

theorem TellsBytes.unexpected_iff (tells : TellsBytes bytes outcome) (line : Nat) :
    outcome = .error ⟨line, .unexpectedCharacter⟩ ↔ FailsOn bytes line := by
  constructor
  · intro same
    rw [same] at tells
    exact tells
  · intro failing
    have none := failing.after?_eq_none
    rcases outcome with ⟨place, _ | _⟩ | tokens
    · rw [FailsOn.unique tells failing]
    · rw [tells.1] at none
      cases none
    · obtain ⟨last, reached, closed⟩ := tells
      rw [reached] at none
      cases none

end Mode

end Lox
