import Lox.Number.Numeral
import Lox.Token.Basic
set_option autoImplicit false

/-! A text is cut from the front into pieces: gaps, which are single blanks and comments, and
lexemes, each as long as it can be. A piece and what follows it are together the text it was cut
from (`Piece.cut_splits`), so cutting comes to an end. -/

namespace Lox

inductive LexicalError where
  | unexpectedCharacter
  | unterminatedString
  deriving DecidableEq, Repr

def LexicalError.message : LexicalError → String
  | unexpectedCharacter => "Unexpected character."
  | unterminatedString => "Unterminated string."

/-- A front part of a text and the rest of it. A gap carries no token. -/
structure Piece where
  token? : Option (TokenKind × Literal)
  text : List Char
  rest : List Char

namespace Piece

def isWordStart (character : Char) : Bool :=
  character.isAlpha || character == '_'

def isWordPart (character : Char) : Bool :=
  character.isAlphanum || character == '_'

def gap (text rest : List Char) : Piece :=
  ⟨none, text, rest⟩

/-- A lexeme of fixed spelling. -/
def mark (kind : TokenKind) (text rest : List Char) : Piece :=
  ⟨some (kind, .nil), text, rest⟩

/-- The kinds of a character that is a lexeme whatever follows. -/
def single? : Char → Option TokenKind
  | '(' => some .leftParen
  | ')' => some .rightParen
  | '\x7b' => some .leftBrace
  | '\x7d' => some .rightBrace
  | ',' => some .comma
  | '.' => some .dot
  | '-' => some .minus
  | '+' => some .plus
  | ';' => some .semicolon
  | '*' => some .star
  | '?' => some .question
  | ':' => some .colon
  | _ => none

/-- The kinds of a character by itself and with an equals sign behind it. -/
def equalable? : Char → Option (TokenKind × TokenKind)
  | '!' => some (.bang, .bangEqual)
  | '=' => some (.equal, .equalEqual)
  | '<' => some (.less, .lessEqual)
  | '>' => some (.greater, .greaterEqual)
  | _ => none

def isLayout (character : Char) : Bool :=
  character == ' ' || character == '\t' || character == '\r' || character == '\n'

/-- An operator that an equals sign lengthens. -/
def equalable (first : Char) (short long : TokenKind) : List Char → Piece
  | '=' :: rest => mark long [first, '='] rest
  | rest => mark short [first] rest

/-- A slash starts a comment where another one follows. The line feed stays outside. -/
def slash : List Char → Piece
  | '/' :: rest =>
    let comment := rest.takeWhile (· != '\n')
    gap ('/' :: '/' :: comment) (rest.dropWhile (· != '\n'))
  | rest => mark .slash ['/'] rest

/-- A string runs to the next quote, across lines and without escapes. -/
def string (rest : List Char) : Except LexicalError Piece :=
  let content := rest.takeWhile (· != '"')
  match rest.dropWhile (· != '"') with
  | [] => .error .unterminatedString
  | quote :: others =>
    .ok ⟨some (.string, .string (String.ofList content)), '"' :: content ++ [quote], others⟩

/-- The digits behind a point that has digits on both sides, and what follows them. -/
def fraction : List Char → List Char × List Char
  | '.' :: digit :: rest =>
    if digit.isDigit then (digit :: rest.takeWhile Char.isDigit, rest.dropWhile Char.isDigit)
    else ([], '.' :: digit :: rest)
  | rest => ([], rest)

/-- A number is a run of digits, and a fraction if there is one. -/
def number (first : Char) (rest : List Char) : Piece :=
  let whole := first :: rest.takeWhile Char.isDigit
  let (places, others) := fraction (rest.dropWhile Char.isDigit)
  let written := if places.isEmpty then whole else whole ++ '.' :: places
  ⟨some (.number, .number (Numeral.value whole places)), written, others⟩

def word (first : Char) (rest : List Char) : Piece :=
  let text := first :: rest.takeWhile isWordPart
  mark (.ofWord (String.ofList text)) text (rest.dropWhile isWordPart)

/-- The piece that a character starts. -/
def cut (first : Char) (rest : List Char) : Except LexicalError Piece :=
  match single? first, equalable? first with
  | some kind, _ => .ok (mark kind [first] rest)
  | none, some (short, long) => .ok (equalable first short long rest)
  | none, none =>
    if isLayout first then .ok (gap [first] rest)
    else if first = '/' then .ok (slash rest)
    else if first = '"' then string rest
    else if first.isDigit then .ok (number first rest)
    else if isWordStart first then .ok (word first rest)
    else .error .unexpectedCharacter

/-- A piece and what follows it make up a text, and the piece has some of it. -/
structure Splits (piece : Piece) (text : List Char) : Prop where
  text_append_rest : piece.text ++ piece.rest = text
  text_ne_nil : piece.text ≠ []

theorem equalable_splits (first : Char) (short long : TokenKind) (rest : List Char) :
    (equalable first short long rest).Splits (first :: rest) := by
  unfold equalable
  split <;> constructor <;> simp [mark]

theorem slash_splits (rest : List Char) : (slash rest).Splits ('/' :: rest) := by
  unfold slash
  split <;> constructor <;> simp [mark, gap]

theorem string_splits {rest : List Char} {piece : Piece} (cutOff : string rest = .ok piece) :
    piece.Splits ('"' :: rest) := by
  unfold string at cutOff
  split at cutOff
  · contradiction
  · next quote others behind =>
    cases cutOff
    have whole := List.takeWhile_append_dropWhile (p := (· != '"')) (l := rest)
    rw [behind] at whole
    constructor
    · simpa using whole
    · simp

theorem fraction_append (text : List Char) :
    (if (fraction text).1.isEmpty then [] else '.' :: (fraction text).1) ++ (fraction text).2
      = text := by
  unfold fraction
  split
  · split <;> simp
  · simp

theorem number_splits (first : Char) (rest : List Char) :
    (number first rest).Splits (first :: rest) := by
  have whole := List.takeWhile_append_dropWhile (p := Char.isDigit) (l := rest)
  have behind := fraction_append (rest.dropWhile Char.isDigit)
  constructor
  · simp only [number]
    split <;> simp_all
  · simp only [number]
    split <;> simp

theorem word_splits (first : Char) (rest : List Char) :
    (word first rest).Splits (first :: rest) := by
  constructor <;> simp [word, mark]

/-- Nothing is lost between a piece and the rest. -/
theorem cut_splits {first : Char} {rest : List Char} {piece : Piece}
    (cutOff : cut first rest = .ok piece) : piece.Splits (first :: rest) := by
  unfold cut at cutOff
  split at cutOff
  · cases cutOff
    constructor <;> simp [mark]
  · cases cutOff
    exact equalable_splits _ _ _ _
  · split at cutOff
    · cases cutOff
      constructor <;> simp [gap]
    split at cutOff
    · next isSlash =>
      cases cutOff
      subst isSlash
      exact slash_splits _
    split at cutOff
    · next isQuote =>
      subst isQuote
      exact string_splits cutOff
    split at cutOff
    · cases cutOff
      exact number_splits _ _
    split at cutOff
    · cases cutOff
      exact word_splits _ _
    · contradiction

theorem Splits.rest_length_lt {piece : Piece} {text : List Char} (splits : piece.Splits text) :
    piece.rest.length < text.length := by
  rw [← splits.text_append_rest, List.length_append]
  have := List.length_pos_iff.2 splits.text_ne_nil
  omega

end Piece

end Lox
