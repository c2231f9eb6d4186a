import Lox.Token.Piece
set_option autoImplicit false

/-! The tokens of a text, with lines counted by line feeds. -/

namespace Lox

/-- The first place at which a text stops being a sequence of tokens. -/
structure LexicalFailure where
  line : Nat
  error : LexicalError
  deriving DecidableEq, Repr

namespace Token

/-- The line on which a text ends that starts on the given one. -/
def lineAfter (line : Nat) (text : List Char) : Nat :=
  line + text.count '\n'

/-- A failure stands on the line of the unexpected character, or on the last line when a string
runs to the end of the text. -/
def failureAt (line : Nat) (text : List Char) : LexicalError → LexicalFailure
  | .unexpectedCharacter => ⟨line, .unexpectedCharacter⟩
  | .unterminatedString => ⟨lineAfter line text, .unterminatedString⟩

/-- Tokens of the rest of a text, behind those already found (last first). -/
def scanFrom (found : List Token) (line : Nat) : List Char → Except LexicalFailure (List Token)
  | [] => .ok (endOfInput line :: found).reverse
  | first :: rest =>
    match _cutOff : Piece.cut first rest with
    | .error error => .error (failureAt line (first :: rest) error)
    | .ok piece =>
      let after := lineAfter line piece.text
      match piece.token? with
      | none => scanFrom found after piece.rest
      | some (kind, literal) =>
        scanFrom (⟨kind, String.ofList piece.text, literal, after⟩ :: found) after piece.rest
termination_by text => text.length
decreasing_by all_goals exact (Piece.cut_splits _cutOff).rest_length_lt

/-- All tokens of a source, the end of input last. -/
def scan (source : String) : Except LexicalFailure (List Token) :=
  scanFrom [] 1 source.toList

end Token

end Lox
