import Lox.Grammar.Error
import Lox.Run.Error
import Lox.Token.Scan
set_option autoImplicit false

/-! Everything that is reported to the user, and its text. -/

namespace Lox

inductive Diagnostic where
  | lexical (failure : LexicalFailure)
  | syntactic (report : SyntaxReport)
  | runtime (failure : RuntimeFailure)
  /-- More calls in progress than the limit allows. -/
  | callDepth (limit : Nat)
  /-- A `return` that no call was waiting for. -/
  | strayReturn
  | output (error : OutputError)

namespace Diagnostic

/-- Whether the text of a program is to blame, which then was not run at all. -/
def isStatic : Diagnostic → Bool
  | lexical _ => true
  | syntactic _ => true
  | _ => false

/-- Where a syntax error is, within its line. -/
def location (token : Token) : String :=
  if token.kind == .endOfInput then "at end" else "at '" ++ token.lexeme ++ "'"

def lineMark (line : Nat) : String :=
  "[line " ++ toString line ++ "]"

def text : Diagnostic → String
  | lexical failure => lineMark failure.line ++ " Error: " ++ failure.error.message
  | syntactic report =>
    lineMark report.token.line ++ " Error " ++ location report.token ++ ": " ++ report.error.message
  | runtime failure => failure.error.message ++ "\n" ++ lineMark failure.line
  | callDepth limit => "Stack overflow: more than " ++ toString limit ++ " nested calls."
  | strayReturn => SyntaxError.returnOutsideFunction.message
  | output error => "Couldn't write output: " ++ error.message

end Diagnostic

end Lox
