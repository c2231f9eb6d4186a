import Lox.Session
set_option autoImplicit false

/-! What a run of the command line leaves behind, and what keeps it from reading its input. -/

namespace Lox.CommandLine

inductive ReadFailure where
  | notFound
  | isDirectory
  | notUtf8
  | other (message : String)
  deriving DecidableEq, Repr

def ReadFailure.message : ReadFailure → String
  | notFound => "No such file or directory (os error 2)"
  | isDirectory => "Is a directory (os error 21)"
  | notUtf8 => "stream did not contain valid UTF-8"
  | other message => message

/-- The text that bytes encode. -/
def decode (bytes : ByteArray) : Except ReadFailure String :=
  match String.fromUTF8? bytes with
  | some text => .ok text
  | none => .error .notUtf8

structure Outcome where
  exitCode : Nat
  output : ByteArray
  errors : String

/-- Every diagnostic ends its line. -/
def errorText (diagnostics : List Diagnostic) : String :=
  String.join (diagnostics.map fun diagnostic => diagnostic.text ++ "\n")

/-- A session over the command line prints without limit. -/
def openSession (settings : Settings) : Session :=
  .start settings .unlimited

def usage : Outcome where
  exitCode := 64
  output := "Usage: tree_lox [script]\n".toUTF8
  errors := ""

end Lox.CommandLine
