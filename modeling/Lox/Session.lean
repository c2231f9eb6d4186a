import Lox.Diagnostic
import Lox.Grammar.Program
import Lox.Run.Evaluator
import Lox.Stmt.Label
import Lox.Text.Blank
set_option autoImplicit false

/-! A session runs one source after another on one machine. Whatever a source leaves behind, also
when it fails, is there for the next one. -/

namespace Lox

structure Session where
  settings : Settings
  machine : Machine
  /-- The label of the next declaration to be loaded. -/
  nextLabel : Nat

/-- Why a source has no outcome. Neither happens to parsed programs that are given enough steps. -/
inductive Halt where
  | stuck
  | exhausted
  deriving DecidableEq, Repr

def Halt.message : Halt → String
  | stuck => "an operator names no operation"
  | exhausted => "too few steps were allowed"

def Interrupt.diagnostic : Interrupt → Except Halt Diagnostic
  | failure cause => .ok (.runtime cause)
  | callDepth limit => .ok (.callDepth limit)
  | returning _ => .ok .strayReturn
  | output cause => .ok (.output cause)
  | stuck => .error .stuck
  | exhausted => .error .exhausted

namespace Session

/-- More steps than any run takes in practice. -/
def manySteps : Nat := 1 <<< 62

def start (settings : Settings) (output : Output) : Session where
  settings
  machine := .initial output
  nextLabel := 0

/-- Labels the declarations of a program. -/
def load (session : Session) (program : List Stmt) : List Stmt × Session :=
  let (program, nextLabel) := Stmt.labelledAll session.nextLabel program
  (program, { session with nextLabel })

/-- What came of a run: the diagnostics, in order, and the session after it. -/
abbrev Outcome := Except Halt (List Diagnostic × Session)

/-- The outcome of something run on the machine. -/
def conclude (session : Session) : EStateM.Result Interrupt Machine Unit → Outcome
  | .ok () machine => return ([], { session with machine })
  | .error interrupt machine => return ([← interrupt.diagnostic], { session with machine })

/-- Runs statements in the global scope. Output is flushed at the end, also after an error, and that
may fail too. -/
def runStatements (steps : Nat) (session : Session) (program : List Stmt) : Outcome := do
  let self := evaluator session.settings steps
  let (errors, session) ←
    session.conclude (self.executeAll Arena.globalScope program session.machine)
  let flushErrors := session.machine.output.flushError?.toList.map Diagnostic.output
  return (errors ++ flushErrors, session)

/-- Evaluates an expression in the global scope and prints its value. -/
def runExpression (steps : Nat) (session : Session) (expression : Expr) : Outcome :=
  let self := evaluator session.settings steps
  let work : Run Unit := do
    let value ← self.evaluate Arena.globalScope expression
    Run.print value
    Run.flush
  session.conclude (work session.machine)

/-- How a source is run. -/
inductive Manner where
  | program
  /-- As a program, and then the very same program once more. -/
  | programTwice
  /-- As expressions, of which the last is evaluated and printed. -/
  | expression
  /-- As a program that starts with a function declaration, whose body is run in its place. -/
  | body
  deriving DecidableEq, Repr

/-- The statements of a function body that stands first. -/
def firstBody : List Stmt → List Stmt
  | .function _ _ _ body :: _ => body
  | _ => []

/-- Runs a program that was parsed. -/
def runProgram (steps : Nat) (manner : Manner) (session : Session) (program : List Stmt) :
    Outcome := do
  let (program, session) := session.load program
  match manner with
  | .programTwice =>
    let (first, session) ← session.runStatements steps program
    let (second, session) ← session.runStatements steps program
    return (first ++ second, session)
  | .body => session.runStatements steps (firstBody program)
  | _ => session.runStatements steps program

/-- Runs a source. Nothing of it is run if its text is at fault. -/
def run (steps : Nat) (manner : Manner) (session : Session) (source : String) : Outcome :=
  match Token.scan source with
  | .error failure => return ([.lexical failure], session)
  | .ok tokens =>
    match manner with
    | .expression =>
      match parseExpression tokens with
      | .error reports => return (reports.map .syntactic, session)
      | .ok expression => session.runExpression steps expression
    | _ =>
      match parseProgram tokens with
      | .error reports => return (reports.map .syntactic, session)
      | .ok program => session.runProgram steps manner program

/-- How a line typed at the prompt is run. What ends like a statement is a program, anything else
an expression, and a line of blanks nothing. -/
def lineManner? (line : String) : Option Manner :=
  match lastVisible? line.toList with
  | none => none
  | some ';' => some .program
  | some '\x7d' => some .program
  | some _ => some .expression

/-- Runs a line typed at the prompt. -/
def answer (steps : Nat) (session : Session) (line : String) : Outcome :=
  match lineManner? line with
  | none => return ([], session)
  | some manner => session.run steps manner line

/-- Prints a text. -/
def say (session : Session) (text : String) : Session :=
  let output := (session.machine.output.write text.toUTF8).1
  { session with machine := { session.machine with output } }

end Session

end Lox
