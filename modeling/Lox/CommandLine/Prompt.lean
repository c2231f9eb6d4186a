import Lox.CommandLine.Outcome
set_option autoImplicit false

/-! The prompt: one session over the lines of the input. A line keeps its line feed; the last one
may have none. Errors are told and the next line is read; only a line that is no text ends the
prompt. -/

namespace Lox.CommandLine

def lineFeed : UInt8 := 10

/-- The lines of an input, each with its line feed. -/
def lines : List UInt8 → List (List UInt8)
  | [] => []
  | byte :: rest =>
    if byte = lineFeed then [byte] :: lines rest
    else
      match lines rest with
      | [] => [[byte]]
      | line :: others => (byte :: line) :: others

/-- The lines are all of the input. -/
theorem flatten_lines (input : List UInt8) : (lines input).flatten = input := by
  induction input with
  | nil => rfl
  | cons byte rest ih =>
    unfold lines
    split
    · simp [ih]
    · split <;> simp_all

namespace Prompt

def greeting : String := "Lox tree-walk interpreter\n"

/-- What asks for a line. -/
def request : String := "> "

def farewell : String := "Exit\n"

/-- Asks for and works through one line after the other; `told` is what was reported so far. -/
def converse (steps : Nat) (session : Session) (told : String) :
    List (List UInt8) → Except Halt Outcome
  | [] =>
    let session := (session.say request).say farewell
    return ⟨0, session.machine.output.written, told⟩
  | line :: lines =>
    let session := session.say request
    match decode ⟨line.toArray⟩ with
    | .error failure =>
      return ⟨74, session.machine.output.written, told ++ failure.message ++ "\n"⟩
    | .ok text => do
      let (diagnostics, session) ← session.answer steps text
      converse steps session (told ++ errorText diagnostics) lines

end Prompt

/-- The prompt over a whole input. -/
def prompt (steps : Nat) (settings : Settings) (input : ByteArray) : Except Halt Outcome :=
  let session := (openSession settings).say Prompt.greeting
  Prompt.converse steps session "" (lines input.toList)

end Lox.CommandLine
