import Lox.CommandLine.Outcome
set_option autoImplicit false

/-! Running a script. The exit code tells how far it got: 74 when it could not be read, 65 when its
text is at fault, 70 when its run failed, and 0 otherwise. -/

namespace Lox.CommandLine

def exitCode (diagnostics : List Diagnostic) : Nat :=
  if diagnostics.any (·.isStatic) then 65
  else if diagnostics.isEmpty then 0
  else 70

/-- Runs the text of a script in a session of its own. -/
def runScript (steps : Nat) (settings : Settings) (source : String) : Except Halt Outcome := do
  let (diagnostics, session) ← (openSession settings).run steps .program source
  return ⟨exitCode diagnostics, session.machine.output.written, errorText diagnostics⟩

/-- Runs a script from the bytes of its file, if they could be read. -/
def script (steps : Nat) (settings : Settings) (contents : Except ReadFailure ByteArray) :
    Except Halt Outcome :=
  match contents >>= decode with
  | .error failure => .ok ⟨74, .empty, failure.message ++ "\n"⟩
  | .ok source => runScript steps settings source

end Lox.CommandLine
