import Lox.CommandLine.Prompt
import Lox.CommandLine.Script
import Std.Time.DateTime.Timestamp
set_option autoImplicit false

/-! The command line: without an argument the prompt, with one the script of that name. -/

namespace Lox.CommandLine

/-- Settings under which the clock tells the present time, in seconds. -/
def currentSettings : IO Settings := do
  let now ← Std.Time.Timestamp.now
  return { time := Float.ofInt now.toNanosecondsSinceUnixEpoch.val / 1000000000 }

def readFailure : IO.Error → ReadFailure
  | .noFileOrDirectory .. => .notFound
  | .inappropriateType .. => .isDirectory
  | other => .other (toString other)

def readContents (path : String) : IO (Except ReadFailure ByteArray) := do
  try
    return .ok (← IO.FS.readBinFile path)
  catch failure =>
    return .error (readFailure failure)

def writeOutput (bytes : ByteArray) : IO Unit := do
  let output ← IO.getStdout
  output.write bytes
  output.flush

def writeErrors (text : String) : IO Unit := do
  let errors ← IO.getStderr
  errors.putStr text
  errors.flush

/-- A run that has no outcome ends like a failed one. -/
def reportHalt (halt : Halt) : IO UInt32 := do
  writeErrors (halt.message ++ "\n")
  return 70

def present (outcome : Except Halt Outcome) : IO UInt32 := do
  match outcome with
  | .error halt => reportHalt halt
  | .ok outcome =>
    writeOutput outcome.output
    writeErrors outcome.errors
    return outcome.exitCode.toUInt32

/-- Reads up to the next line feed. What was read beyond it is kept for the next line. -/
partial def readLine (input : IO.FS.Stream) (pending : ByteArray) :
    IO (ByteArray × ByteArray) := do
  match pending.findIdx? (· == lineFeed) with
  | some place => return (pending.extract 0 (place + 1), pending.extract (place + 1) pending.size)
  | none =>
    let more ← input.read 4096
    if more.isEmpty then return (pending, .empty) else readLine input (pending ++ more)

/-- Talks at the prompt; `shown` bytes of the session's output have been written. -/
partial def talk (input : IO.FS.Stream) (pending : ByteArray) (session : Session) (shown : Nat) :
    IO UInt32 := do
  let session := session.say Prompt.request
  let written := session.machine.output.written
  writeOutput (written.extract shown written.size)
  let shown := written.size
  let (line, pending) ← readLine input pending
  if line.isEmpty then
    writeOutput Prompt.farewell.toUTF8
    return 0
  match decode line with
  | .error failure =>
    writeErrors (failure.message ++ "\n")
    return 74
  | .ok text =>
    let session := { session with settings := ← currentSettings }
    match session.answer Session.manySteps text with
    | .error halt => reportHalt halt
    | .ok (diagnostics, session) =>
      let written := session.machine.output.written
      writeOutput (written.extract shown written.size)
      writeErrors (errorText diagnostics)
      talk input pending session written.size

end Lox.CommandLine

open Lox.CommandLine in
def main (arguments : List String) : IO UInt32 := do
  let settings ← currentSettings
  match arguments with
  | [] => talk (← IO.getStdin) .empty ((openSession settings).say Prompt.greeting) 0
  | [path] => present (script Lox.Session.manySteps settings (← readContents path))
  | _ => present (.ok usage)
