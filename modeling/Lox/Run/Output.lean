import Lox.Run.Error
set_option autoImplicit false

/-! Where programs print. An output may have room for a limited number of bytes; of a write that
does not fit the front part is still taken. -/

namespace Lox

structure Output where
  written : ByteArray
  /-- How many more bytes are taken; there is no limit if nothing is said. -/
  room : Option Nat
  flushFails : Bool

namespace Output

def unlimited : Output where
  written := .empty
  room := none
  flushFails := false

/-- Takes as many of the bytes as there is room for; it is an error if some are left. -/
def write (output : Output) (bytes : ByteArray) : Output × Option OutputError :=
  match output.room with
  | none => ({ output with written := output.written ++ bytes }, none)
  | some room =>
    if bytes.size ≤ room then
      ({ output with written := output.written ++ bytes, room := some (room - bytes.size) }, none)
    else
      ({ output with written := output.written ++ bytes.extract 0 room, room := some 0 },
        some .full)

def flushError? (output : Output) : Option OutputError :=
  if output.flushFails then some .flushFailed else none

end Output

end Lox
