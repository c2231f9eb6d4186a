import Lox.Text.Printable
set_option autoImplicit false

/-! Texts between double quotes, on one line and with nothing hidden. -/

namespace Lox.Quoted

/-- A character as it stands between the quotes. Single quotes need no escape there. -/
def escape (character : Char) : List Char :=
  match character with
  | '\x00' => ['\\', '0']
  | '\t' => ['\\', 't']
  | '\r' => ['\\', 'r']
  | '\n' => ['\\', 'n']
  | '\\' => ['\\', '\\']
  | '"' => ['\\', '"']
  | other =>
    if isPrintable other then [other]
    else ['\\', 'u', '\x7b'] ++ Nat.toDigits 16 other.toNat ++ ['\x7d']

def encode (text : String) : String :=
  String.ofList ('"' :: text.toList.flatMap escape ++ ['"'])

end Lox.Quoted
