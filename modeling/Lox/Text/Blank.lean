set_option autoImplicit false

/-! White space in the wide sense: every character with that Unicode property. -/

namespace Lox

def isBlank (character : Char) : Bool :=
  let code := character.toNat
  (0x09 ≤ code && code ≤ 0x0d) || code == 0x20 || code == 0x85 || code == 0xa0 || code == 0x1680
    || (0x2000 ≤ code && code ≤ 0x200a) || code == 0x2028 || code == 0x2029 || code == 0x202f
    || code == 0x205f || code == 0x3000

/-- The last character that is not blank, which is where a text ends once its trailing blanks are
taken off. -/
def lastVisible? (text : List Char) : Option Char :=
  (text.filter (!isBlank ·)).getLast?

end Lox
