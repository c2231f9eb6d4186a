import Lox.Number.Style
import Lox.Text.Quoted
set_option autoImplicit false

/-! The words of a program: their kinds, the values that literals stand for, and the texts of
both. -/

namespace Lox

inductive TokenKind where
  | leftParen
  | rightParen
  | leftBrace
  | rightBrace
  | comma
  | dot
  | minus
  | plus
  | semicolon
  | slash
  | star
  | question
  | colon
  | bang
  | bangEqual
  | equal
  | equalEqual
  | greater
  | greaterEqual
  | less
  | lessEqual
  | identifier
  | string
  | number
  | andWord
  | classWord
  | elseWord
  | falseWord
  | funWord
  | forWord
  | ifWord
  | nilWord
  | orWord
  | printWord
  | returnWord
  | superWord
  | thisWord
  | trueWord
  | varWord
  | whileWord
  | endOfInput
  deriving DecidableEq, Repr

namespace TokenKind

/-- The name under which token listings show a kind. -/
def name : TokenKind → String
  | leftParen => "LEFT_PAREN"
  | rightParen => "RIGHT_PAREN"
  | leftBrace => "LEFT_BRACE"
  | rightBrace => "RIGHT_BRACE"
  | comma => "COMMA"
  | dot => "DOT"
  | minus => "MINUS"
  | plus => "PLUS"
  | semicolon => "SEMICOLON"
  | slash => "SLASH"
  | star => "STAR"
  | question => "QUESTION"
  | colon => "COLON"
  | bang => "BANG"
  | bangEqual => "BANG_EQUAL"
  | equal => "EQUAL"
  | equalEqual => "EQUAL_EQUAL"
  | greater => "GREATER"
  | greaterEqual => "GREATER_EQUAL"
  | less => "LESS"
  | lessEqual => "LESS_EQUAL"
  | identifier => "IDENTIFIER"
  | string => "STRING"
  | number => "NUMBER"
  | andWord => "AND"
  | classWord => "CLASS"
  | elseWord => "ELSE"
  | falseWord => "FALSE"
  | funWord => "FUN"
  | forWord => "FOR"
  | ifWord => "IF"
  | nilWord => "NIL"
  | orWord => "OR"
  | printWord => "PRINT"
  | returnWord => "RETURN"
  | superWord => "SUPER"
  | thisWord => "THIS"
  | trueWord => "TRUE"
  | varWord => "VAR"
  | whileWord => "WHILE"
  | endOfInput => "EOF"

/-- Every kind, so that a name can be looked up. -/
def all : List TokenKind :=
  [leftParen, rightParen, leftBrace, rightBrace, comma, dot, minus, plus, semicolon, slash, star,
    question, colon, bang, bangEqual, equal, equalEqual, greater, greaterEqual, less, lessEqual,
    identifier, string, number, andWord, classWord, elseWord, falseWord, funWord, forWord, ifWord,
    nilWord, orWord, printWord, returnWord, superWord, thisWord, trueWord, varWord, whileWord,
    endOfInput]

def ofName? (name : String) : Option TokenKind :=
  all.find? (·.name == name)

theorem mem_all (kind : TokenKind) : kind ∈ all := by
  cases kind <;> decide

theorem ofName?_name (kind : TokenKind) : ofName? kind.name = some kind := by
  cases kind <;> decide +kernel

/-- The kind of a word; every word that is no keyword is an identifier. -/
def ofWord (word : String) : TokenKind :=
  match word with
  | "and" => andWord
  | "class" => classWord
  | "else" => elseWord
  | "false" => falseWord
  | "for" => forWord
  | "fun" => funWord
  | "if" => ifWord
  | "nil" => nilWord
  | "or" => orWord
  | "print" => printWord
  | "return" => returnWord
  | "super" => superWord
  | "this" => thisWord
  | "true" => trueWord
  | "var" => varWord
  | "while" => whileWord
  | _ => identifier

end TokenKind

/-- A value that can be written down. -/
inductive Literal where
  | nil
  | bool (truth : Bool)
  | number (number : Float)
  | string (text : String)

namespace Literal

/-- The text a program prints for the value. -/
def text : Literal → String
  | nil => "nil"
  | bool truth => if truth then "true" else "false"
  | number value => Number.text value
  | string text => text

/-- The text a token listing shows: the value under the name of its type. -/
def shown : Literal → String
  | nil => "NIL"
  | bool truth => "BOOL(" ++ (if truth then "true" else "false") ++ ")"
  | number value => "NUMBER(" ++ Number.write .shown value.toBits ++ ")"
  | string text => "STRING(" ++ Quoted.encode text ++ ")"

end Literal

/-- A token keeps its own characters and the line on which they end. Only numbers and strings have
a literal other than `nil`. -/
structure Token where
  kind : TokenKind
  lexeme : String
  literal : Literal
  line : Nat

namespace Token

/-- The token behind the last one. -/
def endOfInput (line : Nat) : Token :=
  ⟨.endOfInput, "", .nil, line⟩

def shown (token : Token) : String :=
  "[Token] type: " ++ token.kind.name ++ ", lexeme: " ++ token.lexeme ++ ", literal: "
    ++ token.literal.shown ++ ", line: " ++ toString token.line

end Token

end Lox
