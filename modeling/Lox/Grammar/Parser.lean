import Lox.Grammar.Error
set_option autoImplicit false

/-! Parsers read tokens from the front. They fail with one report, or succeed and may have noted
others on the way; what was read and noted before a failure stays. A parser also keeps count of the
levels that are open around it. -/

namespace Lox

structure ParserState where
  /-- The tokens still to be read. The end of input is not one of them. -/
  rest : List Token
  /-- The end of input. -/
  ending : Token
  /-- How many nesting levels are open. -/
  nesting : Nat
  /-- How many function bodies are open. -/
  functionDepth : Nat
  /-- The errors noted so far, in order. -/
  reports : List SyntaxReport

abbrev Parser := EStateM SyntaxReport ParserState

namespace ParserState

/-- Ready to read a sequence of tokens up to its first end of input. A sequence without one ends on
the line of its last token. -/
def ofTokens (tokens : List Token) : ParserState where
  rest := tokens.takeWhile (·.kind != .endOfInput)
  ending :=
    match tokens.find? (·.kind == .endOfInput) with
    | some token => token
    | none => .endOfInput ((tokens.getLast?.map (·.line)).getD 1)
  nesting := 0
  functionDepth := 0
  reports := []

/-- The token to be read next, which is the end of input when none is left. -/
def next (state : ParserState) : Token :=
  state.rest.headD state.ending

end ParserState

namespace Parser

variable {α : Type}

/-- The next token, which stays. -/
def peek : Parser Token :=
  return (← get).next

/-- Whether no token is left. -/
def atEnd : Parser Bool :=
  return (← get).rest.isEmpty

/-- Whether a token is left and its kind is wanted. -/
def nextIs (wanted : TokenKind → Bool) : Parser Bool :=
  return (← get).rest.head?.any (wanted ·.kind)

/-- Reads the next token if its kind is wanted. -/
def accept (wanted : TokenKind → Bool) : Parser (Option Token) := fun state =>
  match state.rest with
  | [] => .ok none state
  | token :: rest =>
    if wanted token.kind then .ok (some token) { state with rest } else .ok none state

/-- Fails at the next token. -/
def failHere (error : SyntaxError) : Parser α := do
  throw ⟨← peek, error⟩

/-- Reads a token of the given kind; any other is an error. -/
def expect (kind : TokenKind) (item : Expected) : Parser Token := do
  match ← accept (· == kind) with
  | some token => return token
  | none => failHere (.missing item)

/-- Notes an error and goes on. -/
def note (report : SyntaxReport) : Parser Unit :=
  modify fun state => { state with reports := state.reports ++ [report] }

/-- Notes an error at the next token and goes on. -/
def noteHere (error : SyntaxError) : Parser Unit := do
  note ⟨← peek, error⟩

/-- Runs a parser between two changes of state. The second one takes place also after a failure. -/
@[inline] def between (enter leave : ParserState → ParserState) (rule : Parser α) : Parser α :=
  fun state =>
    match rule (enter state) with
    | .ok result after => .ok result (leave after)
    | .error report after => .error report (leave after)

/-- Runs a rule one nesting level deeper, if the limit allows it. -/
def nested (limit : Nat) (rule : Parser α) : Parser α := do
  if limit ≤ (← get).nesting then failHere .tooMuchNesting
  else
    between (fun state => { state with nesting := state.nesting + 1 })
      (fun state => { state with nesting := state.nesting - 1 }) rule

/-- Runs a rule inside one function body more. -/
def insideFunction (rule : Parser α) : Parser α :=
  between (fun state => { state with functionDepth := state.functionDepth + 1 })
    (fun state => { state with functionDepth := state.functionDepth - 1 }) rule

/-- Repeats a step from a starting value until it has no more to give, for at most as many rounds as
a list is long. -/
def repeatFor (step : α → Parser (Option α)) : List Token → α → Parser α
  | [], value => pure value
  | _ :: rounds, value => do
    match ← step value with
    | none => return value
    | some value => repeatFor step rounds value

/-- Repeats a step until it has no more to give. A step that gives something reads a token, so the
tokens that are left at the start bound the rounds. -/
def repeating (step : α → Parser (Option α)) (start : α) : Parser α := do
  repeatFor step (← get).rest start

/-- The items that a parser gives until it has no more. -/
def many (item : Parser (Option α)) : Parser (List α) := do
  let found ← repeating (fun found => return (← item).map (· :: found)) []
  return found.reverse

end Parser

end Lox
