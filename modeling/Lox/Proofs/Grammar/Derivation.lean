import Lox.Proofs.Grammar.Canonical
set_option autoImplicit false

/-! The grammar without its side conditions: anything may stand left of an equals sign, items may be
as many as one likes, and a `return` may stand anywhere. What is wrong with such a derivation is told
by its course, and so is how many levels are open around each token. The else branch of a conditional
goes on as far as it can, and an `else` belongs to the nearest `if`. -/

namespace Lox

/-- A token of a derivation and how many levels are open around it. -/
structure Spot where
  token : Token
  depth : Nat

/-- The tokens of a derivation and, in the order of the parse, all that is wrong with it. -/
structure Course where
  spots : List Spot
  reports : List SyntaxReport

namespace Course

/-- Nothing is read. -/
def nothing : Course := ⟨[], []⟩

def token (token : Token) : Course := ⟨[⟨token, 0⟩], []⟩

def report (report : SyntaxReport) : Course := ⟨[], [report]⟩

instance : Append Course where
  append first second := ⟨first.spots ++ second.spots, first.reports ++ second.reports⟩

def all (courses : List Course) : Course :=
  courses.foldr (· ++ ·) nothing

/-- The same, one level deeper. -/
def deeper (course : Course) : Course :=
  { course with spots := course.spots.map fun spot => { spot with depth := spot.depth + 1 } }

def tokens (course : Course) : List Token :=
  course.spots.map (·.token)

/-- How many levels are needed. -/
def levels (course : Course) : Nat :=
  (course.spots.map (·.depth)).foldr max 0

/-- The first token at which more than so many levels are open. -/
def beyond? (room : Nat) (course : Course) : Option Token :=
  (course.spots.find? (room < ·.depth)).map (·.token)

/-- An item is reported at its first token if as many as are allowed stand in front of it. -/
def numbered (excess : SyntaxError) (before : Nat) (item : Course) : Course :=
  match item.tokens with
  | [] => item
  | first :: _ => if Grammar.maxItems ≤ before then report ⟨first, excess⟩ ++ item else item

/-- Items behind commas, and how many there are in front of them. -/
inductive Further (excess : SyntaxError) : (before : Nat) → List Course → Course → Prop
  | none (before : Nat) : Further excess before [] nothing
  | more {before : Nat} {items : List Course} {course : Course} (item : Course) {comma : Token}
      (divides : comma.kind = .comma) (others : Further excess (before + 1) items course) :
      Further excess before (item :: items)
        (token comma ++ item.numbered excess before ++ course)

/-- Items divided by commas. -/
inductive Listed (excess : SyntaxError) : List Course → Course → Prop
  | none : Listed excess [] nothing
  | some {items : List Course} {course : Course} (first : Course)
      (others : Further excess 1 items course) : Listed excess (first :: items) (first ++ course)

end Course

/-- A derivation of a value. -/
structure Reading (α : Type) where
  course : Course
  value : α
  /-- Whether it ends in something that goes on as far as it can: a branch of a conditional or the
  right side of an assignment, or an `if` without an `else`. -/
  trails : Bool

/-- The same, one level deeper. -/
def Reading.deeper {α : Type} (reading : Reading α) : Reading α :=
  { reading with course := reading.course.deeper }

/-! ### Expressions -/

/-- The levels of the binary and the logical operators, which group to the left. -/
def chainLevels : List Nat := [1, 2, 4, 5, 6, 7]

theorem mem_chainLevels {level : Nat} :
    level ∈ chainLevels ↔ 1 ≤ level ∧ level ≤ 7 ∧ level ≠ 3 := by
  simp only [chainLevels, List.mem_cons, List.not_mem_nil, or_false]
  omega

namespace Expr

/-- What an operator of such a level makes of its operands. -/
def chained (level : Nat) : Expr → Token → Expr → Expr :=
  if level ≤ 2 then logical else binary

/-- Nothing is assigned to what is not a bare name. -/
def assigned : (target value : Expr) → Expr
  | «variable» name, value => assign name value
  | target, _ => target

/-- What is wrong with an assignment to the target, which is told at the equals sign. -/
def misplaced (equals : Token) : Expr → Course
  | «variable» _ => .nothing
  | _ => .report ⟨equals, .invalidAssignmentTarget⟩

end Expr

/-- The derivations of expressions, by levels of precedence. A level of nesting opens in parentheses,
for each argument, for both branches of a conditional, right of an equals sign, and for the operand
of a unary operator. -/
inductive DerivesExpression : (level : Nat) → Reading Expr → Prop
  | word {word : Token} {value : Literal} (named : value.word? = some word.kind) :
      DerivesExpression 10 ⟨.token word, .literal value, false⟩
  | literal {token : Token} (isLiteral : Grammar.isLiteral token.kind = true) :
      DerivesExpression 10 ⟨.token token, .literal token.literal, false⟩
  | variable {name : Token} (named : name.kind = .identifier) :
      DerivesExpression 10 ⟨.token name, .variable name, false⟩
  | grouping {opening closing : Token} {inner : Reading Expr} (opens : opening.kind = .leftParen)
      (derives : DerivesExpression 0 inner) (closes : closing.kind = .rightParen) :
      DerivesExpression 10
        ⟨.token opening ++ (inner.course.deeper ++ .token closing), .grouping inner.value, false⟩
  | call {callee : Reading Expr} {opening closing : Token} {arguments : List (Reading Expr)}
      {between : Course} (calls : DerivesExpression 9 callee) (opens : opening.kind = .leftParen)
      (given : ∀ argument ∈ arguments, DerivesExpression 0 argument)
      (listed : Course.Listed .tooManyArguments (arguments.map (·.course.deeper)) between)
      (closes : closing.kind = .rightParen) :
      DerivesExpression 9
        ⟨callee.course ++ (.token opening ++ (between ++ .token closing)),
          .call callee.value closing (arguments.map (·.value)), false⟩
  | unary {operator : Token} {operand : Reading Expr}
      (operates : Grammar.isUnary operator.kind = true) (derives : DerivesExpression 8 operand) :
      DerivesExpression 8
        ⟨.token operator ++ operand.course.deeper, .unary operator operand.value, operand.trails⟩
  | chain {level : Nat} {left right : Reading Expr} {operator : Token}
      (chains : level ∈ chainLevels) (operates : operator.kind.grip? = some level)
      (first : DerivesExpression level left) (closed : left.trails = false)
      (second : DerivesExpression (level + 1) right) :
      DerivesExpression level
        ⟨left.course ++ (.token operator ++ right.course),
          .chained level left.value operator right.value, right.trails⟩
  | conditional {condition thenBranch elseBranch : Reading Expr} {question colon : Token}
      (decides : DerivesExpression 4 condition) (asks : question.kind = .question)
      (first : DerivesExpression 0 thenBranch) (divides : colon.kind = .colon)
      (second : DerivesExpression 0 elseBranch) :
      DerivesExpression 3
        ⟨condition.course ++ (.token question ++ (thenBranch.course.deeper ++
            (.token colon ++ elseBranch.course.deeper))),
          .conditional condition.value question thenBranch.value elseBranch.value, true⟩
  | assign {target value : Reading Expr} {equals : Token} (targets : DerivesExpression 1 target)
      (closed : target.trails = false) (assigns : equals.kind = .equal)
      (derives : DerivesExpression 0 value) :
      DerivesExpression 0
        ⟨target.course ++ (.token equals ++ (value.course.deeper ++
            target.value.misplaced equals)), target.value.assigned value.value, true⟩
  | tighter {level : Nat} {reading : Reading Expr} (loose : level < 10)
      (derives : DerivesExpression (level + 1) reading) : DerivesExpression level reading

/-- What derives at a level derives at every looser one. -/
theorem DerivesExpression.loosen {level tight : Nat} {reading : Reading Expr}
    (derives : DerivesExpression tight reading) (loose : level ≤ tight) (highest : tight ≤ 10) :
    DerivesExpression level reading := by
  obtain ⟨gap, rfl⟩ := Nat.exists_eq_add_of_le loose
  induction gap with
  | zero => exact derives
  | succ gap ih =>
      exact ih (.tighter (by omega) derives) (Nat.le_add_right level gap) (by omega)

/-- Expressions divided by commas, of which the last one counts. -/
inductive DerivesSequence : Reading Expr → Prop
  | single {reading : Reading Expr} (derives : DerivesExpression 0 reading) :
      DerivesSequence reading.deeper
  | more {front last : Reading Expr} {comma : Token} (others : DerivesSequence front)
      (divides : comma.kind = .comma) (derives : DerivesExpression 0 last) :
      DerivesSequence
        ⟨front.course ++ (.token comma ++ last.course.deeper), last.value, last.trails⟩

/-! ### Statements -/

/-- What is wrong with a `return` inside so many function bodies, which is told at the word. -/
def Course.stray (keyword : Token) : (functions : Nat) → Course
  | 0 => report ⟨keyword, .returnOutsideFunction⟩
  | _ + 1 => nothing

/-- An expression that may be missing opens a level where it is not. -/
inductive DerivesOptional : Reading (Option Expr) → Prop
  | none : DerivesOptional ⟨.nothing, none, false⟩
  | some {reading : Reading Expr} (derives : DerivesExpression 0 reading) :
      DerivesOptional ⟨reading.course.deeper, some reading.value, false⟩

/-- The value of a variable stands behind an equals sign. -/
inductive DerivesInitialValue : Reading (Option Expr) → Prop
  | none : DerivesInitialValue ⟨.nothing, none, false⟩
  | some {equals : Token} {reading : Reading Expr} (assigns : equals.kind = .equal)
      (derives : DerivesExpression 0 reading) :
      DerivesInitialValue ⟨.token equals ++ reading.course.deeper, some reading.value, false⟩

inductive DerivesVariable : Reading Stmt → Prop
  | variable {word name semicolon : Token} {initializer : Reading (Option Expr)}
      (declares : word.kind = .varWord) (named : name.kind = .identifier)
      (derives : DerivesInitialValue initializer) (ends : semicolon.kind = .semicolon) :
      DerivesVariable
        ⟨.token word ++ (.token name ++ (initializer.course ++ .token semicolon)),
          .variable name initializer.value, false⟩

inductive DerivesPlain : Reading Stmt → Prop
  | expression {value : Reading Expr} {semicolon : Token} (derives : DerivesExpression 0 value)
      (ends : semicolon.kind = .semicolon) :
      DerivesPlain ⟨value.course.deeper ++ .token semicolon, .expression value.value, false⟩

/-- The first clause of a `for` loop, with its semicolon. -/
inductive DerivesInitializer : Reading (Option Stmt) → Prop
  | none {semicolon : Token} (ends : semicolon.kind = .semicolon) :
      DerivesInitializer ⟨.token semicolon, none, false⟩
  | variable {clause : Reading Stmt} (derives : DerivesVariable clause) :
      DerivesInitializer ⟨clause.course, some clause.value, false⟩
  | expression {clause : Reading Stmt} (derives : DerivesPlain clause) :
      DerivesInitializer ⟨clause.course, some clause.value, false⟩

inductive Rank where
  | declaration
  | statement

/-- The declarations one after the other, each of which opens a level. -/
def Course.declarations (items : List (Reading Stmt)) : Course :=
  all (items.map (·.course.deeper))

/-- The derivations of statements inside some number of function bodies. Each statement opens a level,
also where it fills a declaration. -/
inductive DerivesStatement : (functions : Nat) → Rank → Reading Stmt → Prop
  | expression {functions : Nat} {reading : Reading Stmt} (derives : DerivesPlain reading) :
      DerivesStatement functions .statement reading
  | print {functions : Nat} {word semicolon : Token} {value : Reading Expr}
      (prints : word.kind = .printWord) (derives : DerivesExpression 0 value)
      (ends : semicolon.kind = .semicolon) :
      DerivesStatement functions .statement
        ⟨.token word ++ (value.course.deeper ++ .token semicolon), .print value.value, false⟩
  | returning {functions : Nat} {keyword semicolon : Token} {value : Reading (Option Expr)}
      (returns : keyword.kind = .returnWord) (derives : DerivesOptional value)
      (ends : semicolon.kind = .semicolon) :
      DerivesStatement functions .statement
        ⟨.token keyword ++ (.stray keyword functions ++ (value.course ++ .token semicolon)),
          .returning keyword value.value, false⟩
  | block {functions : Nat} {opening closing : Token} {items : List (Reading Stmt)}
      (opens : opening.kind = .leftBrace)
      (given : ∀ item ∈ items, DerivesStatement functions .declaration item)
      (closes : closing.kind = .rightBrace) :
      DerivesStatement functions .statement
        ⟨.token opening ++ (.declarations items ++ .token closing),
          .block (items.map (·.value)), false⟩
  | branch {functions : Nat} {word opening closing : Token} {condition : Reading Expr}
      {thenBranch : Reading Stmt} (decides : word.kind = .ifWord)
      (opens : opening.kind = .leftParen) (derives : DerivesExpression 0 condition)
      (closes : closing.kind = .rightParen)
      (first : DerivesStatement functions .statement thenBranch) :
      DerivesStatement functions .statement
        ⟨.token word ++ (.token opening ++ (condition.course.deeper ++ (.token closing ++
            thenBranch.course.deeper))), .branch condition.value thenBranch.value none, true⟩
  | choice {functions : Nat} {word opening closing otherwise : Token} {condition : Reading Expr}
      {thenBranch elseBranch : Reading Stmt} (decides : word.kind = .ifWord)
      (opens : opening.kind = .leftParen) (derives : DerivesExpression 0 condition)
      (closes : closing.kind = .rightParen)
      (first : DerivesStatement functions .statement thenBranch)
      (closed : thenBranch.trails = false) (divides : otherwise.kind = .elseWord)
      (second : DerivesStatement functions .statement elseBranch) :
      DerivesStatement functions .statement
        ⟨.token word ++ (.token opening ++ (condition.course.deeper ++ (.token closing ++
            (thenBranch.course.deeper ++ (.token otherwise ++ elseBranch.course.deeper))))),
          .branch condition.value thenBranch.value (some elseBranch.value), elseBranch.trails⟩
  | loop {functions : Nat} {word opening closing : Token} {condition : Reading Expr}
      {body : Reading Stmt} (repeats : word.kind = .whileWord) (opens : opening.kind = .leftParen)
      (derives : DerivesExpression 0 condition) (closes : closing.kind = .rightParen)
      (first : DerivesStatement functions .statement body) :
      DerivesStatement functions .statement
        ⟨.token word ++ (.token opening ++ (condition.course.deeper ++ (.token closing ++
            body.course.deeper))), .loop condition.value body.value, body.trails⟩
  | forLoop {functions : Nat} {word opening semicolon closing : Token}
      {initializer : Reading (Option Stmt)} {condition increment : Reading (Option Expr)}
      {body : Reading Stmt} (repeats : word.kind = .forWord) (opens : opening.kind = .leftParen)
      (begins : DerivesInitializer initializer) (decides : DerivesOptional condition)
      (divides : semicolon.kind = .semicolon) (advances : DerivesOptional increment)
      (closes : closing.kind = .rightParen)
      (first : DerivesStatement functions .statement body) :
      DerivesStatement functions .statement
        ⟨.token word ++ (.token opening ++ (initializer.course ++ (condition.course ++
            (.token semicolon ++ (increment.course ++ (.token closing ++
              body.course.deeper)))))),
          .forLoop initializer.value condition.value increment.value body.value, body.trails⟩
  | function {functions : Nat} {word name opening closing brace ending : Token}
      {parameters : List Token} {between : Course} {items : List (Reading Stmt)}
      (declares : word.kind = .funWord) (named : name.kind = .identifier)
      (opens : opening.kind = .leftParen)
      (takes : ∀ parameter ∈ parameters, parameter.kind = .identifier)
      (listed : Course.Listed .tooManyParameters (parameters.map .token) between)
      (closes : closing.kind = .rightParen) (begins : brace.kind = .leftBrace)
      (given : ∀ item ∈ items, DerivesStatement (functions + 1) .declaration item)
      (ends : ending.kind = .rightBrace) :
      DerivesStatement functions .declaration
        ⟨.token word ++ (.token name ++ (.token opening ++ (between ++ (.token closing ++
            (.token brace ++ (.declarations items ++ .token ending)))))),
          .function 0 name parameters (items.map (·.value)), false⟩
  | variable {functions : Nat} {reading : Reading Stmt} (derives : DerivesVariable reading) :
      DerivesStatement functions .declaration reading
  | stated {functions : Nat} {reading : Reading Stmt}
      (derives : DerivesStatement functions .statement reading) :
      DerivesStatement functions .declaration reading.deeper

inductive DerivesProgram : Reading (List Stmt) → Prop
  | program {items : List (Reading Stmt)}
      (given : ∀ item ∈ items, DerivesStatement 0 .declaration item) :
      DerivesProgram ⟨.declarations items, items.map (·.value), false⟩

end Lox
