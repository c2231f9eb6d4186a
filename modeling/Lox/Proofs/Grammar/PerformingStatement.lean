import Lox.Proofs.Grammar.PerformingExpression
set_option autoImplicit false

/-! The rules of statements go through the courses of derivations. Behind a statement stands anything
but an `else` that it would take. -/

namespace Lox

open Lox.Parser Lox.Grammar

/-! ### What derivations start with -/

/-- What a statement starts with. -/
def startsStatement (kind : TokenKind) : Bool :=
  startsExpression kind || kind == .forWord || kind == .ifWord || kind == .printWord
    || kind == .returnWord || kind == .whileWord || kind == .leftBrace

def startsRank : Rank → TokenKind → Bool
  | .statement, kind => startsStatement kind
  | .declaration, kind => startsStatement kind || kind == .funWord || kind == .varWord

theorem begins_mono {wanted other : TokenKind → Bool} {tokens : List Token}
    (weaker : ∀ kind, wanted kind = true → other kind = true)
    (starts : begins wanted tokens = true) : begins other tokens = true := by
  cases tokens with
  | nil => cases starts
  | cons token tokens => exact weaker token.kind starts

theorem begins_first {wanted : TokenKind → Bool} {first : Token} {behind : Course}
    (isWanted : wanted first.kind = true) :
    begins wanted (Course.token first ++ behind).tokens = true :=
  isWanted

theorem DerivesPlain.starts {reading : Reading Stmt} (derives : DerivesPlain reading) :
    begins startsExpression reading.course.tokens = true := by
  cases derives with
  | expression derives ends =>
      rw [Course.tokens_append, Course.tokens_deeper]
      exact begins_front derives.starts _

theorem DerivesStatement.starts {functions : Nat} {rank : Rank} {reading : Reading Stmt}
    (derives : DerivesStatement functions rank reading) :
    begins (startsRank rank) reading.course.tokens = true := by
  induction derives with
  | expression derives =>
      refine begins_mono ?_ derives.starts
      intro kind starts
      simp [startsRank, startsStatement, starts]
  | print word | returning word | block word | branch word | choice word | loop word
  | forLoop word | function word =>
      refine begins_first ?_
      rw [word]
      rfl
  | «variable» derives =>
      cases derives with
      | «variable» word =>
          refine begins_first ?_
          rw [word]
          rfl
  | stated derives ih =>
      change begins _ (Course.deeper _).tokens = true
      rw [Course.tokens_deeper]
      refine begins_mono ?_ ih
      intro kind starts
      change (startsStatement kind || _ || _) = true
      rw [show startsStatement kind = true from starts]
      rfl

theorem DerivesStatement.tokens_ne_nil {functions : Nat} {rank : Rank} {reading : Reading Stmt}
    (derives : DerivesStatement functions rank reading) : reading.course.tokens ≠ [] :=
  ne_nil_of_begins derives.starts

/-! ### Clauses -/

section

variable {limit room functions : Nat} {rest : List Token}

theorem DerivesExpression.inner {reading : Reading Expr} (derives : DerivesExpression 0 reading)
    (free : nextGrip? rest = none) :
    Performs limit room functions (rules limit room).expression reading.course.deeper reading.value
      rest :=
  (derives.performed limit functions).inner derives.tokens_ne_nil free room

theorem optional_performs {reading : Reading (Option Expr)} (derives : DerivesOptional reading)
    {kind : TokenKind} (free : kind.grip? = none) (apart : startsExpression kind = false)
    (closes : begins (· == kind) rest = true) :
    Performs limit room functions (optionalBefore kind (rules limit room)) reading.course
      reading.value rest := by
  have ends : nextGrip? rest = none := by
    cases rest with
    | nil => rfl
    | cons token rest => exact nextGrip?_token (beq_iff_eq.mp closes) free .nothing rest
  refine Performs.nextIs_bind ?_
  cases derives with
  | none =>
      rw [Course.tokens_nothing, List.nil_append, closes]
      exact .pure none rest
  | some derives =>
      rw [Course.tokens_deeper, begins_append_of_ne rest (begins_ne apart derives.starts)]
      exact (derives.inner ends).map

/-- A declared name, up to the semicolon. The word in front of it has been read. -/
theorem variable_performs {reading : Reading Stmt} (derives : DerivesVariable reading) :
    ∃ word behind, reading.course = .token word ++ behind ∧ word.kind = .varWord ∧
      Performs limit room functions (variableDeclaration (rules limit room)) behind reading.value
        rest := by
  cases derives with
  | @«variable» word name semicolon initializer declares named derives ends =>
      refine ⟨word, _, rfl, declares, Performs.expect_bind named ?_⟩
      cases derives with
      | none =>
          exact Performs.skip_bind (by simp [ends]) (Performs.closing ends (.pure _ rest))
      | some assigns derives =>
          rw [Course.append_assoc]
          refine Performs.accept_bind (by simp [assigns]) ?_
          refine ((derives.inner ?_).fmap some).bind (Performs.closing ends (.pure _ rest))
          exact nextGrip?_token ends rfl .nothing rest

theorem plain_performs {reading : Reading Stmt} (derives : DerivesPlain reading) :
    Performs limit room functions (expressionStatement (rules limit room)) reading.course
      reading.value rest := by
  cases derives with
  | expression derives ends =>
      refine (derives.inner ?_).bind (Performs.closing ends (.pure _ rest))
      exact nextGrip?_token ends rfl .nothing rest

theorem initializer_performs {reading : Reading (Option Stmt)}
    (derives : DerivesInitializer reading) :
    Performs limit room functions (forInitializer (rules limit room)) reading.course reading.value
      rest := by
  cases derives with
  | none ends => exact Performs.accepted (by simp [ends]) (.pure none rest)
  | «variable» derives =>
      obtain ⟨word, behind, same, declares, performs⟩ := variable_performs derives
      rw [same]
      refine Performs.skip_bind (by simp [declares]) ?_
      exact Performs.accept_bind (by simp [declares]) performs.map
  | expression derives =>
      have apart : ∀ kind, startsExpression kind = false →
          begins (· == kind) (_ ++ rest) = false := fun kind other =>
        begins_append_of_ne rest (begins_ne other derives.starts)
      refine Performs.skip_bind (apart .semicolon rfl) ?_
      exact Performs.skip_bind (apart .varWord rfl) (plain_performs derives).map

end

/-! ### Statements -/

/-- Behind a statement stands no `else` that it would take. -/
def Reading.ElseFree (reading : Reading Stmt) (rest : List Token) : Prop :=
  reading.trails = true → begins (· == .elseWord) rest = false

def Grammar.ruleOf : Rank → Inner → Parser Stmt
  | .declaration => declaration
  | .statement => statement

/-- The rule of a rank goes through the course of a reading. -/
def Reached (limit functions : Nat) (rank : Rank) (reading : Reading Stmt) : Prop :=
  ∀ room rest, reading.ElseFree rest →
    Performs limit room functions (ruleOf rank (rules limit room)) reading.course reading.value rest

section

variable {limit room functions : Nat} {rest : List Token} {reading : Reading Stmt}

theorem Reached.statement (reached : Reached limit functions .statement reading)
    (some : reading.course.tokens ≠ []) (free : reading.ElseFree rest) (room : Nat) :
    Performs limit room functions (rules limit room).statement reading.course.deeper reading.value
      rest :=
  Performs.deeper (fun room => (rules limit room).statement)
    (fun room => Grammar.statement (rules limit room)) rfl (fun _ => rfl)
    (fun room => reached room rest free) some room

theorem Reached.declaration (reached : Reached limit functions .declaration reading)
    (some : reading.course.tokens ≠ []) (free : reading.ElseFree rest) (room : Nat) :
    Performs limit room functions (rules limit room).declaration reading.course.deeper
      reading.value rest :=
  Performs.deeper (fun room => (rules limit room).declaration)
    (fun room => Grammar.declaration (rules limit room)) rfl (fun _ => rfl)
    (fun room => reached room rest free) some room

/-- Words that no declaration starts with. -/
theorem declaration_apart {kind : TokenKind} (apart : startsRank .declaration kind = false)
    (derives : DerivesStatement functions .declaration reading) :
    begins (· != kind) reading.course.tokens = true :=
  begins_ne apart derives.starts

theorem block_performs {items : List (Reading Stmt)} {closing : Token}
    (given : ∀ item ∈ items, DerivesStatement functions .declaration item)
    (each : ∀ item ∈ items, Reached limit functions .declaration item)
    (closes : closing.kind = .rightBrace) :
    Performs limit room functions (block (rules limit room))
      (.declarations items ++ .token closing) (items.map (·.value)) rest := by
  have courses : (items.map Reading.deeper).map (·.course) = items.map (·.course.deeper) := by
    rw [List.map_map]
    rfl
  have values : (items.map Reading.deeper).map (·.value) = items.map (·.value) := by
    rw [List.map_map]
    rfl
  unfold Course.declarations
  rw [← courses, ← values]
  have found : Performs limit room functions
      (Parser.many do
        if ← nextIs (· != .rightBrace) then some <$> (rules limit room).declaration
        else return none)
      (.all ((items.map Reading.deeper).map (·.course))) ((items.map Reading.deeper).map (·.value))
      (closing :: rest) := by
    refine Performs.many (begins (· == .elseWord) · = false) (by simp [closes]) ?_ ?_
    · refine Performs.nextIs_bind ?_
      have last : begins (· != .rightBrace) (Course.nothing.tokens ++ closing :: rest) = false := by
        simp [closes]
      rw [last]
      exact .pure none _
    · intro item member rest free
      obtain ⟨inside, here, rfl⟩ := List.mem_map.mp member
      have derives := given inside here
      have tokens : inside.deeper.course.tokens = inside.course.tokens := Course.tokens_deeper
      have more : begins (· != .rightBrace) (inside.deeper.course.tokens ++ rest) = true := by
        rw [tokens]
        exact begins_front (declaration_apart rfl derives) rest
      refine ⟨Performs.nextIs_bind ?_, ?_, ?_⟩
      · rw [more]
        exact ((each inside here).declaration derives.tokens_ne_nil (fun _ => free) room).fmap some
      · rw [tokens]
        exact derives.tokens_ne_nil
      · rw [tokens]
        exact begins_append_of_ne rest (declaration_apart rfl derives)
  exact found.bind (Performs.closing closes (.pure _ rest))

/-- The parameters of a function and the parenthesis behind them. -/
theorem parameters_performs {parameters : List Token} {between : Course}
    (takes : ∀ parameter ∈ parameters, parameter.kind = .identifier)
    (listed : Course.Listed .tooManyParameters (parameters.map .token) between)
    (closes : begins (· == .rightParen) rest = true) :
    Performs limit room functions Grammar.parameters between parameters rest := by
  let readings : List (Reading Token) := parameters.map fun name => ⟨.token name, name, false⟩
  have itemized : ∀ item ∈ readings,
      Itemized limit room functions (expect .identifier .parameterName) item := by
    intro item member
    obtain ⟨name, given, rfl⟩ := List.mem_map.mp member
    have named := takes name given
    constructor
    · simp [named]
    · intro rest _ends
      have read : Performs limit room functions (expect .identifier .parameterName >>= pure)
          (.token name) name rest := Performs.closing named (.pure name rest)
      rw [bind_pure] at read
      exact read
  have courses : readings.map (·.course) = parameters.map .token := by
    rw [List.map_map]
    rfl
  have values : readings.map (·.value) = parameters := by
    rw [List.map_map]
    exact List.map_id parameters
  rw [← courses] at listed
  have performs := listed_performs itemized closes listed
  rw [values] at performs
  exact performs

theorem return_performs {keyword semicolon : Token} {value : Reading (Option Expr)}
    (derives : DerivesOptional value) (ends : semicolon.kind = .semicolon) :
    Performs limit room functions (returnStatement keyword (rules limit room))
      (.stray keyword functions ++ (value.course ++ .token semicolon))
      (.returning keyword value.value) rest := by
  have given : Performs limit room functions
      (do
        let value ← optionalBefore .semicolon (rules limit room)
        let _ ← expect .semicolon .returnEnd
        return Stmt.returning keyword value)
      (value.course ++ .token semicolon) (.returning keyword value.value) rest :=
    (optional_performs derives rfl rfl (by simp [ends])).bind (Performs.closing ends (.pure _ rest))
  cases functions with
  | zero =>
      refine Performs.get_bind (fun state outside => if_pos outside) ?_
      exact Performs.note_bind given
  | succ functions =>
      refine Performs.get_bind (fun state inside => if_neg ?_) given
      omega

end

section

variable {limit functions : Nat}

theorem plain_reached {reading : Reading Stmt} (derives : DerivesPlain reading) :
    Reached limit functions .statement reading := by
  intro room rest _free
  have apart : ∀ kind, startsExpression kind = false →
      begins (· == kind) (reading.course.tokens ++ rest) = false := fun kind other =>
    begins_append_of_ne rest (begins_ne other derives.starts)
  refine Performs.skip_bind (apart .forWord rfl) ?_
  refine Performs.skip_bind (apart .ifWord rfl) ?_
  refine Performs.skip_bind (apart .printWord rfl) ?_
  refine Performs.skip_bind (apart .returnWord rfl) ?_
  refine Performs.skip_bind (apart .whileWord rfl) ?_
  exact Performs.skip_bind (apart .leftBrace rfl) (plain_performs derives)

theorem print_reached {word semicolon : Token} {value : Reading Expr}
    (prints : word.kind = .printWord) (derives : DerivesExpression 0 value)
    (ends : semicolon.kind = .semicolon) :
    Reached limit functions .statement
      ⟨.token word ++ (value.course.deeper ++ .token semicolon), .print value.value, false⟩ := by
  intro room rest _free
  refine Performs.skip_bind (by simp [prints]) ?_
  refine Performs.skip_bind (by simp [prints]) ?_
  refine Performs.accept_bind (by simp [prints]) ?_
  refine (derives.inner ?_).bind (Performs.closing ends (.pure _ rest))
  exact nextGrip?_token ends rfl .nothing rest

theorem return_reached {keyword semicolon : Token} {value : Reading (Option Expr)}
    (returns : keyword.kind = .returnWord) (derives : DerivesOptional value)
    (ends : semicolon.kind = .semicolon) :
    Reached limit functions .statement
      ⟨.token keyword ++ (.stray keyword functions ++ (value.course ++ .token semicolon)),
        .returning keyword value.value, false⟩ := by
  intro room rest _free
  refine Performs.skip_bind (by simp [returns]) ?_
  refine Performs.skip_bind (by simp [returns]) ?_
  refine Performs.skip_bind (by simp [returns]) ?_
  exact Performs.accept_bind (by simp [returns]) (return_performs derives ends)

theorem block_reached {opening closing : Token} {items : List (Reading Stmt)}
    (opens : opening.kind = .leftBrace)
    (given : ∀ item ∈ items, DerivesStatement functions .declaration item)
    (each : ∀ item ∈ items, Reached limit functions .declaration item)
    (closes : closing.kind = .rightBrace) :
    Reached limit functions .statement
      ⟨.token opening ++ (.declarations items ++ .token closing), .block (items.map (·.value)),
        false⟩ := by
  intro room rest _free
  refine Performs.skip_bind (by simp [opens]) ?_
  refine Performs.skip_bind (by simp [opens]) ?_
  refine Performs.skip_bind (by simp [opens]) ?_
  refine Performs.skip_bind (by simp [opens]) ?_
  refine Performs.skip_bind (by simp [opens]) ?_
  exact Performs.accept_bind (by simp [opens]) (block_performs given each closes).map

theorem loop_reached {word opening closing : Token} {condition : Reading Expr}
    {body : Reading Stmt} (repeats : word.kind = .whileWord) (opens : opening.kind = .leftParen)
    (derives : DerivesExpression 0 condition) (closes : closing.kind = .rightParen)
    (nonempty : body.course.tokens ≠ []) (reached : Reached limit functions .statement body) :
    Reached limit functions .statement
      ⟨.token word ++ (.token opening ++ (condition.course.deeper ++ (.token closing ++
          body.course.deeper))), .loop condition.value body.value, body.trails⟩ := by
  intro room rest free
  refine Performs.skip_bind (by simp [repeats]) ?_
  refine Performs.skip_bind (by simp [repeats]) ?_
  refine Performs.skip_bind (by simp [repeats]) ?_
  refine Performs.skip_bind (by simp [repeats]) ?_
  refine Performs.accept_bind (by simp [repeats]) (Performs.expect_bind opens ?_)
  refine (derives.inner (nextGrip?_token closes rfl _ rest)).bind (Performs.expect_bind closes ?_)
  exact (reached.statement nonempty free room).map

/-- An `if` behind its word, with or without an `else`. -/
theorem branch_performs (room : Nat) {rest : List Token} {opening closing : Token}
    {condition : Reading Expr} {thenBranch : Reading Stmt} {elseBranch : Option Stmt}
    (behind : Course) (opens : opening.kind = .leftParen)
    (derives : DerivesExpression 0 condition) (closes : closing.kind = .rightParen)
    (nonempty : thenBranch.course.tokens ≠ [])
    (reached : Reached limit functions .statement thenBranch)
    (free : thenBranch.ElseFree (behind.tokens ++ rest))
    (others : Performs limit room functions
      (do
        match ← accept (· == .elseWord) with
        | none => return Stmt.branch condition.value thenBranch.value none
        | some _ =>
          return .branch condition.value thenBranch.value (some (← (rules limit room).statement)))
      behind (.branch condition.value thenBranch.value elseBranch) rest) :
    Performs limit room functions (ifStatement (rules limit room))
      (.token opening ++ (condition.course.deeper ++ (.token closing ++
        (thenBranch.course.deeper ++ behind))))
      (.branch condition.value thenBranch.value elseBranch) rest := by
  refine Performs.expect_bind opens ?_
  refine (derives.inner (nextGrip?_token closes rfl _ rest)).bind (Performs.expect_bind closes ?_)
  exact (reached.statement nonempty free room).bind others

theorem branch_reached {word opening closing : Token} {condition : Reading Expr}
    {thenBranch : Reading Stmt} (decides : word.kind = .ifWord) (opens : opening.kind = .leftParen)
    (derives : DerivesExpression 0 condition) (closes : closing.kind = .rightParen)
    (nonempty : thenBranch.course.tokens ≠ [])
    (reached : Reached limit functions .statement thenBranch) :
    Reached limit functions .statement
      ⟨.token word ++ (.token opening ++ (condition.course.deeper ++ (.token closing ++
          thenBranch.course.deeper))), .branch condition.value thenBranch.value none, true⟩ := by
  intro room rest free
  have missing : begins (· == .elseWord) rest = false := free rfl
  have performs := branch_performs room .nothing opens derives closes nonempty reached
    (fun _ => missing) (Performs.skip_bind missing (.pure _ rest))
  rw [Course.append_nothing] at performs
  refine Performs.skip_bind (by simp [decides]) ?_
  exact Performs.accept_bind (by simp [decides]) performs

theorem choice_reached {word opening closing otherwise : Token} {condition : Reading Expr}
    {thenBranch elseBranch : Reading Stmt} (decides : word.kind = .ifWord)
    (opens : opening.kind = .leftParen) (derives : DerivesExpression 0 condition)
    (closes : closing.kind = .rightParen) (someThen : thenBranch.course.tokens ≠ [])
    (closed : thenBranch.trails = false) (divides : otherwise.kind = .elseWord)
    (someElse : elseBranch.course.tokens ≠ [])
    (first : Reached limit functions .statement thenBranch)
    (second : Reached limit functions .statement elseBranch) :
    Reached limit functions .statement
      ⟨.token word ++ (.token opening ++ (condition.course.deeper ++ (.token closing ++
          (thenBranch.course.deeper ++ (.token otherwise ++ elseBranch.course.deeper))))),
        .branch condition.value thenBranch.value (some elseBranch.value), elseBranch.trails⟩ := by
  intro room rest free
  refine Performs.skip_bind (by simp [decides]) (Performs.accept_bind (by simp [decides]) ?_)
  refine branch_performs room _ opens derives closes someThen first ?_ ?_
  · intro trails
    rw [closed] at trails
    cases trails
  · exact Performs.accept_bind (by simp [divides]) (second.statement someElse free room).map

theorem for_reached {word opening semicolon closing : Token} {initializer : Reading (Option Stmt)}
    {condition increment : Reading (Option Expr)} {body : Reading Stmt}
    (repeats : word.kind = .forWord) (opens : opening.kind = .leftParen)
    (begins : DerivesInitializer initializer) (decides : DerivesOptional condition)
    (divides : semicolon.kind = .semicolon) (advances : DerivesOptional increment)
    (closes : closing.kind = .rightParen) (nonempty : body.course.tokens ≠ [])
    (reached : Reached limit functions .statement body) :
    Reached limit functions .statement
      ⟨.token word ++ (.token opening ++ (initializer.course ++ (condition.course ++
          (.token semicolon ++ (increment.course ++ (.token closing ++ body.course.deeper)))))),
        .forLoop initializer.value condition.value increment.value body.value, body.trails⟩ := by
  intro room rest free
  refine Performs.accept_bind (by simp [repeats]) (Performs.expect_bind opens ?_)
  refine (initializer_performs begins).bind ?_
  refine (optional_performs decides rfl rfl ?_).bind (Performs.expect_bind divides ?_)
  · simp [divides]
  refine (optional_performs advances rfl rfl ?_).bind (Performs.expect_bind closes ?_)
  · simp [closes]
  exact (reached.statement nonempty free room).map

theorem function_reached {word name opening closing brace ending : Token}
    {parameters : List Token} {between : Course} {items : List (Reading Stmt)}
    (declares : word.kind = .funWord) (named : name.kind = .identifier)
    (opens : opening.kind = .leftParen)
    (takes : ∀ parameter ∈ parameters, parameter.kind = .identifier)
    (listed : Course.Listed .tooManyParameters (parameters.map .token) between)
    (closes : closing.kind = .rightParen) (begins : brace.kind = .leftBrace)
    (given : ∀ item ∈ items, DerivesStatement (functions + 1) .declaration item)
    (each : ∀ item ∈ items, Reached limit (functions + 1) .declaration item)
    (ends : ending.kind = .rightBrace) :
    Reached limit functions .declaration
      ⟨.token word ++ (.token name ++ (.token opening ++ (between ++ (.token closing ++
          (.token brace ++ (.declarations items ++ .token ending)))))),
        .function 0 name parameters (items.map (·.value)), false⟩ := by
  intro room rest _free
  refine Performs.accept_bind (by simp [declares]) ?_
  refine Performs.expect_bind named (Performs.expect_bind opens ?_)
  refine (parameters_performs takes listed ?_).bind (Performs.expect_bind closes ?_)
  · simp [closes]
  exact Performs.expect_bind begins (block_performs given each ends).insideFunction.map

end

theorem DerivesStatement.reached {functions : Nat} {rank : Rank} {reading : Reading Stmt}
    (derives : DerivesStatement functions rank reading) (limit : Nat) :
    Reached limit functions rank reading := by
  induction derives with
  | expression derives => exact plain_reached derives
  | print prints derives ends => exact print_reached prints derives ends
  | returning returns derives ends => exact return_reached returns derives ends
  | block opens given closes each => exact block_reached opens given each closes
  | branch decides opens derives closes first reached =>
      exact branch_reached decides opens derives closes first.tokens_ne_nil reached
  | choice decides opens derives closes first closed divides second reached reachedElse =>
      exact choice_reached decides opens derives closes first.tokens_ne_nil closed divides
        second.tokens_ne_nil reached reachedElse
  | loop repeats opens derives closes first reached =>
      exact loop_reached repeats opens derives closes first.tokens_ne_nil reached
  | forLoop repeats opens begins decides divides advances closes first reached =>
      exact for_reached repeats opens begins decides divides advances closes first.tokens_ne_nil
        reached
  | function declares named opens takes listed closes begins given ends each =>
      exact function_reached declares named opens takes listed closes begins given each ends
  | «variable» derives =>
      intro room rest _free
      obtain ⟨word, behind, same, declares, performs⟩ := variable_performs derives
      rw [same]
      refine Performs.skip_bind (by simp [declares]) ?_
      exact Performs.accept_bind (by simp [declares]) performs
  | @stated functions reading derives reached =>
      intro room rest free
      have apart : ∀ kind, startsStatement kind = false →
          begins (· == kind) (reading.deeper.course.tokens ++ rest) = false := by
        intro kind other
        change begins _ (reading.course.deeper.tokens ++ rest) = false
        rw [Course.tokens_deeper]
        exact begins_append_of_ne rest (begins_ne other derives.starts)
      refine Performs.skip_bind (apart .funWord rfl) ?_
      refine Performs.skip_bind (apart .varWord rfl) ?_
      exact reached.statement derives.tokens_ne_nil free room

end Lox
