import Lox.Proofs.Grammar.Following
set_option autoImplicit false

/-! What rules do to the state of a parser. Whether a rule succeeds or fails, it leaves as many
levels and function bodies open as before, only takes tokens from the front and only adds to what was
noted, which it never looks at; and it fails at the token that is next. -/

namespace Lox

namespace Parser

variable {α β : Type}

/-- What a rule does at a state: its result, the tokens it leaves, and the reports it notes. -/
structure Entry (α : Type) where
  result : Except SyntaxError α
  rest : List Token
  noted : List SyntaxReport

namespace Entry

/-- Nothing else of the state changes. -/
def after (entry : Entry α) (state : ParserState) : ParserState :=
  { state with rest := entry.rest, reports := state.reports ++ entry.noted }

/-- A failure is one at the token that is next. -/
def outcome (entry : Entry α) (state : ParserState) : EStateM.Result SyntaxReport ParserState α :=
  match entry.result with
  | .ok value => .ok value (entry.after state)
  | .error error => .error ⟨(entry.after state).next, error⟩ (entry.after state)

/-- Something is done behind reports that were noted already. -/
def behind (entry : Entry α) (noted : List SyntaxReport) : Entry α :=
  { entry with noted := noted ++ entry.noted }

theorem outcome_behind (entry : Entry α) (noted : List SyntaxReport) (state : ParserState) :
    entry.outcome { state with reports := state.reports ++ noted }
      = (entry.behind noted).outcome state := by
  unfold outcome behind after
  simp only [List.append_assoc]

end Entry

/-- What the rule does at a state can be told without what was noted before. A value stands for at
least so many tokens. -/
def BalancedAt (least : Nat) (rule : Parser α) (state : ParserState) : Prop :=
  ∃ entry : Entry α,
    (∀ reports, rule { state with reports } = entry.outcome { state with reports }) ∧
    entry.rest <:+ state.rest ∧
    ∀ value, entry.result = .ok value → entry.rest.length + least ≤ state.rest.length

def Balanced (least : Nat) (rule : Parser α) : Prop :=
  ∀ state, BalancedAt least rule state

theorem BalancedAt.least_le {least fewer : Nat} {rule : Parser α} {state : ParserState}
    (balanced : BalancedAt least rule state) (le : fewer ≤ least) :
    BalancedAt fewer rule state := by
  obtain ⟨entry, same, suffix, enough⟩ := balanced
  refine ⟨entry, same, suffix, ?_⟩
  intro value given
  have read := enough value given
  omega

/-- Behind a failure only tokens were taken and reports noted, and the failure is one at the token
that is next. -/
theorem BalancedAt.failed {least : Nat} {rule : Parser α} {state after : ParserState}
    {report : SyntaxReport} (balanced : BalancedAt least rule state)
    (failed : rule state = .error report after) :
    after = { state with rest := after.rest, reports := after.reports } ∧
      after.rest <:+ state.rest ∧ report.token = after.next := by
  obtain ⟨⟨result, rest, noted⟩, same, suffix, _enough⟩ := balanced
  have outcome := (same state.reports).symm.trans failed
  cases result with
  | ok value => cases outcome
  | error error =>
      cases outcome
      exact ⟨rfl, suffix, rfl⟩

theorem BalancedAt.bind {least fewer : Nat} {rule : Parser α} {next : α → Parser β}
    {state : ParserState} (balanced : BalancedAt least rule state)
    (others : ∀ value, Balanced fewer (next value)) :
    BalancedAt (least + fewer) (rule >>= next) state := by
  obtain ⟨entry, same, suffix, enough⟩ := balanced
  cases result : entry.result with
  | error error =>
      refine ⟨⟨.error error, entry.rest, entry.noted⟩, ?_, suffix, fun _ given => nomatch given⟩
      intro reports
      have failed := same reports
      unfold Entry.outcome at failed
      rw [result] at failed
      exact bind_error failed
  | ok value =>
      obtain ⟨later, sameLater, suffixLater, enoughLater⟩ := others value (entry.after state)
      refine ⟨later.behind entry.noted, ?_, suffixLater.trans suffix, ?_⟩
      · intro reports
        have done := same reports
        unfold Entry.outcome at done
        rw [result] at done
        rw [bind_eq done, ← Entry.outcome_behind]
        exact sameLater _
      · intro final given
        have first := enough value result
        have second : later.rest.length + fewer ≤ entry.rest.length := enoughLater final given
        change later.rest.length + (least + fewer) ≤ state.rest.length
        omega

namespace Balanced

variable {least : Nat} {rule : Parser α} {next : α → Parser β}

theorem any (balanced : Balanced least rule) : Balanced 0 rule :=
  fun state => (balanced state).least_le (Nat.zero_le least)

/-- What comes first may read nothing. -/
theorem bind (balanced : Balanced 0 rule) (others : ∀ value, Balanced least (next value)) :
    Balanced least (rule >>= next) := by
  intro state
  have both := (balanced state).bind others
  rw [Nat.zero_add] at both
  exact both

/-- What comes behind may read nothing. -/
theorem before (balanced : Balanced least rule) (others : ∀ value, Balanced 0 (next value)) :
    Balanced least (rule >>= next) :=
  fun state => (balanced state).bind others

theorem pure (value : α) : Balanced 0 (Pure.pure value : Parser α) := by
  intro state
  refine ⟨⟨.ok value, state.rest, []⟩, ?_, List.suffix_refl _, fun _ _ => Nat.le_refl _⟩
  intro reports
  unfold Entry.outcome Entry.after
  simp only [List.append_nil]
  rfl

theorem map (transform : α → β) (balanced : Balanced least rule) :
    Balanced least (transform <$> rule) := by
  rw [map_eq_pure_bind]
  exact balanced.before fun value => pure (transform value)

theorem failHere (error : SyntaxError) : Balanced least (Parser.failHere error : Parser α) := by
  intro state
  refine ⟨⟨.error error, state.rest, []⟩, ?_, List.suffix_refl _, fun _ given => nomatch given⟩
  intro reports
  unfold Entry.outcome Entry.after
  simp only [List.append_nil]
  rfl

theorem note (report : SyntaxReport) : Balanced 0 (Parser.note report) :=
  fun state => ⟨⟨.ok (), state.rest, [report]⟩, fun _ => rfl, List.suffix_refl _,
    fun _ _ => Nat.le_refl _⟩

/-! ### Looking at the state -/

/-- A rule may depend on anything but what was noted. -/
theorem look {next : ParserState → Parser α}
    (blind : ∀ (state : ParserState) reports, next { state with reports } = next state)
    (others : ∀ state, BalancedAt least (next state) state) : Balanced least (get >>= next) := by
  intro state
  obtain ⟨entry, same, bounds⟩ := others state
  refine ⟨entry, ?_, bounds⟩
  intro reports
  rw [← same reports, ← blind state reports]
  rfl

theorem nextIs {wanted : TokenKind → Bool} {next : Bool → Parser α}
    (others : ∀ found, Balanced least (next found)) :
    Balanced least (Parser.nextIs wanted >>= next) := by
  have looking : Balanced least (get >>= fun state : ParserState =>
      next (state.rest.head?.any (wanted ·.kind))) :=
    look (fun _ _ => rfl) fun state => others _ state
  exact looking

theorem noteHere (error : SyntaxError) : Balanced 0 (Parser.noteHere error) := by
  have looking : Balanced 0 (get >>= fun state : ParserState =>
      Parser.note ⟨state.next, error⟩) :=
    look (fun _ _ => rfl) fun state => note ⟨state.next, error⟩ state
  exact looking

/-! ### Tokens -/

theorem accept {wanted : TokenKind → Bool} {next : Option Token → Parser α}
    (hit : ∀ token, Balanced (least - 1) (next (some token))) (miss : Balanced least (next none)) :
    Balanced least (Parser.accept wanted >>= next) := by
  intro state
  by_cases found : state.rest.head?.any (wanted ·.kind) = true
  · obtain ⟨token, rest, left, isWanted⟩ := exists_next wanted found
    obtain ⟨entry, same, suffix, enough⟩ := hit token { state with rest }
    refine ⟨entry, ?_, ?_, ?_⟩
    · intro reports
      have here : ({ state with reports } : ParserState).rest = token :: rest := left
      rw [bind_eq (accept_found here isWanted)]
      exact same reports
    · rw [left]
      exact suffix.trans (List.suffix_cons token rest)
    · intro value given
      have read : entry.rest.length + (least - 1) ≤ rest.length := enough value given
      rw [left, List.length_cons]
      omega
  · obtain ⟨entry, same, bounds⟩ := miss state
    refine ⟨entry, ?_, bounds⟩
    intro reports
    have absent : ¬ ({ state with reports } : ParserState).rest.head?.any (wanted ·.kind) = true :=
      found
    rw [bind_eq (accept_missing absent)]
    exact same reports

theorem expect (kind : TokenKind) (item : Expected) : Balanced 1 (Parser.expect kind item) :=
  accept (fun token => pure token) (failHere (.missing item))

/-! ### Levels -/

/-- What is changed in front of a rule is undone behind it, also behind a failure. -/
theorem between {enter leave : ParserState → ParserState} {state inside : ParserState}
    (balanced : BalancedAt least rule inside) (same : inside.rest = state.rest)
    (ending : inside.ending = state.ending)
    (entered : ∀ reports, enter { state with reports } = { inside with reports })
    (left : ∀ rest reports, leave { inside with rest, reports } = { state with rest, reports }) :
    BalancedAt least (Parser.between enter leave rule) state := by
  obtain ⟨entry, does, bounds⟩ := balanced
  rw [same] at bounds
  refine ⟨entry, ?_, bounds⟩
  intro reports
  have ran := does reports
  unfold Entry.outcome at ran ⊢
  unfold Parser.between
  rw [entered reports, ran]
  cases entry.result with
  | ok value => exact congrArg _ (left entry.rest _)
  | error error =>
      have next : (entry.after { inside with reports }).next
          = (entry.after { state with reports }).next := by
        unfold ParserState.next Entry.after
        rw [ending]
      dsimp only
      rw [next]
      exact congrArg _ (left entry.rest _)

theorem nested (limit : Nat) (balanced : Balanced least rule) :
    Balanced least (Parser.nested limit rule) := by
  refine look (fun _ _ => rfl) fun state => ?_
  by_cases full : limit ≤ state.nesting
  · rw [if_pos full]
    exact failHere .tooMuchNesting state
  · rw [if_neg full]
    exact between (balanced { state with nesting := state.nesting + 1 }) rfl rfl (fun _ => rfl)
      fun _ _ => rfl

theorem insideFunction (balanced : Balanced least rule) :
    Balanced least (Parser.insideFunction rule) := fun state =>
  between (balanced { state with functionDepth := state.functionDepth + 1 }) rfl rfl (fun _ => rfl)
    fun _ _ => rfl

/-! ### Loops -/

theorem repeatFor {step : α → Parser (Option α)} (balanced : ∀ value, Balanced 0 (step value))
    (rounds : List Token) (value : α) : Balanced 0 (Parser.repeatFor step rounds value) := by
  induction rounds generalizing value with
  | nil => exact pure value
  | cons _round rounds ih =>
      refine (balanced value).bind fun found => ?_
      cases found with
      | none => exact pure value
      | some next => exact ih next

theorem repeating {step : α → Parser (Option α)} (balanced : ∀ value, Balanced 0 (step value))
    (start : α) : Balanced 0 (Parser.repeating step start) :=
  look (fun _ _ => rfl) fun state => repeatFor balanced state.rest start state

theorem many {item : Parser (Option α)} (balanced : Balanced 0 item) :
    Balanced 0 (Parser.many item) := by
  refine (repeating (fun found => ?_) []).bind fun found => pure found.reverse
  exact balanced.bind fun value => pure (value.map (· :: found))

end Balanced

end Parser

/-- The rules one level deeper keep the balance, and a success of theirs reads something. -/
structure InnerExpr.Balanced (inner : InnerExpr) : Prop where
  expression : Parser.Balanced 1 inner.expression
  operand : Parser.Balanced 1 inner.operand

structure Inner.Balanced (inner : Inner) : Prop extends inner.toInnerExpr.Balanced where
  statement : Parser.Balanced 1 inner.statement
  declaration : Parser.Balanced 1 inner.declaration

namespace Grammar

open Lox.Parser

/-! ### Expressions -/

theorem commaSeparated_balanced {α : Type} {item : Parser α} (excess : SyntaxError)
    (balanced : Balanced 1 item) : Balanced 1 (commaSeparated excess item) := by
  refine balanced.before fun first => ?_
  refine Balanced.bind (Balanced.repeating (fun items => ?_) [first]) fun items => .pure _
  refine Balanced.accept (fun _comma => ?_) (.pure _)
  dsimp only
  split
  · exact (Balanced.noteHere excess).bind fun _ => balanced.any.bind fun _ => .pure _
  · exact balanced.any.bind fun _ => .pure _

theorem leftChain_balanced {operand : Parser Expr} (balanced : Balanced 1 operand)
    (wanted : TokenKind → Bool) (node : Expr → Token → Expr → Expr) :
    Balanced 1 (leftChain operand wanted node) := by
  refine balanced.before fun first => ?_
  refine Balanced.repeating (fun left => ?_) first
  exact Balanced.accept (fun operator => balanced.any.bind fun _ => .pure _) (.pure _)

section Expressions

variable {inner : InnerExpr}

theorem primary_balanced (balanced : inner.Balanced) : Balanced 1 (primary inner) := by
  refine Balanced.accept (fun _ => .pure _) ?_
  refine Balanced.accept (fun _ => .pure _) ?_
  refine Balanced.accept (fun _ => .pure _) ?_
  refine Balanced.accept (fun _ => .pure _) ?_
  refine Balanced.accept (fun _ => .pure _) ?_
  refine Balanced.accept (fun _ => ?_) (.failHere _)
  exact balanced.expression.any.bind fun value =>
    (Balanced.expect .rightParen .groupClose).any.bind fun _ => .pure _

theorem arguments_balanced (balanced : inner.Balanced) :
    Balanced 0 (arguments inner) := by
  refine Balanced.nextIs fun closed => ?_
  cases closed with
  | true => exact .pure []
  | false => exact (commaSeparated_balanced .tooManyArguments balanced.expression).any

theorem call_balanced (balanced : inner.Balanced) : Balanced 1 (call inner) := by
  refine (primary_balanced balanced).before fun callee => ?_
  refine Balanced.repeating (fun callee => ?_) callee
  refine Balanced.accept (fun _ => ?_) (.pure _)
  exact (arguments_balanced balanced).bind fun items =>
    (Balanced.expect .rightParen .argumentsClose).any.bind fun _ => .pure _

theorem unary_balanced (balanced : inner.Balanced) : Balanced 1 (unary inner) :=
  Balanced.accept (fun _operator => balanced.operand.any.bind fun _ => .pure _)
    (call_balanced balanced)

theorem equality_balanced (balanced : inner.Balanced) :
    Balanced 1 (equality inner) := by
  have factors := leftChain_balanced (unary_balanced balanced) isFactor .binary
  have terms := leftChain_balanced factors isTerm .binary
  have comparisons := leftChain_balanced terms isComparison .binary
  exact leftChain_balanced comparisons isEquality .binary

theorem conditional_balanced (balanced : inner.Balanced) :
    Balanced 1 (conditional inner) := by
  refine (equality_balanced balanced).before fun condition => ?_
  refine Balanced.accept (fun _question => ?_) (.pure _)
  refine balanced.expression.any.bind fun thenBranch => ?_
  refine (Balanced.expect .colon .conditionalColon).any.bind fun _ => ?_
  exact balanced.expression.any.bind fun _ => .pure _

theorem disjunction_balanced (balanced : inner.Balanced) :
    Balanced 1 (disjunction inner) := by
  have conjunctions := leftChain_balanced (conditional_balanced balanced) (· == .andWord) .logical
  exact leftChain_balanced conjunctions (· == .orWord) .logical

theorem assignment_balanced (balanced : inner.Balanced) :
    Balanced 1 (assignment inner) := by
  refine (disjunction_balanced balanced).before fun target => ?_
  refine Balanced.accept (fun equals => ?_) (.pure _)
  refine balanced.expression.any.bind fun value => ?_
  cases target with
  | «variable» name => exact .pure _
  | literal | assign | unary | binary | logical | conditional | call | grouping =>
      exact (Balanced.note _).bind fun _ => .pure _

end Expressions

/-! ### Statements -/

section Statements

variable {inner : Inner}

theorem expressionStatement_balanced (balanced : inner.Balanced) :
    Balanced 1 (expressionStatement inner) :=
  balanced.expression.before fun _ =>
    (Balanced.expect .semicolon .expressionEnd).any.bind fun _ => .pure _

theorem printStatement_balanced (balanced : inner.Balanced) :
    Balanced 1 (printStatement inner) :=
  balanced.expression.before fun _ =>
    (Balanced.expect .semicolon .valueEnd).any.bind fun _ => .pure _

theorem optionalBefore_balanced (balanced : inner.Balanced) (kind : TokenKind) :
    Balanced 0 (optionalBefore kind inner) := by
  refine Balanced.nextIs fun absent => ?_
  cases absent with
  | true => exact .pure none
  | false => exact balanced.expression.any.bind fun _ => .pure _

theorem returnStatement_balanced (balanced : inner.Balanced) (keyword : Token) :
    Balanced 1 (returnStatement keyword inner) := by
  have closing : Balanced 1 (do
      let value ← optionalBefore .semicolon inner
      let _ ← expect .semicolon .returnEnd
      return Stmt.returning keyword value) :=
    (optionalBefore_balanced balanced .semicolon).bind fun value =>
      (Balanced.expect .semicolon .returnEnd).before fun _ => .pure _
  refine Balanced.look (fun _ _ => rfl) fun state => ?_
  split
  · exact (Balanced.note _).bind (fun _ => closing) state
  · exact closing state

theorem variableDeclaration_balanced (balanced : inner.Balanced) :
    Balanced 1 (variableDeclaration inner) := by
  refine (Balanced.expect .identifier .variableName).before fun name => ?_
  have closing : ∀ initializer, Balanced 0 (do
      let _ ← expect .semicolon .variableEnd
      return Stmt.variable name initializer) := fun _ =>
    (Balanced.expect .semicolon .variableEnd).any.bind fun _ => .pure _
  refine Balanced.accept (fun _ => ?_) (closing none)
  exact (balanced.expression.any.map some).bind closing

theorem block_balanced (balanced : inner.Balanced) : Balanced 1 (block inner) := by
  refine Balanced.bind (Balanced.many ?_) fun statements => ?_
  · refine Balanced.nextIs fun more => ?_
    cases more with
    | true => exact balanced.declaration.any.map some
    | false => exact .pure none
  · exact (Balanced.expect .rightBrace .blockClose).before fun _ => .pure _

theorem parameters_balanced : Balanced 0 parameters := by
  refine Balanced.nextIs fun closed => ?_
  cases closed with
  | true => exact .pure []
  | false => exact (commaSeparated_balanced .tooManyParameters (.expect _ _)).any

theorem functionDeclaration_balanced (balanced : inner.Balanced) :
    Balanced 1 (functionDeclaration inner) := by
  refine (Balanced.expect .identifier .functionName).before fun name => ?_
  refine (Balanced.expect .leftParen .functionOpen).any.bind fun _ => ?_
  refine parameters_balanced.bind fun items => ?_
  refine (Balanced.expect .rightParen .parametersClose).any.bind fun _ => ?_
  refine (Balanced.expect .leftBrace .bodyOpen).any.bind fun _ => ?_
  exact (block_balanced balanced).any.insideFunction.bind fun _ => .pure _

theorem ifStatement_balanced (balanced : inner.Balanced) :
    Balanced 1 (ifStatement inner) := by
  refine (Balanced.expect .leftParen .ifOpen).before fun _ => ?_
  refine balanced.expression.any.bind fun condition => ?_
  refine (Balanced.expect .rightParen .ifClose).any.bind fun _ => ?_
  refine balanced.statement.any.bind fun thenBranch => ?_
  exact Balanced.accept (fun _ => balanced.statement.any.bind fun _ => .pure _) (.pure _)

theorem whileStatement_balanced (balanced : inner.Balanced) :
    Balanced 1 (whileStatement inner) := by
  refine (Balanced.expect .leftParen .whileOpen).before fun _ => ?_
  refine balanced.expression.any.bind fun condition => ?_
  refine (Balanced.expect .rightParen .whileClose).any.bind fun _ => ?_
  exact balanced.statement.any.bind fun _ => .pure _

theorem forInitializer_balanced (balanced : inner.Balanced) :
    Balanced 1 (forInitializer inner) := by
  refine Balanced.accept (fun _ => .pure _) ?_
  refine Balanced.accept (fun _ => ?_) ?_
  · exact (variableDeclaration_balanced balanced).any.bind fun _ => .pure _
  · exact (expressionStatement_balanced balanced).before fun _ => .pure _

theorem forStatement_balanced (balanced : inner.Balanced) :
    Balanced 1 (forStatement inner) := by
  refine (Balanced.expect .leftParen .forOpen).before fun _ => ?_
  refine (forInitializer_balanced balanced).any.bind fun initializer => ?_
  refine (optionalBefore_balanced balanced .semicolon).bind fun condition => ?_
  refine (Balanced.expect .semicolon .loopConditionEnd).any.bind fun _ => ?_
  refine (optionalBefore_balanced balanced .rightParen).bind fun increment => ?_
  refine (Balanced.expect .rightParen .forClose).any.bind fun _ => ?_
  exact balanced.statement.any.bind fun _ => .pure _

theorem statement_balanced (balanced : inner.Balanced) : Balanced 1 (statement inner) := by
  refine Balanced.accept (fun _ => (forStatement_balanced balanced).any) ?_
  refine Balanced.accept (fun _ => (ifStatement_balanced balanced).any) ?_
  refine Balanced.accept (fun _ => (printStatement_balanced balanced).any) ?_
  refine Balanced.accept (fun keyword => (returnStatement_balanced balanced keyword).any) ?_
  refine Balanced.accept (fun _ => (whileStatement_balanced balanced).any) ?_
  refine Balanced.accept (fun _ => ?_) (expressionStatement_balanced balanced)
  exact (block_balanced balanced).any.bind fun _ => .pure _

theorem declaration_balanced (balanced : inner.Balanced) :
    Balanced 1 (declaration inner) := by
  refine Balanced.accept (fun _ => (functionDeclaration_balanced balanced).any) ?_
  exact Balanced.accept (fun _ => (variableDeclaration_balanced balanced).any) balanced.statement

end Statements

/-! ### All levels -/

/-- By induction on the levels that are left: every rule keeps the balance and reads something
where it succeeds. -/
theorem rules_balanced (limit room : Nat) : (rules limit room).Balanced := by
  induction room with
  | zero => exact ⟨⟨.failHere _, .failHere _⟩, .failHere _, .failHere _⟩
  | succ room ih =>
      have expressions := ih.toBalanced
      exact ⟨⟨(assignment_balanced expressions).nested limit,
        (unary_balanced expressions).nested limit⟩,
        (statement_balanced ih).nested limit, (declaration_balanced ih).nested limit⟩

end Grammar

end Lox
