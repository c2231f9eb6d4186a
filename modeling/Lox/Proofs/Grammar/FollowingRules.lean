import Lox.Proofs.Grammar.Following
set_option autoImplicit false

/-! Every rule of the grammar keeps in step with its counterpart at a cursor, given that the rules
one level deeper do. -/

namespace Lox

namespace Parser

variable {α : Type} {state : ParserState}

/-- At the end nothing is accepted. -/
theorem accept_ended {wanted : TokenKind → Bool} {next : Option Token → Parser α}
    (ended : state.rest = []) : (accept wanted >>= next) state = next none state :=
  bind_eq (accept_missing (by simp [ended]))

theorem nextIs_bind (wanted : TokenKind → Bool) (next : Bool → Parser α) (state : ParserState) :
    (nextIs wanted >>= next) state = next (state.rest.head?.any (wanted ·.kind)) state :=
  rfl

theorem atEnd_bind (next : Bool → Parser α) (state : ParserState) :
    (atEnd >>= next) state = next state.rest.isEmpty state :=
  rfl

end Parser

namespace Row

variable {row : Row} {nesting fuel : Nat} {copy : CursorRules}

structure ExpressionsFollow (row : Row) (nesting : Nat) (copy : CursorRules) (inner : InnerExpr) :
    Prop where
  expression : ∀ last, row.Follows nesting last copy.expression inner.expression
  operand : ∀ last, row.Follows nesting last copy.operand inner.operand

/-- A statement or declaration reads at least one token. -/
structure RulesFollow (row : Row) (nesting : Nat) (copy : CursorRules) (inner : Inner) : Prop
    extends ExpressionsFollow row nesting copy inner.toInnerExpr where
  statement : ∀ last, row.Tracks nesting last (fun _ => 1) id copy.statement inner.statement
  declaration : ∀ last, row.Tracks nesting last (fun _ => 1) id copy.declaration inner.declaration

/-! ### Expressions -/

section Expressions

variable {inner : InnerExpr}

theorem leftChain_follows {operand : CursorParser Expr} {operandRule : Parser Expr}
    (enough : row.visible.length < fuel)
    (follows : ∀ last, row.Follows nesting last operand operandRule) (wanted : TokenKind → Bool)
    (node : Expr → Token → Expr → Expr) (last : Option Token) :
    row.Follows nesting last (CursorRules.leftChain fuel operand wanted node)
      (Grammar.leftChain operandRule wanted node) := by
  refine (follows last).bind fun first => ?_
  refine Tracks.repeating enough ?_ ?_ first
  · intro left
    refine Tracks.matching (fun operator => ?_) (Tracks.pure rfl rfl)
    refine Tracks.previous ?_
    exact (follows _).bind fun right => Tracks.pure rfl rfl
  · intro left state ended
    exact Parser.accept_ended ended

theorem primary_follows (follows : row.ExpressionsFollow nesting copy inner)
    (last : Option Token) :
    row.Follows nesting last (CursorRules.primary copy) (Grammar.primary inner) := by
  refine Tracks.matching (fun _ => Tracks.pure rfl rfl) ?_
  refine Tracks.matching (fun _ => Tracks.pure rfl rfl) ?_
  refine Tracks.matching (fun _ => Tracks.pure rfl rfl) ?_
  refine Tracks.matching (fun token => Tracks.previous (Tracks.pure rfl rfl)) ?_
  refine Tracks.matching (fun name => Tracks.previous (Tracks.pure rfl rfl)) ?_
  refine Tracks.matching (fun _ => ?_) (Tracks.fail _)
  refine (follows.expression _).bind fun value => ?_
  exact Tracks.consuming fun _ => Tracks.pure rfl rfl

/-- Between the items on both sides stand the same commas; here the last item comes first. -/
theorem separated_follows {α : Type} {item : CursorParser α} {itemRule : Parser α}
    (enough : row.visible.length < fuel)
    (follows : ∀ last, row.Follows nesting last item itemRule) (excess : SyntaxError)
    (last : Option Token) :
    row.Follows nesting last (CursorParser.separated fuel excess item)
      (Grammar.commaSeparated excess itemRule) := by
  unfold CursorParser.separated CursorParser.pushItem Grammar.commaSeparated
  have few : ¬ Grammar.maxItems ≤ ([] : List α).length := by simp [Grammar.maxItems]
  simp only [if_neg few, bind_assoc, pure_bind]
  refine (follows last).bind fun first => ?_
  refine Tracks.reversed (Tracks.repeating enough ?_ ?_ [first])
  · intro items
    refine Tracks.matching (fun _ => ?_) (Tracks.pure rfl rfl)
    by_cases full : Grammar.maxItems ≤ items.length
    · simp only [List.length_reverse, if_pos full, map_bind, map_pure]
      refine Tracks.reportingHere ?_
      exact (follows _).bind fun item => Tracks.pure rfl (by simp)
    · simp only [List.length_reverse, if_neg full, map_bind, map_pure]
      exact (follows _).bind fun item => Tracks.pure rfl (by simp)
  · intro items state ended
    exact Parser.accept_ended ended

theorem listed_follows {α : Type} {item : CursorParser α} {itemRule : Parser α}
    (enough : row.visible.length < fuel)
    (follows : ∀ last, row.Follows nesting last item itemRule) (excess : SyntaxError)
    (last : Option Token) :
    row.Follows nesting last (CursorParser.listed fuel excess item)
      (do
        if ← Parser.nextIs (· == .rightParen) then return []
        Grammar.commaSeparated excess itemRule) := by
  refine Tracks.checking fun closed => ?_
  exact Tracks.branch closed (Tracks.pure rfl rfl) (separated_follows enough follows excess last)

theorem call_follows (enough : row.visible.length < fuel)
    (follows : row.ExpressionsFollow nesting copy inner) (last : Option Token) :
    row.Follows nesting last (CursorRules.call fuel copy) (Grammar.call inner) := by
  unfold CursorRules.call CursorRules.finishCall
  simp only [bind_assoc, pure_bind]
  refine (primary_follows follows last).bind fun callee => ?_
  refine Tracks.repeating enough ?_ ?_ callee
  · intro callee
    refine Tracks.matching (fun _ => ?_) (Tracks.pure rfl rfl)
    refine (listed_follows enough follows.expression .tooManyArguments _).bind fun items => ?_
    exact Tracks.consuming fun paren => Tracks.pure rfl rfl
  · intro callee state ended
    exact Parser.accept_ended ended

theorem unary_follows (enough : row.visible.length < fuel)
    (follows : row.ExpressionsFollow nesting copy inner) (last : Option Token) :
    row.Follows nesting last (CursorRules.unary fuel copy) (Grammar.unary inner) := by
  refine Tracks.matching (fun operator => ?_) (call_follows enough follows last)
  refine Tracks.previous ?_
  exact (follows.operand _).bind fun operand => Tracks.pure rfl rfl

theorem equality_follows (enough : row.visible.length < fuel)
    (follows : row.ExpressionsFollow nesting copy inner) (last : Option Token) :
    row.Follows nesting last (CursorRules.equality fuel copy) (Grammar.equality inner) := by
  have factors := leftChain_follows enough (unary_follows enough follows) Grammar.isFactor .binary
  have terms := leftChain_follows enough factors Grammar.isTerm .binary
  have comparisons := leftChain_follows enough terms Grammar.isComparison .binary
  exact leftChain_follows enough comparisons Grammar.isEquality .binary last

theorem ternary_follows (enough : row.visible.length < fuel)
    (follows : row.ExpressionsFollow nesting copy inner) (last : Option Token) :
    row.Follows nesting last (CursorRules.ternary fuel copy) (Grammar.conditional inner) := by
  refine (equality_follows enough follows last).bind fun condition => ?_
  refine Tracks.matching (fun question => ?_) (Tracks.pure rfl rfl)
  refine Tracks.previous ?_
  refine (follows.expression _).bind fun thenBranch => ?_
  refine Tracks.consuming fun _ => ?_
  exact (follows.expression _).bind fun elseBranch => Tracks.pure rfl rfl

theorem disjunction_follows (enough : row.visible.length < fuel)
    (follows : row.ExpressionsFollow nesting copy inner) (last : Option Token) :
    row.Follows nesting last (CursorRules.disjunction fuel copy) (Grammar.disjunction inner) := by
  have conjunctions :=
    leftChain_follows enough (ternary_follows enough follows) (· == .andWord) .logical
  exact leftChain_follows enough conjunctions (· == .orWord) .logical last

theorem assignment_follows (enough : row.visible.length < fuel)
    (follows : row.ExpressionsFollow nesting copy inner) (last : Option Token) :
    row.Follows nesting last (CursorRules.assignment fuel copy) (Grammar.assignment inner) := by
  refine (disjunction_follows enough follows last).bind fun target => ?_
  refine Tracks.matching (fun equals => ?_) (Tracks.pure rfl rfl)
  refine Tracks.previous ?_
  refine (follows.expression _).bind fun value => ?_
  cases target with
  | «variable» name => exact Tracks.pure rfl rfl
  | literal | assign | unary | binary | logical | conditional | call | grouping =>
      exact Tracks.reporting (Tracks.pure rfl rfl)

end Expressions

/-! ### Statements -/

section Statements

variable {inner : Inner}

theorem expressionStatement_tracks (follows : row.RulesFollow nesting copy inner)
    (last : Option Token) :
    row.Tracks nesting last (fun _ => 1) id (CursorRules.expressionStatement copy)
      (Grammar.expressionStatement inner) := by
  refine (follows.expression last).bind fun value => ?_
  exact Tracks.consuming fun _ => Tracks.pure rfl rfl

theorem printStatement_follows (follows : row.RulesFollow nesting copy inner)
    (last : Option Token) :
    row.Follows nesting last (CursorRules.printStatement copy) (Grammar.printStatement inner) := by
  refine (follows.expression last).bind fun value => ?_
  exact Tracks.consuming fun _ => Tracks.pure rfl rfl

theorem optionalBefore_follows (follows : row.RulesFollow nesting copy inner) (kind : TokenKind)
    (last : Option Token) :
    row.Follows nesting last (CursorRules.optionalBefore copy kind)
      (Grammar.optionalBefore kind inner) := by
  refine Tracks.checking fun absent => ?_
  refine Tracks.branch absent (Tracks.pure rfl rfl) ?_
  exact (follows.expression last).bind fun value => Tracks.pure rfl rfl

/-- The word itself was read last. -/
theorem returnStatement_follows (follows : row.RulesFollow nesting copy inner)
    (keyword : Token) :
    row.Follows nesting (some keyword) (CursorRules.returnStatement copy)
      (Grammar.returnStatement keyword inner) := by
  have closing : ∀ last, row.Follows nesting last
      (do
        let value ← CursorRules.optionalBefore copy .semicolon
        let _ ← CursorParser.consume .semicolon .returnEnd
        return Stmt.returning keyword value)
      (do
        let value ← Grammar.optionalBefore .semicolon inner
        let _ ← Parser.expect .semicolon .returnEnd
        return Stmt.returning keyword value) := by
    intro last
    refine (optionalBefore_follows follows .semicolon last).bind fun value => ?_
    exact Tracks.consuming fun _ => Tracks.pure rfl rfl
  refine Tracks.previous (Tracks.look ?_)
  intro state fits
  have depth : (row.cursor state).functionDepth = state.functionDepth := rfl
  by_cases outside : state.functionDepth = 0
  · simp only [depth, if_pos outside]
    exact Tracks.reporting (closing _) state fits
  · simp only [depth, if_neg outside]
    exact closing _ state fits

theorem variableDeclaration_follows (follows : row.RulesFollow nesting copy inner)
    (last : Option Token) :
    row.Follows nesting last (CursorRules.variableDeclaration copy)
      (Grammar.variableDeclaration inner) := by
  refine Tracks.consuming fun name => ?_
  have closing : ∀ last initializer, row.Follows nesting last
      (do
        let _ ← CursorParser.consume .semicolon .variableEnd
        return Stmt.variable name initializer)
      (do
        let _ ← Parser.expect .semicolon .variableEnd
        return Stmt.variable name initializer) :=
    fun _ _ => Tracks.consuming fun _ => Tracks.pure rfl rfl
  refine Tracks.matching (fun _ => ?_) (closing _ none)
  exact (follows.expression _).some.bind (closing none)

/-- A declaration is read where neither the brace nor the end comes next. -/
theorem blockStep_tracks (follows : row.RulesFollow nesting copy inner) (found : List Stmt) :
    row.Tracks nesting none Tracks.stepGain (Option.map fun statement => found ++ [statement])
      (CursorRules.blockStep copy found)
      (do
        if ← Parser.nextIs (· != .rightBrace) then some <$> inner.declaration
        else return none) := by
  have declaration : row.Tracks nesting none Tracks.stepGain
      (Option.map fun statement => found ++ [statement])
      (do return some (found ++ [← copy.declaration])) (some <$> inner.declaration) :=
    (follows.declaration none).transformed (fun _ => rfl) fun _ => Nat.le_refl _
  have ending : row.Tracks nesting none Tracks.stepGain
      (Option.map fun statement => found ++ [statement]) (Pure.pure none) (Pure.pure none) :=
    Tracks.pure rfl rfl
  intro state fits
  have more : state.rest.head?.any (·.kind != .rightBrace)
      = (!state.rest.head?.any (·.kind == .rightBrace) && !state.rest.isEmpty) := by
    cases state.rest <;> simp [bne]
  unfold TracksAt CursorRules.blockStep
  rw [CursorParser.bind_eq (fits.check_eq (· == .rightBrace)), Parser.nextIs_bind, more]
  cases state.rest.head?.any (·.kind == .rightBrace) with
  | true => exact ending state fits
  | false =>
      rw [if_neg Bool.false_ne_true, CursorParser.bind_eq fits.isAtEnd_eq]
      cases state.rest.isEmpty with
      | true => exact ending state fits
      | false => exact declaration state fits

theorem block_follows (enough : row.visible.length < fuel)
    (follows : row.RulesFollow nesting copy inner) (last : Option Token) :
    row.Follows nesting last (CursorRules.block fuel copy) (Grammar.block inner) := by
  refine Follows.bind (Tracks.many enough (blockStep_tracks follows) ?_) fun statements => ?_
  · intro state ended
    rw [Parser.nextIs_bind, ended]
    rfl
  · exact Tracks.consuming fun _ => Tracks.pure rfl rfl

theorem function_follows (enough : row.visible.length < fuel)
    (follows : row.RulesFollow nesting copy inner) (last : Option Token) :
    row.Follows nesting last (CursorRules.function fuel copy)
      (Grammar.functionDeclaration inner) := by
  have parameter : ∀ last, row.Follows nesting last
      (CursorParser.consume .identifier .parameterName)
      (Parser.expect .identifier .parameterName) :=
    fun _ => Tracks.consume .identifier .parameterName
  refine Tracks.consuming fun name => ?_
  refine Tracks.consuming fun _ => ?_
  refine (listed_follows enough parameter .tooManyParameters _).bind fun items => ?_
  refine Tracks.consuming fun _ => ?_
  refine Tracks.consuming fun _ => ?_
  exact (Tracks.insideFunction (block_follows enough follows none)).bind fun body =>
    Tracks.pure rfl rfl

theorem ifStatement_follows (follows : row.RulesFollow nesting copy inner)
    (last : Option Token) :
    row.Follows nesting last (CursorRules.ifStatement copy) (Grammar.ifStatement inner) := by
  refine Tracks.consuming fun _ => ?_
  refine (follows.expression _).bind fun condition => ?_
  refine Tracks.consuming fun _ => ?_
  refine (follows.statement _).follows.bind fun thenBranch => ?_
  refine Tracks.matching (fun _ => ?_) (Tracks.pure rfl rfl)
  exact (follows.statement _).follows.bind fun elseBranch => Tracks.pure rfl rfl

theorem whileStatement_follows (follows : row.RulesFollow nesting copy inner)
    (last : Option Token) :
    row.Follows nesting last (CursorRules.whileStatement copy) (Grammar.whileStatement inner) := by
  refine Tracks.consuming fun _ => ?_
  refine (follows.expression _).bind fun condition => ?_
  refine Tracks.consuming fun _ => ?_
  exact (follows.statement _).follows.bind fun body => Tracks.pure rfl rfl

theorem forInitializer_follows (follows : row.RulesFollow nesting copy inner)
    (last : Option Token) :
    row.Follows nesting last (CursorRules.forInitializer copy)
      (Grammar.forInitializer inner) := by
  refine Tracks.matching (fun _ => Tracks.pure rfl rfl) ?_
  refine Tracks.matching (fun _ => ?_) ?_
  · exact (variableDeclaration_follows follows _).bind fun _ => Tracks.pure rfl rfl
  · exact (expressionStatement_tracks follows last).follows.bind fun _ => Tracks.pure rfl rfl

theorem forStatement_follows (follows : row.RulesFollow nesting copy inner)
    (last : Option Token) :
    row.Follows nesting last (CursorRules.forStatement copy) (Grammar.forStatement inner) := by
  refine Tracks.consuming fun _ => ?_
  refine (forInitializer_follows follows _).bind fun initializer => ?_
  refine (optionalBefore_follows follows .semicolon _).bind fun condition => ?_
  refine Tracks.consuming fun _ => ?_
  refine (optionalBefore_follows follows .rightParen _).bind fun increment => ?_
  refine Tracks.consuming fun _ => ?_
  exact (follows.statement _).follows.bind fun body => Tracks.pure rfl rfl

theorem statement_tracks (enough : row.visible.length < fuel)
    (follows : row.RulesFollow nesting copy inner) (last : Option Token) :
    row.Tracks nesting last (fun _ => 1) id (CursorRules.statementRule fuel copy)
      (Grammar.statement inner) := by
  refine Tracks.matching (fun _ => forStatement_follows follows _) ?_
  refine Tracks.matching (fun _ => ifStatement_follows follows _) ?_
  refine Tracks.matching (fun _ => printStatement_follows follows _) ?_
  refine Tracks.matching (fun keyword => returnStatement_follows follows keyword) ?_
  refine Tracks.matching (fun _ => whileStatement_follows follows _) ?_
  refine Tracks.matching (fun _ => ?_) (expressionStatement_tracks follows last)
  exact (block_follows enough follows _).bind fun statements => Tracks.pure rfl rfl

theorem declaration_tracks (enough : row.visible.length < fuel)
    (follows : row.RulesFollow nesting copy inner) (last : Option Token) :
    row.Tracks nesting last (fun _ => 1) id (CursorRules.declarationRule fuel copy)
      (Grammar.declaration inner) := by
  refine Tracks.matching (fun _ => function_follows enough follows _) ?_
  exact Tracks.matching (fun _ => variableDeclaration_follows follows _) (follows.statement last)

end Statements

/-! ### All levels -/

/-- With fuel for more levels than there is room for, the rules keep in step: the limit is reached
before the fuel is used up. -/
theorem rules_follow {limit room depth : Nat} (enough : row.visible.length < fuel)
    (level : nesting + room = limit) (deep : room < depth) :
    row.RulesFollow nesting (CursorRules.ofFuel limit fuel depth) (Grammar.rules limit room) := by
  induction room generalizing nesting depth with
  | zero =>
      obtain ⟨depth, rfl⟩ := Nat.exists_eq_add_one_of_ne_zero (Nat.ne_of_gt deep)
      have full : limit ≤ nesting := by omega
      exact ⟨⟨fun _ => Tracks.refused full, fun _ => Tracks.refused full⟩,
        fun _ => Tracks.refused full, fun _ => Tracks.refused full⟩
  | succ room ih =>
      obtain ⟨depth, rfl⟩ := Nat.exists_eq_add_one_of_ne_zero (Nat.ne_of_gt (Nat.zero_lt_of_lt deep))
      have inner : row.RulesFollow (nesting + 1) (CursorRules.ofFuel limit fuel depth)
          (Grammar.rules limit room) :=
        ih (by omega) (by omega)
      have expressions := inner.toExpressionsFollow
      refine ⟨⟨fun _ => ?_, fun _ => ?_⟩, fun _ => ?_, fun _ => ?_⟩
      · exact Tracks.nested fun _ => assignment_follows enough expressions none
      · exact Tracks.nested fun _ => unary_follows enough expressions none
      · exact Tracks.nested fun _ => statement_tracks enough inner none
      · exact Tracks.nested fun _ => declaration_tracks enough inner none

end Row

end Lox
