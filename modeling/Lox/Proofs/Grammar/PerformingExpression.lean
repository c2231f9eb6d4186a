import Lox.Proofs.Grammar.Expression
import Lox.Proofs.Grammar.Performing
set_option autoImplicit false

/-! The rules of expressions go through the courses of derivations. At the levels of operators that
group to the left a rule is a loop, and what it has read so far is a derivation as well; so the loop
goes on from there with whatever it goes through next. -/

namespace Lox

open Lox.Parser

theorem begins_front {wanted : TokenKind → Bool} {front : List Token}
    (starts : begins wanted front = true) (back : List Token) :
    begins wanted (front ++ back) = true := by
  cases front with
  | nil => cases starts
  | cons token front => exact starts

theorem ne_nil_of_begins {wanted : TokenKind → Bool} {tokens : List Token}
    (starts : begins wanted tokens = true) : tokens ≠ [] := by
  rintro rfl
  cases starts

/-! ### What derivations start with -/

namespace DerivesExpression

variable {level : Nat} {reading : Reading Expr}

theorem starts_primary (derives : DerivesExpression level reading) :
    9 ≤ level → begins startsPrimary reading.course.tokens = true := by
  induction derives with
  | @word word value named =>
      intro _tight
      exact Literal.starts (Or.inr named)
  | literal isLiteral =>
      intro _tight
      simp [startsPrimary, isLiteral]
  | «variable» named =>
      intro _tight
      simp [startsPrimary, named]
  | grouping opens =>
      intro _tight
      simp [startsPrimary, opens]
  | call _ _ _ _ _ ih =>
      intro tight
      rw [Course.tokens_append]
      exact begins_front (ih tight) _
  | chain chains =>
      intro tight
      have own := mem_chainLevels.mp chains
      omega
  | unary | conditional | assign =>
      intro tight
      omega
  | tighter _ _ ih => exact fun tight => ih (Nat.le_succ_of_le tight)

theorem starts (derives : DerivesExpression level reading) :
    begins startsExpression reading.course.tokens = true := by
  induction derives with
  | @word word value named => exact startsExpression_of_primary (Literal.starts (Or.inr named))
  | literal isLiteral => simp [startsExpression, startsPrimary, isLiteral]
  | «variable» named => simp [startsExpression, startsPrimary, named]
  | grouping opens => simp [startsExpression, startsPrimary, opens]
  | unary operates => simp [startsExpression, operates]
  | call _ _ _ _ _ ih | chain _ _ _ _ _ ih | conditional _ _ _ _ _ ih | assign _ _ _ _ ih =>
      rw [Course.tokens_append]
      exact begins_front ih _
  | tighter _ _ ih => exact ih

theorem tokens_ne_nil (derives : DerivesExpression level reading) : reading.course.tokens ≠ [] :=
  ne_nil_of_begins derives.starts

/-- Only logical operators have a conditional on their right edge. -/
theorem closed (derives : DerivesExpression level reading) :
    4 ≤ level → reading.trails = false := by
  induction derives with
  | word | literal | «variable» | grouping | call => exact fun _tight => rfl
  | unary _ _ ih => exact fun _tight => ih (by decide)
  | chain _ _ _ _ _ _ ih => exact fun tight => ih (Nat.le_succ_of_le tight)
  | conditional | assign =>
      intro tight
      omega
  | tighter _ _ ih => exact fun tight => ih (Nat.le_succ_of_le tight)

end DerivesExpression

/-- What stands behind the derivation of an expression does nothing at the level or a tighter one. -/
def Reading.Ends (level : Nat) (reading : Reading Expr) (rest : List Token) : Prop :=
  ∀ grip, nextGrip? rest = some grip → grip < level ∧ reading.trails = false

namespace Reading

variable {level : Nat} {reading : Reading Expr} {rest : List Token}

theorem Ends.of_free (free : nextGrip? rest = none) : reading.Ends level rest := by
  intro grip next
  rw [free] at next
  cases next

/-- What goes on as far as it can is ended by nothing that would do anything. -/
theorem Ends.free (ends : reading.Ends level rest) (trails : reading.trails = true) :
    nextGrip? rest = none := by
  cases next : nextGrip? rest with
  | none => rfl
  | some grip => exact absurd (trails.symm.trans (ends grip next).2) Bool.noConfusion

theorem Ends.succ (ends : reading.Ends level rest) : reading.Ends (level + 1) rest := by
  intro grip next
  exact ⟨Nat.lt_succ_of_lt (ends grip next).1, (ends grip next).2⟩

theorem Ends.next_ne (ends : reading.Ends level rest) : nextGrip? rest ≠ some level :=
  fun next => Nat.lt_irrefl level (ends level next).1

/-- An operator of a looser level is next. -/
theorem Ends.of_operator {operator : Token} {grip : Nat} (operates : operator.kind.grip? = some grip)
    (loose : grip < level) (closed : reading.trails = false) (rest : List Token) :
    reading.Ends level (operator :: rest) := by
  intro other next
  have same : grip = other := Option.some.inj (operates.symm.trans next)
  rw [← same]
  exact ⟨loose, closed⟩

end Reading

/-! ### The rules of the levels -/

namespace Grammar

/-- The rule of each level of precedence. -/
def ruleAt (inner : InnerExpr) : (level : Nat) → Parser Expr
  | 0 => assignment inner
  | 1 => disjunction inner
  | 2 => conjunction inner
  | 3 => conditional inner
  | 4 => equality inner
  | 5 => comparison inner
  | 6 => term inner
  | 7 => factor inner
  | 8 => unary inner
  | 9 => call inner
  | _ => primary inner

/-- The tokens with which a loop of each level goes on. -/
def wantedAt : (level : Nat) → TokenKind → Bool
  | 1 => (· == .orWord)
  | 2 => (· == .andWord)
  | 4 => isEquality
  | 5 => isComparison
  | 6 => isTerm
  | 7 => isFactor
  | _ => (· == .leftParen)

/-- Another operand of a chain. -/
def operandStep (inner : InnerExpr) (level : Nat) (left : Expr) : Parser (Option Expr) := do
  match ← accept (wantedAt level) with
  | none => return none
  | some operator => return some (.chained level left operator (← ruleAt inner (level + 1)))

/-- Another list of arguments. -/
def argumentsStep (inner : InnerExpr) (callee : Expr) : Parser (Option Expr) := do
  match ← accept (· == .leftParen) with
  | none => return none
  | some _ =>
    let items ← arguments inner
    let paren ← expect .rightParen .argumentsClose
    return some (.call callee paren items)

/-- One round of the loop of a level. -/
def stepAt (inner : InnerExpr) (level : Nat) : Expr → Parser (Option Expr) :=
  if level = 9 then argumentsStep inner else operandStep inner level

/-- The levels whose rules are loops. -/
def Loops (level : Nat) : Prop :=
  level ∈ chainLevels ∨ level = 9

theorem ruleAt_loop {level : Nat} (loops : Loops level) (inner : InnerExpr) :
    ruleAt inner level = ruleAt inner (level + 1) >>= repeating (stepAt inner level) := by
  rcases loops with chains | rfl
  · simp only [chainLevels, List.mem_cons, List.not_mem_nil, or_false] at chains
    rcases chains with rfl | rfl | rfl | rfl | rfl | rfl <;> rfl
  · rfl

theorem wantedAt_iff {level : Nat} (loops : Loops level) (kind : TokenKind) :
    wantedAt level kind = true ↔ kind.grip? = some level := by
  rcases loops with chains | rfl
  · simp only [chainLevels, List.mem_cons, List.not_mem_nil, or_false] at chains
    rcases chains with rfl | rfl | rfl | rfl | rfl | rfl <;> cases kind <;> decide
  · exact leftParen_grip kind

variable {limit room functions : Nat} {rest : List Token}

/-- A loop comes to its end where the next token is none of its operators. -/
theorem stepAt_idle {level : Nat} (loops : Loops level) (inner : InnerExpr) (left : Expr)
    (other : nextGrip? rest ≠ some level) :
    Performs limit room functions (stepAt inner level left) .nothing none rest := by
  have missing : begins (wantedAt level) rest = false :=
    (begins_false_iff (wantedAt_iff loops) rest).mpr other
  unfold stepAt
  split
  · next call =>
      subst call
      exact Performs.skip_bind missing (.pure none rest)
  · exact Performs.skip_bind missing (.pure none rest)

/-! ### Items divided by commas -/

variable {α : Type} {item : Parser α} {excess : SyntaxError}

/-- Another item behind a comma. -/
def itemStep (excess : SyntaxError) (item : Parser α) (items : List α) :
    Parser (Option (List α)) := do
  match ← accept (· == .comma) with
  | none => return none
  | some _ =>
    if maxItems ≤ items.length then noteHere excess
    return some ((← item) :: items)

/-- An item is gone through in front of a comma or the closing parenthesis. -/
structure Itemized (limit room functions : Nat) (item : Parser α) (reading : Reading α) : Prop where
  starts : begins (· != .rightParen) reading.course.tokens = true
  performs : ∀ rest, begins endsItem rest = true →
    Performs limit room functions item reading.course reading.value rest

theorem itemStep_performs {reading : Reading α} (itemized : Itemized limit room functions item reading)
    {comma : Token} (divides : comma.kind = .comma) (found : List α)
    (ends : begins endsItem rest = true) :
    Performs limit room functions (itemStep excess item found)
      (.token comma ++ reading.course.numbered excess found.length)
      (some (reading.value :: found)) rest := by
  have given : Performs limit room functions (do return some ((← item) :: found)) reading.course
      (some (reading.value :: found)) rest := (itemized.performs rest ends).map
  refine Performs.accept_bind (beq_iff_eq.mpr divides) ?_
  unfold Course.numbered
  cases tokens : reading.course.tokens with
  | nil => exact absurd tokens (ne_nil_of_begins itemized.starts)
  | cons first others =>
      dsimp only
      by_cases full : maxItems ≤ found.length
      · rw [if_pos full, if_pos full]
        exact Performs.noteHere_bind tokens given
      · rw [if_neg full, if_neg full]
        exact given

theorem closing_next {wanted : TokenKind → Bool} {kind : TokenKind}
    (closes : begins (· == kind) rest = true) : begins wanted rest = wanted kind := by
  cases rest with
  | nil => cases closes
  | cons token rest =>
      rw [begins_cons, beq_iff_eq] at closes
      rw [begins_cons, closes]

theorem further_ends {before : Nat} {courses : List Course} {course : Course}
    (further : Course.Further excess before courses course)
    (closes : begins (· == .rightParen) rest = true) :
    begins endsItem (course.tokens ++ rest) = true := by
  cases further with
  | none => exact closing_next closes
  | more item divides others =>
      rw [Course.append_assoc, Course.tokens_append, Course.tokens_token, List.singleton_append,
        List.cons_append, begins_cons, divides]
      rfl

theorem further_loops {items : List (Reading α)}
    (each : ∀ reading ∈ items, Itemized limit room functions item reading)
    (closes : begins (· == .rightParen) rest = true) {course : Course} (found : List α)
    (further : Course.Further excess found.length (items.map (·.course)) course) :
    Parser.Loops limit room functions (itemStep excess item) found course
      ((items.map (·.value)).reverse ++ found) rest := by
  induction items generalizing found course with
  | nil =>
      cases further
      exact Parser.Loops.stop (Performs.skip_bind (closing_next closes) (.pure none rest))
  | cons reading items ih =>
      rw [List.forall_mem_cons] at each
      rw [List.map_cons] at further
      cases further with
      | more _ divides others =>
          have loops := ih each.2 (reading.value :: found) others
          rw [List.map_cons, List.reverse_cons, List.append_assoc, List.singleton_append]
          refine Parser.Loops.turn
            (itemStep_performs each.1 divides found (further_ends others closes)) ?_ loops
          rw [Course.tokens_append]
          exact List.cons_ne_nil _ _

/-- Items up to the closing parenthesis, or none where it is next. -/
theorem listed_performs {items : List (Reading α)}
    (each : ∀ reading ∈ items, Itemized limit room functions item reading)
    (closes : begins (· == .rightParen) rest = true) {course : Course}
    (listed : Course.Listed excess (items.map (·.course)) course) :
    Performs limit room functions (do
      if ← nextIs (· == .rightParen) then return []
      commaSeparated excess item) course (items.map (·.value)) rest := by
  refine Performs.nextIs_bind ?_
  cases items with
  | nil =>
      cases listed
      rw [Course.tokens_nothing, List.nil_append, closes]
      exact .pure [] rest
  | cons reading items =>
      rw [List.map_cons] at listed
      rw [List.forall_mem_cons] at each
      cases listed with
      | @some _ behind _ others =>
          have apart : begins (· == .rightParen) ((reading.course ++ behind).tokens ++ rest)
              = false := by
            rw [Course.tokens_append, List.append_assoc]
            exact begins_append_of_ne _ each.1.starts
          rw [apart]
          have looped := (further_loops each.2 closes [reading.value] others).repeating
          have reversed : Performs limit room functions
              (do return List.reverse (← repeating (itemStep excess item) [reading.value]))
              behind ((items.map (·.value)).reverse ++ [reading.value]).reverse rest := looped.map
          rw [List.reverse_append, List.reverse_reverse] at reversed
          exact (each.1.performs _ (further_ends others closes)).bind reversed

end Grammar

/-! ### Derivations of expressions -/

open Lox.Grammar

/-- The rule of a level goes through the course of a reading. Where the rule is a loop, it goes on
with whatever the loop goes through from there. -/
structure Performed (limit functions level : Nat) (reading : Reading Expr) : Prop where
  whole : ∀ room rest, reading.Ends level rest →
    Performs limit room functions (ruleAt (rules limit room).toInnerExpr level) reading.course
      reading.value rest
  further : Grammar.Loops level → ∀ (room : Nat) (more : Course) (last : Expr) (rest : List Token),
    Parser.Loops limit room functions (stepAt (rules limit room).toInnerExpr level) reading.value
      more last rest →
    reading.Ends (level + 1) (more.tokens ++ rest) →
    Performs limit room functions (ruleAt (rules limit room).toInnerExpr level)
      (reading.course ++ more) last rest

namespace Performed

variable {limit room functions level : Nat} {reading : Reading Expr} {rest : List Token}

/-- A loop that goes on with nothing. -/
theorem of_further (loops : Grammar.Loops level)
    (further : ∀ (room : Nat) (more : Course) (last : Expr) (rest : List Token),
      Parser.Loops limit room functions (stepAt (rules limit room).toInnerExpr level) reading.value
        more last rest →
      reading.Ends (level + 1) (more.tokens ++ rest) →
      Performs limit room functions (ruleAt (rules limit room).toInnerExpr level)
        (reading.course ++ more) last rest) : Performed limit functions level reading where
  whole := by
    intro room rest ends
    have idle := further room .nothing reading.value rest
      (.stop (stepAt_idle loops _ _ ends.next_ne)) ends.succ
    rw [Course.append_nothing] at idle
    exact idle
  further := fun _loops => further

theorem of_whole (single : ¬ Grammar.Loops level)
    (whole : ∀ room rest, reading.Ends level rest →
      Performs limit room functions (ruleAt (rules limit room).toInnerExpr level) reading.course
        reading.value rest) : Performed limit functions level reading where
  whole
  further := fun loops => absurd loops single

/-- The same expression one level of nesting deeper, in front of a token that does nothing behind
it. -/
theorem inner (performed : Performed limit functions 0 reading) (some : reading.course.tokens ≠ [])
    (free : nextGrip? rest = none) (room : Nat) :
    Performs limit room functions (rules limit room).expression reading.course.deeper reading.value
      rest :=
  Performs.deeper (fun room => (rules limit room).expression)
    (fun room => ruleAt (rules limit room).toInnerExpr 0) rfl (fun _ => rfl)
    (fun room => performed.whole room rest (.of_free free)) some room

/-- The operand of a unary operator, one level deeper. -/
theorem operand (performed : Performed limit functions 8 reading) (some : reading.course.tokens ≠ [])
    (ends : reading.Ends 8 rest) (room : Nat) :
    Performs limit room functions (rules limit room).operand reading.course.deeper reading.value
      rest :=
  Performs.deeper (fun room => (rules limit room).operand)
    (fun room => ruleAt (rules limit room).toInnerExpr 8) rfl (fun _ => rfl)
    (fun room => performed.whole room rest ends) some room

end Performed

section

variable {limit functions level : Nat}

theorem not_loops_primary : ¬ Grammar.Loops 10 := by
  simp [Grammar.Loops, chainLevels]

theorem word_performed {word : Token} {value : Literal} (named : value.word? = some word.kind) :
    Performed limit functions 10 ⟨.token word, .literal value, false⟩ := by
  refine .of_whole not_loops_primary fun room rest _ends => ?_
  cases value with
  | nil =>
      have kind : word.kind = .nilWord := (Option.some.inj named).symm
      refine Performs.skip_bind (by simp [kind]) ?_
      refine Performs.skip_bind (by simp [kind]) ?_
      exact Performs.accepted (by simp [kind]) (.pure _ rest)
  | bool truth =>
      cases truth with
      | true =>
          have kind : word.kind = .trueWord := (Option.some.inj named).symm
          refine Performs.skip_bind (by simp [kind]) ?_
          exact Performs.accepted (by simp [kind]) (.pure _ rest)
      | false =>
          have kind : word.kind = .falseWord := (Option.some.inj named).symm
          exact Performs.accepted (by simp [kind]) (.pure _ rest)
  | number | string => cases named

theorem literal_performed {token : Token} (isLiteral : isLiteral token.kind = true) :
    Performed limit functions 10 ⟨.token token, .literal token.literal, false⟩ := by
  refine .of_whole not_loops_primary fun room rest _ends => ?_
  rcases literal_kind isLiteral with kind | kind
  all_goals
    refine Performs.skip_bind (by simp [kind]) ?_
    refine Performs.skip_bind (by simp [kind]) ?_
    refine Performs.skip_bind (by simp [kind]) ?_
    exact Performs.accepted isLiteral (.pure _ rest)

theorem variable_performed {name : Token} (named : name.kind = .identifier) :
    Performed limit functions 10 ⟨.token name, .variable name, false⟩ := by
  refine .of_whole not_loops_primary fun room rest _ends => ?_
  refine Performs.skip_bind (by simp [named]) ?_
  refine Performs.skip_bind (by simp [named]) ?_
  refine Performs.skip_bind (by simp [named]) ?_
  refine Performs.skip_bind (by simp [named, Grammar.isLiteral]) ?_
  exact Performs.accepted (by simp [named]) (.pure _ rest)

/-- A token that does nothing behind an expression is next. -/
theorem nextGrip?_token {token : Token} {kind : TokenKind} (isKind : token.kind = kind)
    (free : kind.grip? = none) (behind : Course) (rest : List Token) :
    nextGrip? ((Course.token token ++ behind).tokens ++ rest) = none := by
  change token.kind.grip? = none
  rw [isKind, free]

theorem grouping_performed {opening closing : Token} {reading : Reading Expr}
    (opens : opening.kind = .leftParen) (closes : closing.kind = .rightParen)
    (some : reading.course.tokens ≠ []) (performed : Performed limit functions 0 reading) :
    Performed limit functions 10
      ⟨.token opening ++ (reading.course.deeper ++ .token closing), .grouping reading.value,
        false⟩ := by
  refine .of_whole not_loops_primary fun room rest _ends => ?_
  refine Performs.skip_bind (by simp [opens]) ?_
  refine Performs.skip_bind (by simp [opens]) ?_
  refine Performs.skip_bind (by simp [opens]) ?_
  refine Performs.skip_bind (by simp [opens, Grammar.isLiteral]) ?_
  refine Performs.skip_bind (by simp [opens]) ?_
  refine Performs.accept_bind (by simp [opens]) ?_
  refine (performed.inner some ?_ room).bind (Performs.closing closes (.pure _ rest))
  exact nextGrip?_token closes rfl .nothing rest

/-- Arguments and the parenthesis behind them. -/
theorem arguments_performs {arguments : List (Reading Expr)} {between : Course}
    (listed : Course.Listed .tooManyArguments (arguments.map (·.course.deeper)) between)
    (starts : ∀ argument ∈ arguments, begins startsExpression argument.course.tokens = true)
    (each : ∀ argument ∈ arguments, Performed limit functions 0 argument) (room : Nat)
    {rest : List Token} (closes : begins (· == .rightParen) rest = true) :
    Performs limit room functions (Grammar.arguments (rules limit room).toInnerExpr) between
      (arguments.map (·.value)) rest := by
  have itemized : ∀ item ∈ arguments.map Reading.deeper,
      Itemized limit room functions (rules limit room).expression item := by
    intro item member
    obtain ⟨argument, given, rfl⟩ := List.mem_map.mp member
    have starting := starts argument given
    constructor
    · change begins _ argument.course.deeper.tokens = true
      rw [Course.tokens_deeper]
      exact begins_ne rfl starting
    · intro rest ends
      exact (each argument given).inner (ne_nil_of_begins starting) (nextGrip?_of_endsItem ends) room
  have courses : (arguments.map Reading.deeper).map (·.course)
      = arguments.map (·.course.deeper) := by
    rw [List.map_map]
    rfl
  have values : (arguments.map Reading.deeper).map (·.value) = arguments.map (·.value) := by
    rw [List.map_map]
    rfl
  rw [← courses] at listed
  rw [← values]
  exact listed_performs itemized closes listed

theorem call_performed {callee : Reading Expr} {opening closing : Token}
    {arguments : List (Reading Expr)} {between : Course} (opens : opening.kind = .leftParen)
    (closed : callee.trails = false)
    (listed : Course.Listed .tooManyArguments (arguments.map (·.course.deeper)) between)
    (closes : closing.kind = .rightParen)
    (starts : ∀ argument ∈ arguments, begins startsExpression argument.course.tokens = true)
    (performed : Performed limit functions 9 callee)
    (each : ∀ argument ∈ arguments, Performed limit functions 0 argument) :
    Performed limit functions 9
      ⟨callee.course ++ (.token opening ++ (between ++ .token closing)),
        .call callee.value closing (arguments.map (·.value)), false⟩ := by
  have calls : Grammar.Loops 9 := Or.inr rfl
  refine .of_further calls fun room more last rest loops ends => ?_
  have turned : Performs limit room functions
      (stepAt (rules limit room).toInnerExpr 9 callee.value)
      (.token opening ++ (between ++ .token closing))
      (some (.call callee.value closing (arguments.map (·.value)))) (more.tokens ++ rest) := by
    refine Performs.accept_bind (by simp [opens]) ?_
    refine (arguments_performs listed starts each room ?_).bind (Performs.closing closes (.pure _ _))
    simp [closes]
  rw [Course.append_assoc]
  refine performed.further calls room _ last rest
    (Parser.Loops.turn turned (Course.tokens_cons_ne_nil _) loops) ?_
  exact .of_operator (by rw [opens]; rfl) (by decide) closed _

theorem unary_performed {operator : Token} {operand : Reading Expr}
    (operates : isUnary operator.kind = true) (some : operand.course.tokens ≠ [])
    (performed : Performed limit functions 8 operand) :
    Performed limit functions 8
      ⟨.token operator ++ operand.course.deeper, .unary operator operand.value,
        operand.trails⟩ := by
  refine .of_whole (by simp [Grammar.Loops, chainLevels]) fun room rest ends => ?_
  exact Performs.accept_bind operates (performed.operand some ends room).map

theorem chain_performed {left right : Reading Expr} {operator : Token}
    (chains : level ∈ chainLevels) (operates : operator.kind.grip? = some level)
    (closed : left.trails = false) (first : Performed limit functions level left)
    (second : Performed limit functions (level + 1) right) :
    Performed limit functions level
      ⟨left.course ++ (.token operator ++ right.course),
        .chained level left.value operator right.value, right.trails⟩ := by
  have chain : Grammar.Loops level := Or.inl chains
  refine .of_further chain fun room more last rest loops ends => ?_
  have turned : Performs limit room functions
      (stepAt (rules limit room).toInnerExpr level left.value) (.token operator ++ right.course)
      (some (.chained level left.value operator right.value)) (more.tokens ++ rest) := by
    have own := mem_chainLevels.mp chains
    have step : stepAt (rules limit room).toInnerExpr level
        = operandStep (rules limit room).toInnerExpr level := if_neg (by omega)
    rw [step]
    exact Performs.accept_bind ((wantedAt_iff chain _).mpr operates)
      (second.whole room _ ends).map
  rw [Course.append_assoc]
  refine first.further chain room _ last rest
    (Parser.Loops.turn turned (Course.tokens_cons_ne_nil _) loops) ?_
  exact .of_operator operates (Nat.lt_succ_self level) closed _

theorem conditional_performed {condition thenBranch elseBranch : Reading Expr}
    {question colon : Token} (closed : condition.trails = false) (asks : question.kind = .question)
    (someThen : thenBranch.course.tokens ≠ []) (divides : colon.kind = .colon)
    (someElse : elseBranch.course.tokens ≠ []) (decides : Performed limit functions 4 condition)
    (first : Performed limit functions 0 thenBranch)
    (second : Performed limit functions 0 elseBranch) :
    Performed limit functions 3
      ⟨condition.course ++ (.token question ++ (thenBranch.course.deeper ++
          (.token colon ++ elseBranch.course.deeper))),
        .conditional condition.value question thenBranch.value elseBranch.value, true⟩ := by
  refine .of_whole (by simp [Grammar.Loops, chainLevels]) fun room rest ends => ?_
  have free := ends.free rfl
  refine (decides.whole room _ ?_).bind (Performs.accept_bind (by simp [asks]) ?_)
  · exact .of_operator (by rw [asks]; rfl) (by decide) closed _
  · refine (first.inner someThen (nextGrip?_token divides rfl _ rest) room).bind ?_
    exact Performs.expect_bind divides (second.inner someElse free room).map

theorem Expr.tokens_misplaced (equals : Token) (target : Expr) :
    (target.misplaced equals).tokens = [] := by
  cases target <;> rfl

theorem assign_performed {target value : Reading Expr} {equals : Token}
    (closed : target.trails = false) (assigns : equals.kind = .equal)
    (some : value.course.tokens ≠ []) (targets : Performed limit functions 1 target)
    (performed : Performed limit functions 0 value) :
    Performed limit functions 0
      ⟨target.course ++ (.token equals ++ (value.course.deeper ++
          target.value.misplaced equals)), target.value.assigned value.value, true⟩ := by
  refine .of_whole (by simp [Grammar.Loops, chainLevels]) fun room rest ends => ?_
  have free : nextGrip? ((target.value.misplaced equals).tokens ++ rest) = none := by
    rw [Expr.tokens_misplaced, List.nil_append]
    exact ends.free rfl
  refine (targets.whole room _ ?_).bind (Performs.accept_bind (by simp [assigns]) ?_)
  · exact .of_operator (by rw [assigns]; rfl) (by decide) closed _
  · refine (performed.inner some free room).bind ?_
    cases target.value with
    | «variable» name => exact .pure _ rest
    | _ => exact Performs.noted (.pure _ rest)

theorem tighter_performed {reading : Reading Expr} (loose : level < 10)
    (primary : level = 8 → begins startsPrimary reading.course.tokens = true)
    (performed : Performed limit functions (level + 1) reading) :
    Performed limit functions level reading := by
  by_cases loops : Grammar.Loops level
  · refine .of_further loops fun room more last rest others ends => ?_
    rw [ruleAt_loop loops]
    exact (performed.whole room _ ends).bind others.repeating
  · refine .of_whole loops fun room rest ends => ?_
    have whole := performed.whole room rest ends.succ
    have others : level = 0 ∨ level = 3 ∨ level = 8 := by
      rw [Grammar.Loops, mem_chainLevels] at loops
      omega
    rcases others with rfl | rfl | rfl
    · have missing := (begins_false_iff equal_grip rest).mpr ends.next_ne
      exact whole.finish (Performs.skip_bind missing (.pure _ rest))
    · have missing := (begins_false_iff question_grip rest).mpr ends.next_ne
      exact whole.finish (Performs.skip_bind missing (.pure _ rest))
    · refine Performs.skip_bind ?_ whole
      have starting := primary rfl
      cases tokens : reading.course.tokens with
      | nil =>
          rw [tokens] at starting
          cases starting
      | cons first behind =>
          rw [tokens, begins_cons] at starting
          exact primary_not_unary starting

end

theorem DerivesExpression.performed {level : Nat} {reading : Reading Expr}
    (derives : DerivesExpression level reading) (limit functions : Nat) :
    Performed limit functions level reading := by
  induction derives with
  | word named => exact word_performed named
  | literal isLiteral => exact literal_performed isLiteral
  | «variable» named => exact variable_performed named
  | grouping opens derives closes ih =>
      exact grouping_performed opens closes derives.tokens_ne_nil ih
  | call calls opens given listed closes ih each =>
      exact call_performed opens (calls.closed (by decide)) listed closes
        (fun argument member => (given argument member).starts) ih each
  | unary operates derives ih => exact unary_performed operates derives.tokens_ne_nil ih
  | chain chains operates _ closed _ first second =>
      exact chain_performed chains operates closed first second
  | conditional decides asks first divides second ih ihFirst ihSecond =>
      exact conditional_performed (decides.closed (by decide)) asks first.tokens_ne_nil divides
        second.tokens_ne_nil ih ihFirst ihSecond
  | assign _ closed assigns derives ih ihValue =>
      exact assign_performed closed assigns derives.tokens_ne_nil ih ihValue
  | tighter loose derives ih =>
      refine tighter_performed loose ?_ ih
      rintro rfl
      exact derives.starts_primary (by decide)

end Lox
