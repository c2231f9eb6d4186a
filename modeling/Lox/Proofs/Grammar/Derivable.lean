import Lox.Proofs.Grammar.PerformingExpression
import Lox.Proofs.Grammar.Program
set_option autoImplicit false

/-! What is parsed derives. Every way to write a canonical expression or a surface program is the
course of a derivation with which nothing is wrong; so the derivations leave nothing out that is
parsed under any limit. -/

namespace Lox

namespace Course

/-- These are the tokens, and nothing is wrong. -/
structure Clean (course : Course) (tokens : List Token) : Prop where
  tokens : course.tokens = tokens
  quiet : course.reports = []

variable {first second course : Course} {front back tokens : List Token}

theorem Clean.nothing : nothing.Clean [] :=
  ⟨rfl, rfl⟩

theorem Clean.token (read : Token) : (token read).Clean [read] :=
  ⟨rfl, rfl⟩

theorem Clean.append (clean : first.Clean front) (cleanSecond : second.Clean back) :
    (first ++ second).Clean (front ++ back) where
  tokens := by rw [tokens_append, clean.tokens, cleanSecond.tokens]
  quiet := by rw [reports_append, clean.quiet, cleanSecond.quiet, List.append_nil]

/-- A token stands in front. -/
theorem Clean.behind (clean : course.Clean tokens) (read : Token) :
    (Course.token read ++ course).Clean (read :: tokens) :=
  (Clean.token read).append clean

theorem Clean.deeper (clean : course.Clean tokens) : course.deeper.Clean tokens where
  tokens := tokens_deeper.trans clean.tokens
  quiet := clean.quiet

theorem numbered_of_few {before : Nat} (excess : SyntaxError) (few : before < Grammar.maxItems)
    (item : Course) : item.numbered excess before = item := by
  unfold numbered
  split
  · rfl
  · exact if_neg (Nat.not_le_of_lt few)

end Course

/-! ### Items -/

section

variable {α β : Type} {marks : α → List Mark} {course : β → Course} {value : β → α}
variable {good : β → Prop} {excess : SyntaxError}

/-- Items behind a first one, of which each derives. -/
theorem exists_further {first : α} {items : List α}
    (each : ∀ item ∈ first :: items, ∀ tokens, Spells tokens (marks item) →
      ∃ reading, good reading ∧ (course reading).Clean tokens ∧ value reading = item)
    {before : Nat} (few : before + items.length ≤ Grammar.maxItems) {tokens : List Token}
    (spells : Spells tokens (divided ((first :: items).map marks))) :
    ∃ (reading : β) (readings : List β) (behind : Course), good reading ∧
      (∀ other ∈ readings, good other) ∧ value reading = first ∧ readings.map value = items ∧
      Course.Further excess before (readings.map course) behind ∧
      (course reading ++ behind).Clean tokens := by
  induction items generalizing first before tokens with
  | nil =>
      obtain ⟨reading, fine, clean, same⟩ := each first List.mem_cons_self tokens spells
      refine ⟨reading, [], .nothing, fine, List.forall_mem_nil _, same, rfl, .none before, ?_⟩
      rw [Course.append_nothing]
      exact clean
  | cons second items ih =>
      rw [List.length_cons] at few
      obtain ⟨derives, others⟩ := List.forall_mem_cons.mp each
      obtain ⟨front, rest, rfl, spellsFirst, spellsRest⟩ := spells_append.mp spells
      obtain ⟨comma, back, rfl, divides, spellsBack⟩ := spells_cons.mp spellsRest
      obtain ⟨reading, fine, clean, same⟩ := derives front spellsFirst
      have less : before + 1 + items.length ≤ Grammar.maxItems := by omega
      obtain ⟨next, readings, behind, fineNext, fineOthers, sameNext, sameOthers, further,
        cleanBack⟩ := ih others less spellsBack
      refine ⟨reading, next :: readings, _, fine, List.forall_mem_cons.mpr ⟨fineNext, fineOthers⟩,
        same, ?_, .more (course next) divides further, ?_⟩
      · rw [List.map_cons, sameNext, sameOthers]
      · rw [Course.numbered_of_few excess (by omega), Course.append_assoc]
        exact clean.append (cleanBack.behind comma)

/-- A list of not too many items, of which each derives. -/
theorem exists_listed {items : List α}
    (each : ∀ item ∈ items, ∀ tokens, Spells tokens (marks item) →
      ∃ reading, good reading ∧ (course reading).Clean tokens ∧ value reading = item)
    (few : items.length ≤ Grammar.maxItems) {tokens : List Token}
    (spells : Spells tokens (divided (items.map marks))) :
    ∃ (readings : List β) (between : Course), (∀ reading ∈ readings, good reading) ∧
      readings.map value = items ∧ Course.Listed excess (readings.map course) between ∧
      between.Clean tokens := by
  cases items with
  | nil =>
      rw [spells_nil.mp spells]
      exact ⟨[], .nothing, List.forall_mem_nil _, rfl, .none, .nothing⟩
  | cons first items =>
      have less : 1 + items.length ≤ Grammar.maxItems := by
        rw [Nat.add_comm]
        exact few
      obtain ⟨reading, readings, behind, fine, fineOthers, same, sameOthers, further, clean⟩ :=
        exists_further each less spells
      refine ⟨reading :: readings, _, List.forall_mem_cons.mpr ⟨fine, fineOthers⟩, ?_,
        .some (course reading) further, clean⟩
      rw [List.map_cons, same, sameOthers]

end

/-! ### Expressions -/

namespace Expr

/-- The tokens derive an expression at its level. On its right edge stands a conditional just when
the derivation goes on as far as it can, unless that is an assignment. -/
structure Derives (expression : Expr) (tokens : List Token) (reading : Reading Expr) : Prop where
  derives : DerivesExpression expression.level reading
  clean : reading.course.Clean tokens
  same : reading.value = expression
  edge : 1 ≤ expression.level → reading.trails = expression.conditionalEdge

theorem level_le (expression : Expr) : expression.level ≤ 10 := by
  have operates : ∀ kind : TokenKind, kind.grip?.getD 0 ≤ 10 := by
    intro kind
    cases kind <;> decide
  cases expression with
  | binary left operator right | logical left operator right => exact operates operator.kind
  | _ => simp [level]

namespace Derives

variable {expression left right : Expr} {tokens front back : List Token}
variable {reading first second : Reading Expr}

theorem loosened (derives : expression.Derives tokens reading) {level : Nat}
    (loose : level ≤ expression.level) : DerivesExpression level reading :=
  derives.derives.loosen loose expression.level_le

/-- Operands of an operator that groups to the left. -/
theorem chain {operator : Token} {level : Nat} (chains : level ∈ chainLevels)
    (operates : operator.kind.grip? = some level) (own : expression.level = level)
    (made : chained level left operator right = expression)
    (sameEdge : right.conditionalEdge = expression.conditionalEdge)
    (derives : left.Derives front first) (loose : level ≤ left.level)
    (closed : left.conditionalEdge = false) (derivesSecond : right.Derives back second)
    (tight : level < right.level) :
    expression.Derives (front ++ operator :: back)
      ⟨first.course ++ (.token operator ++ second.course),
        .chained level first.value operator second.value, second.trails⟩ := by
  have positive := (mem_chainLevels.mp chains).1
  have closedFirst : first.trails = false :=
    (derives.edge (Nat.le_trans positive loose)).trans closed
  constructor
  · rw [own]
    exact .chain chains operates (derives.loosened loose) closedFirst (derivesSecond.loosened tight)
  · exact derives.clean.append (derivesSecond.clean.behind operator)
  · change chained level first.value operator second.value = expression
    rw [derives.same, derivesSecond.same, made]
  · intro _positive
    exact (derivesSecond.edge (Nat.le_trans positive (Nat.le_of_lt tight))).trans sameEdge

end Derives

theorem Canonical.derives {expression : Expr} (canonical : expression.Canonical) :
    ∀ tokens, Spells tokens expression.marks → ∃ reading, expression.Derives tokens reading := by
  induction canonical with
  | literal value =>
      intro tokens spells
      obtain ⟨token, rfl, fits⟩ := spells_singleton.mp spells
      rcases fits with ⟨isLiteral, rfl⟩ | word
      · exact ⟨_, .literal isLiteral, .token token, rfl, fun _ => rfl⟩
      · exact ⟨_, .word word, .token token, rfl, fun _ => rfl⟩
  | «variable» named =>
      intro tokens spells
      obtain ⟨token, rfl, rfl⟩ := spells_singleton.mp spells
      exact ⟨_, .variable named, .token token, rfl, fun _ => rfl⟩
  | grouping canonical ih =>
      intro tokens spells
      obtain ⟨opening, rest, rfl, opens, spellsRest⟩ := spells_cons.mp spells
      obtain ⟨front, back, rfl, spellsInner, spellsBack⟩ := spells_append.mp spellsRest
      obtain ⟨closing, rfl, closes⟩ := spells_singleton.mp spellsBack
      obtain ⟨reading, inner⟩ := ih front spellsInner
      exact ⟨_, .grouping opens (inner.loosened (Nat.zero_le _)) closes,
        (inner.clean.deeper.append (.token closing)).behind opening,
        congrArg Expr.grouping inner.same, fun _ => rfl⟩
  | @call callee paren arguments calls tight closes few given ih each =>
      intro tokens spells
      obtain ⟨front, rest, rfl, spellsCallee, spellsRest⟩ := spells_append.mp spells
      obtain ⟨opening, behind, rfl, opens, spellsBehind⟩ := spells_cons.mp spellsRest
      obtain ⟨middle, back, rfl, spellsItems, spellsBack⟩ := spells_append.mp spellsBehind
      obtain ⟨closing, rfl, rfl⟩ := spells_singleton.mp spellsBack
      obtain ⟨reading, derives⟩ := ih front spellsCallee
      rw [marksAll_eq] at spellsItems
      obtain ⟨readings, between, fine, same, listed, clean⟩ := exists_listed
        (fun argument member tokens spells => by
          obtain ⟨reading, inner⟩ := each argument member tokens spells
          exact ⟨reading, inner.loosened (Nat.zero_le _), inner.clean.deeper, inner.same⟩)
        few spellsItems
      refine ⟨_, .call (derives.loosened tight) opens fine listed closes,
        derives.clean.append ((clean.append (.token closing)).behind opening), ?_, fun _ => rfl⟩
      change Expr.call reading.value closing (readings.map (·.value)) = _
      rw [derives.same, same]
  | @unary operator operand operates canonical tight ih =>
      intro tokens spells
      obtain ⟨token, rest, rfl, rfl, spellsRest⟩ := spells_cons.mp spells
      obtain ⟨reading, inner⟩ := ih rest spellsRest
      have derives := inner.loosened tight
      exact ⟨_, .unary operates derives, inner.clean.deeper.behind token,
        congrArg (Expr.unary token) inner.same, fun _ => derives.closed (by decide)⟩
  | @binary left right operator level operates lowest highest first leftTight second rightTight ih
      ihSecond =>
      intro tokens spells
      obtain ⟨front, rest, rfl, spellsFirst, spellsRest⟩ := spells_append.mp spells
      obtain ⟨token, back, rfl, rfl, spellsSecond⟩ := spells_cons.mp spellsRest
      obtain ⟨reading, derives⟩ := ih front spellsFirst
      obtain ⟨readingSecond, derivesSecond⟩ := ihSecond back spellsSecond
      have own : (Expr.binary left token right).level = level := by
        rw [Expr.level, operates]
        rfl
      have made : chained level left token right = .binary left token right := by
        rw [chained, if_neg (by omega)]
      have chains : level ∈ chainLevels := mem_chainLevels.mpr (by omega)
      exact ⟨_, derives.chain chains operates own made (second.edge_eq_false (by omega)) leftTight
        (first.edge_eq_false (by omega)) derivesSecond rightTight⟩
  | @conditional condition thenBranch elseBranch question asks decides tight first second ih ihFirst
      ihSecond =>
      intro tokens spells
      obtain ⟨front, rest, rfl, spellsCondition, spellsRest⟩ := spells_append.mp spells
      obtain ⟨token, behind, rfl, rfl, spellsBehind⟩ := spells_cons.mp spellsRest
      obtain ⟨middle, others, rfl, spellsFirst, spellsOthers⟩ := spells_append.mp spellsBehind
      obtain ⟨colon, back, rfl, divides, spellsSecond⟩ := spells_cons.mp spellsOthers
      obtain ⟨reading, derives⟩ := ih front spellsCondition
      obtain ⟨readingFirst, derivesFirst⟩ := ihFirst middle spellsFirst
      obtain ⟨readingSecond, derivesSecond⟩ := ihSecond back spellsSecond
      refine ⟨_, .conditional (derives.loosened tight) asks (derivesFirst.loosened (Nat.zero_le _))
        divides (derivesSecond.loosened (Nat.zero_le _)),
        derives.clean.append ((derivesFirst.clean.deeper.append
          (derivesSecond.clean.deeper.behind colon)).behind token), ?_, fun _ => rfl⟩
      change Expr.conditional reading.value token readingFirst.value readingSecond.value = _
      rw [derives.same, derivesFirst.same, derivesSecond.same]
  | @logical left right operator level operates lowest highest first leftTight second rightTight edge
      ih ihSecond =>
      intro tokens spells
      obtain ⟨front, rest, rfl, spellsFirst, spellsRest⟩ := spells_append.mp spells
      obtain ⟨token, back, rfl, rfl, spellsSecond⟩ := spells_cons.mp spellsRest
      obtain ⟨reading, derives⟩ := ih front spellsFirst
      obtain ⟨readingSecond, derivesSecond⟩ := ihSecond back spellsSecond
      have own : (Expr.logical left token right).level = level := by
        rw [Expr.level, operates]
        rfl
      have made : chained level left token right = .logical left token right := by
        rw [chained, if_pos highest]
      have chains : level ∈ chainLevels := mem_chainLevels.mpr (by omega)
      exact ⟨_, derives.chain chains operates own made rfl leftTight edge derivesSecond rightTight⟩
  | @assign name value named canonical ih =>
      intro tokens spells
      obtain ⟨target, rest, rfl, rfl, spellsRest⟩ := spells_cons.mp spells
      obtain ⟨equals, back, rfl, assigns, spellsValue⟩ := spells_cons.mp spellsRest
      obtain ⟨reading, derives⟩ := ih back spellsValue
      have targets : DerivesExpression 1 ⟨.token target, .variable target, false⟩ :=
        (DerivesExpression.variable named).loosen (by decide) (Nat.le_refl 10)
      refine ⟨_, .assign targets rfl assigns (derives.loosened (Nat.zero_le _)), ?_,
        congrArg (Expr.assign target) derives.same, fun positive => absurd positive (Nat.not_lt_zero 0)⟩
      change (Course.token target ++ (Course.token equals ++ (reading.course.deeper ++
        Course.nothing))).Clean (target :: equals :: back)
      rw [Course.append_nothing]
      exact (derives.clean.deeper.behind equals).behind target

end Expr

/-! ### Clauses -/

theorem Expr.Canonical.expression {value : Expr} (canonical : value.Canonical) {tokens : List Token}
    (spells : Spells tokens value.marks) :
    ∃ reading, DerivesExpression 0 reading ∧ reading.course.deeper.Clean tokens ∧
      reading.value = value := by
  obtain ⟨reading, derives⟩ := canonical.derives tokens spells
  exact ⟨reading, derives.loosened (Nat.zero_le _), derives.clean.deeper, derives.same⟩

section

variable {tokens : List Token}

theorem exists_optional {value : Option Expr} (canonical : ∀ given ∈ value, given.Canonical)
    (spells : Spells tokens (Expr.marks? value)) :
    ∃ reading, DerivesOptional reading ∧ reading.course.Clean tokens ∧ reading.value = value := by
  cases value with
  | none =>
      rw [spells_nil.mp spells]
      exact ⟨_, .none, .nothing, rfl⟩
  | some value =>
      obtain ⟨reading, derives, clean, same⟩ := (canonical value rfl).expression spells
      exact ⟨_, .some derives, clean, congrArg some same⟩

theorem exists_initialValue {value : Option Expr} (canonical : ∀ given ∈ value, given.Canonical)
    (spells : Spells tokens (Clause.initializerMarks value)) :
    ∃ reading, DerivesInitialValue reading ∧ reading.course.Clean tokens ∧
      reading.value = value := by
  cases value with
  | none =>
      rw [spells_nil.mp spells]
      exact ⟨_, .none, .nothing, rfl⟩
  | some value =>
      obtain ⟨equals, rest, rfl, assigns, spellsValue⟩ := spells_cons.mp spells
      obtain ⟨reading, derives, clean, same⟩ := (canonical value rfl).expression spellsValue
      exact ⟨_, .some assigns derives, clean.behind equals, congrArg some same⟩

theorem exists_variable {name : Token} {initializer : Option Expr}
    (canonical : (Clause.variable name initializer).Canonical)
    (spells : Spells tokens (Clause.variable name initializer).marks) :
    ∃ reading, DerivesVariable reading ∧ reading.course.Clean tokens ∧
      reading.value = .variable name initializer ∧ reading.trails = false := by
  obtain ⟨named, given⟩ := canonical
  obtain ⟨word, rest, rfl, declares, spellsName⟩ := spells_cons.mp spells
  obtain ⟨name, behind, rfl, rfl, spellsValue⟩ := spells_cons.mp spellsName
  obtain ⟨front, back, rfl, spellsFront, spellsEnd⟩ := spells_append.mp spellsValue
  obtain ⟨semicolon, rfl, ends⟩ := spells_singleton.mp spellsEnd
  obtain ⟨reading, derives, clean, same⟩ := exists_initialValue given spellsFront
  exact ⟨_, .variable declares named derives ends,
    ((clean.append (.token semicolon)).behind name).behind word,
    congrArg (Stmt.variable name) same, rfl⟩

theorem exists_plain {value : Expr} (canonical : value.Canonical)
    (spells : Spells tokens (Clause.expression value).marks) :
    ∃ reading, DerivesPlain reading ∧ reading.course.Clean tokens ∧
      reading.value = .expression value ∧ reading.trails = false := by
  obtain ⟨front, back, rfl, spellsFront, spellsEnd⟩ := spells_append.mp spells
  obtain ⟨semicolon, rfl, ends⟩ := spells_singleton.mp spellsEnd
  obtain ⟨reading, derives, clean, same⟩ := canonical.expression spellsFront
  exact ⟨_, .expression derives ends, clean.append (.token semicolon),
    congrArg Stmt.expression same, rfl⟩

theorem exists_initializer {initializer : Option Clause}
    (canonical : ∀ only ∈ initializer, only.Canonical)
    (spells : Spells tokens (Clause.marks? initializer)) :
    ∃ reading, DerivesInitializer reading ∧ reading.course.Clean tokens ∧
      reading.value = initializer.map Clause.desugar := by
  cases initializer with
  | none =>
      obtain ⟨semicolon, rfl, ends⟩ := spells_singleton.mp spells
      exact ⟨_, .none ends, .token semicolon, rfl⟩
  | some only =>
      have given := canonical only rfl
      cases only with
      | «variable» name value =>
          obtain ⟨reading, derives, clean, same, _closed⟩ := exists_variable given spells
          exact ⟨_, .variable derives, clean, congrArg some same⟩
      | expression value =>
          obtain ⟨reading, derives, clean, same, _closed⟩ := exists_plain given spells
          exact ⟨_, .expression derives, clean, congrArg some same⟩

end

/-! ### Statements -/

namespace Surface

/-- The rank of the rule that reads a statement. -/
def rank (statement : Surface) : Rank :=
  if statement.isStatement then .statement else .declaration

/-- The tokens derive a statement, which goes on as far as it can just when it has an `if` without an
`else` on its right edge. -/
structure Derives (statement : Surface) (functions : Nat) (tokens : List Token)
    (reading : Reading Stmt) : Prop where
  derives : DerivesStatement functions statement.rank reading
  clean : reading.course.Clean tokens
  same : reading.value = statement.desugar
  edge : reading.trails = statement.opensElse

variable {statement : Surface} {functions : Nat} {tokens : List Token} {reading : Reading Stmt}

theorem Derives.states (derives : statement.Derives functions tokens reading)
    (states : statement.isStatement = true) : DerivesStatement functions .statement reading := by
  have whole := derives.derives
  rw [rank, if_pos states] at whole
  exact whole

/-- A statement fills a declaration. -/
theorem Derives.declares (derives : statement.Derives functions tokens reading) :
    ∃ item, DerivesStatement functions .declaration item ∧ item.course.deeper.Clean tokens ∧
      item.value = statement.desugar := by
  cases states : statement.isStatement with
  | true =>
      exact ⟨_, .stated (derives.states states), derives.clean.deeper.deeper, derives.same⟩
  | false =>
      have whole := derives.derives
      rw [rank, states] at whole
      exact ⟨reading, whole, derives.clean.deeper, derives.same⟩

theorem exists_declarations {statements : List Surface}
    (each : ∀ statement ∈ statements, ∀ tokens, Spells tokens statement.marks →
      ∃ reading, statement.Derives functions tokens reading)
    (spells : Spells tokens (marksAll statements)) :
    ∃ items : List (Reading Stmt), (∀ item ∈ items, DerivesStatement functions .declaration item) ∧
      (Course.declarations items).Clean tokens ∧ items.map (·.value) = desugarAll statements := by
  induction statements generalizing tokens with
  | nil =>
      rw [spells_nil.mp spells]
      exact ⟨[], List.forall_mem_nil _, .nothing, rfl⟩
  | cons statement statements ih =>
      obtain ⟨derives, others⟩ := List.forall_mem_cons.mp each
      obtain ⟨front, back, rfl, spellsFirst, spellsOthers⟩ := spells_append.mp spells
      obtain ⟨reading, first⟩ := derives front spellsFirst
      obtain ⟨item, declares, clean, same⟩ := first.declares
      obtain ⟨items, given, cleanOthers, sameOthers⟩ := ih others spellsOthers
      refine ⟨item :: items, List.forall_mem_cons.mpr ⟨declares, given⟩, clean.append cleanOthers, ?_⟩
      rw [List.map_cons, same, sameOthers]
      rfl

end Surface

/-- A condition in parentheses with something behind it. -/
theorem exists_condition {condition : Expr} (canonical : condition.Canonical) {tokens : List Token}
    {marks : List Mark}
    (spells : Spells tokens (.kind .leftParen :: (condition.marks ++ .kind .rightParen :: marks))) :
    ∃ opening reading closing front back, tokens = opening :: (front ++ closing :: back) ∧
      opening.kind = .leftParen ∧ DerivesExpression 0 reading ∧ reading.course.deeper.Clean front ∧
      reading.value = condition ∧ closing.kind = .rightParen ∧ Spells back marks := by
  obtain ⟨opening, rest, rfl, opens, spellsRest⟩ := spells_cons.mp spells
  obtain ⟨front, behind, rfl, spellsCondition, spellsBehind⟩ := spells_append.mp spellsRest
  obtain ⟨closing, back, rfl, closes, spellsBack⟩ := spells_cons.mp spellsBehind
  obtain ⟨reading, derives, clean, same⟩ := canonical.expression spellsCondition
  exact ⟨opening, reading, closing, front, back, rfl, opens, derives, clean, same, closes,
    spellsBack⟩

theorem Surface.Formed.derives {functions : Nat} {statement : Surface}
    (formed : statement.Formed functions) :
    ∀ tokens, Spells tokens statement.marks → ∃ reading, statement.Derives functions tokens reading := by
  induction formed with
  | @clause functions only canonical =>
      intro tokens spells
      cases only with
      | «variable» name initializer =>
          obtain ⟨reading, derives, clean, same, closed⟩ := exists_variable canonical spells
          exact ⟨reading, .variable derives, clean, same, closed⟩
      | expression value =>
          obtain ⟨reading, derives, clean, same, closed⟩ := exists_plain canonical spells
          exact ⟨reading, .expression derives, clean, same, closed⟩
  | print canonical =>
      intro tokens spells
      obtain ⟨word, rest, rfl, prints, spellsRest⟩ := spells_cons.mp spells
      obtain ⟨front, back, rfl, spellsValue, spellsEnd⟩ := spells_append.mp spellsRest
      obtain ⟨semicolon, rfl, ends⟩ := spells_singleton.mp spellsEnd
      obtain ⟨reading, derives, clean, same⟩ := canonical.expression spellsValue
      exact ⟨_, .print prints derives ends, (clean.append (.token semicolon)).behind word,
        congrArg Stmt.print same, rfl⟩
  | @returning functions keyword value inside returns canonical =>
      intro tokens spells
      obtain ⟨word, rest, rfl, rfl, spellsRest⟩ := spells_cons.mp spells
      obtain ⟨front, back, rfl, spellsValue, spellsEnd⟩ := spells_append.mp spellsRest
      obtain ⟨semicolon, rfl, ends⟩ := spells_singleton.mp spellsEnd
      obtain ⟨reading, derives, clean, same⟩ := exists_optional canonical spellsValue
      obtain ⟨outer, rfl⟩ := Nat.exists_eq_add_one_of_ne_zero (Nat.ne_of_gt inside)
      exact ⟨_, .returning returns derives ends, (clean.append (.token semicolon)).behind word,
        congrArg (Stmt.returning word) same, rfl⟩
  | @function functions name parameters statements named few allNamed formed ih =>
      intro tokens spells
      obtain ⟨word, rest, rfl, declares, spellsName⟩ := spells_cons.mp spells
      obtain ⟨name, rest, rfl, rfl, spellsOpening⟩ := spells_cons.mp spellsName
      obtain ⟨opening, rest, rfl, opens, spellsItems⟩ := spells_cons.mp spellsOpening
      obtain ⟨front, rest, rfl, spellsFront, spellsClosing⟩ := spells_append.mp spellsItems
      obtain ⟨closing, rest, rfl, closes, spellsBrace⟩ := spells_cons.mp spellsClosing
      obtain ⟨brace, rest, rfl, begins, spellsBody⟩ := spells_cons.mp spellsBrace
      obtain ⟨body, back, rfl, spellsAll, spellsEnd⟩ := spells_append.mp spellsBody
      obtain ⟨ending, rfl, ends⟩ := spells_singleton.mp spellsEnd
      obtain ⟨readings, between, takes, same, listed, clean⟩ := exists_listed
        (fun parameter member tokens spells => by
          obtain ⟨token, rfl, rfl⟩ := spells_singleton.mp spells
          exact ⟨token, allNamed token member, Course.Clean.token token, rfl⟩)
        few spellsFront
      obtain ⟨items, given, cleanBody, sameBody⟩ := Surface.exists_declarations ih spellsAll
      refine ⟨_, .function declares named opens takes listed closes begins given ends,
        (((clean.append (((cleanBody.append (.token ending)).behind brace).behind
          closing)).behind opening).behind name).behind word, ?_, rfl⟩
      change Stmt.function 0 name readings (items.map (·.value)) = _
      rw [List.map_id'] at same
      rw [same, sameBody]
      rfl
  | block formed ih =>
      intro tokens spells
      obtain ⟨opening, rest, rfl, opens, spellsRest⟩ := spells_cons.mp spells
      obtain ⟨front, back, rfl, spellsAll, spellsEnd⟩ := spells_append.mp spellsRest
      obtain ⟨closing, rfl, closes⟩ := spells_singleton.mp spellsEnd
      obtain ⟨items, given, clean, same⟩ := Surface.exists_declarations ih spellsAll
      exact ⟨_, .block opens given closes, (clean.append (.token closing)).behind opening,
        congrArg Stmt.block same, rfl⟩
  | branch canonical states formed ih =>
      intro tokens spells
      obtain ⟨word, rest, rfl, decides, spellsRest⟩ := spells_cons.mp spells
      obtain ⟨opening, condition, closing, front, back, rfl, opens, derives, clean, same, closes,
        spellsBranch⟩ := exists_condition canonical spellsRest
      obtain ⟨reading, first⟩ := ih back spellsBranch
      refine ⟨_, .branch decides opens derives closes (first.states states),
        ((clean.append (first.clean.deeper.behind closing)).behind opening).behind word, ?_, rfl⟩
      change Stmt.branch condition.value reading.value none = _
      rw [same, first.same]
      rfl
  | choice canonical states closed formed statesElse formedElse ih ihElse =>
      intro tokens spells
      obtain ⟨word, rest, rfl, decides, spellsRest⟩ := spells_cons.mp spells
      obtain ⟨opening, condition, closing, front, back, rfl, opens, derives, clean, same, closes,
        spellsBranches⟩ := exists_condition canonical spellsRest
      obtain ⟨middle, others, rfl, spellsFirst, spellsOthers⟩ := spells_append.mp spellsBranches
      obtain ⟨otherwise, last, rfl, divides, spellsSecond⟩ := spells_cons.mp spellsOthers
      obtain ⟨reading, first⟩ := ih middle spellsFirst
      obtain ⟨readingElse, second⟩ := ihElse last spellsSecond
      refine ⟨_, .choice decides opens derives closes (first.states states)
        (first.edge.trans closed) divides (second.states statesElse),
        ((clean.append ((first.clean.deeper.append
          (second.clean.deeper.behind otherwise)).behind closing)).behind opening).behind word,
        ?_, second.edge⟩
      change Stmt.branch condition.value reading.value (some readingElse.value) = _
      rw [same, first.same, second.same]
      rfl
  | loop canonical states formed ih =>
      intro tokens spells
      obtain ⟨word, rest, rfl, repeats, spellsRest⟩ := spells_cons.mp spells
      obtain ⟨opening, condition, closing, front, back, rfl, opens, derives, clean, same, closes,
        spellsBody⟩ := exists_condition canonical spellsRest
      obtain ⟨reading, body⟩ := ih back spellsBody
      refine ⟨_, .loop repeats opens derives closes (body.states states),
        ((clean.append (body.clean.deeper.behind closing)).behind opening).behind word, ?_,
        body.edge⟩
      change Stmt.loop condition.value reading.value = _
      rw [same, body.same]
      rfl
  | forLoop first canonical last states formed ih =>
      intro tokens spells
      obtain ⟨word, rest, rfl, repeats, spellsOpening⟩ := spells_cons.mp spells
      obtain ⟨opening, rest, rfl, opens, spellsClauses⟩ := spells_cons.mp spellsOpening
      obtain ⟨front, rest, rfl, spellsFirst, spellsRest⟩ := spells_append.mp spellsClauses
      obtain ⟨middle, rest, rfl, spellsCondition, spellsDivided⟩ := spells_append.mp spellsRest
      obtain ⟨semicolon, rest, rfl, divides, spellsLast⟩ := spells_cons.mp spellsDivided
      obtain ⟨back, rest, rfl, spellsIncrement, spellsClosing⟩ := spells_append.mp spellsLast
      obtain ⟨closing, rest, rfl, closes, spellsBody⟩ := spells_cons.mp spellsClosing
      obtain ⟨initializer, begins, cleanFirst, sameFirst⟩ := exists_initializer first spellsFirst
      obtain ⟨condition, decides, cleanCondition, sameCondition⟩ :=
        exists_optional canonical spellsCondition
      obtain ⟨increment, advances, cleanLast, sameLast⟩ := exists_optional last spellsIncrement
      obtain ⟨reading, body⟩ := ih rest spellsBody
      refine ⟨_, .forLoop repeats opens begins decides divides advances closes (body.states states),
        ((cleanFirst.append (cleanCondition.append ((cleanLast.append
          (body.clean.deeper.behind closing)).behind semicolon))).behind opening).behind word, ?_,
        body.edge⟩
      change Stmt.forLoop initializer.value condition.value increment.value reading.value = _
      rw [sameFirst, sameCondition, sameLast, body.same]
      rfl

/-! ### What is parsed -/

/-- Whatever is parsed under a limit derives, and nothing is wrong. -/
theorem exists_program {limit : Nat} {tokens : List Token} {statements : List Stmt}
    (parsed : Grammar.parseProgramWithin limit tokens = .ok statements) :
    ∃ reading, DerivesProgram reading ∧
      reading.course.Clean (tokens.takeWhile (·.kind != .endOfInput)) ∧
      reading.value = statements := by
  obtain ⟨program, holds, spells, rfl⟩ :=
    (parseProgramWithin_iff limit tokens statements).mp parsed
  obtain ⟨items, given, clean, same⟩ := Surface.exists_declarations
    (fun statement member => (holds statement member).1.derives) spells
  exact ⟨_, .program given, clean, same⟩

/-- A sequence goes on with the expressions behind it. -/
theorem exists_longer {room : Nat} {value last : Expr} {front back rest : List Token}
    (rounds : lastOf room value last back rest) {reading : Reading Expr}
    (derives : DerivesSequence reading) (clean : reading.course.Clean front)
    (same : reading.value = value) :
    ∃ longer, DerivesSequence longer ∧ longer.course.Clean (front ++ back) ∧
      longer.value = last := by
  unfold lastOf at rounds
  induction rounds generalizing front reading with
  | stop =>
      rw [List.append_nil]
      exact ⟨reading, derives, clean, same⟩
  | @more value middle final used behind rest stepped others ih =>
      rcases stepped with ⟨comma, tokens, rfl, divides, expression, stands, found⟩ |
        ⟨_other, none, _nothing⟩
      · cases found
        obtain ⟨inner, derivesLast, cleanLast, sameLast⟩ :=
          stands.canonical.expression stands.spells
        have longer := DerivesSequence.more derives (beq_iff_eq.mp divides) derivesLast
        rw [← List.append_assoc]
        exact ih longer (clean.append (cleanLast.behind comma)) sameLast
      · cases none

theorem exists_sequence {limit : Nat} {tokens : List Token} {expression : Expr}
    (parsed : Grammar.parseExpressionWithin limit tokens = .ok expression) :
    ∃ reading, DerivesSequence reading ∧
      reading.course.Clean (tokens.takeWhile (·.kind != .endOfInput)) ∧
      reading.value = expression := by
  obtain ⟨first, front, back, split, stands, rounds⟩ :=
    (parseExpressionWithin_iff limit tokens expression).mp parsed
  obtain ⟨inner, derives, clean, same⟩ := stands.canonical.expression stands.spells
  rw [split]
  exact exists_longer rounds (.single derives) clean same

end Lox
