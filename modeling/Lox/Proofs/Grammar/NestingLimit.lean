import Lox.Proofs.Grammar.Derivable
import Lox.Proofs.Grammar.PerformingProgram
set_option autoImplicit false

/-! The limit of nesting. A derivation without an error needs some number of levels. Under a limit
that allows them the tokens are parsed as they are without one; under any other the first thing noted
is too much nesting, at the first token that needs a level more. Operators, items and declarations
that stand side by side need no level but those of their parts. -/

namespace Lox

open Lox.Parser Lox.Grammar

/-- The value without a limit, which is that under every limit from some one on. -/
def Unlimited {α : Type} (parse : (limit : Nat) → Except (List SyntaxReport) α) (value : α) : Prop :=
  ∃ enough, ∀ limit, enough ≤ limit → parse limit = .ok value

/-- The levels that a reading needs decide what comes of it under a limit. -/
structure Reading.Limited {α : Type} (reading : Reading α) (limit : Nat)
    (outcome : Except (List SyntaxReport) α) : Prop where
  within : reading.course.levels ≤ limit → outcome = .ok reading.value
  beyond : limit < reading.course.levels → ∃ token others,
    reading.course.beyond? limit = some token ∧
      outcome = .error (⟨token, .tooMuchNesting⟩ :: others)

theorem Reading.unlimited {α : Type} {reading : Reading α}
    {parse : (limit : Nat) → Except (List SyntaxReport) α}
    (limited : ∀ limit, reading.Limited limit (parse limit)) : Unlimited parse reading.value :=
  ⟨reading.course.levels, fun limit => (limited limit).within⟩

section

variable {tokens : List Token}

theorem DerivesProgram.limited {reading : Reading (List Stmt)} (derives : DerivesProgram reading)
    (clean : reading.course.Clean (tokens.takeWhile (·.kind != .endOfInput))) (limit : Nat) :
    reading.Limited limit (parseProgramWithin limit tokens) := by
  obtain ⟨reads, quiet⟩ := clean
  cases derives with
  | @program items given =>
      constructor
      · intro enough
        have within := Course.beyond?_eq_none_iff.mpr enough
        have turns : Turns (rules limit limit) (.ofTokens tokens) _ _ :=
          turns_within given within reads.symm rfl rfl
        unfold parseProgramWithin
        rw [program_of_turns turns, quiet]
        rfl
      · intro deep
        obtain ⟨token, beyond⟩ := Course.exists_beyond deep
        obtain ⟨statements, noted, after, turns, told⟩ :
            ∃ statements noted after, Turns (rules limit limit) (.ofTokens tokens) statements after ∧
              after.reports = [] ++ ⟨token, .tooMuchNesting⟩ :: noted :=
          turns_beyond given beyond quiet reads.symm rfl rfl
        refine ⟨token, noted, beyond, ?_⟩
        unfold parseProgramWithin
        rw [program_of_turns turns]
        have noting : ¬ after.reports.isEmpty := by
          rw [told]
          exact Bool.false_ne_true
        exact (if_neg noting).trans (congrArg Except.error told)

theorem DerivesSequence.limited {reading : Reading Expr} (derives : DerivesSequence reading)
    (clean : reading.course.Clean (tokens.takeWhile (·.kind != .endOfInput))) (limit : Nat) :
    reading.Limited limit (parseExpressionWithin limit tokens) := by
  obtain ⟨reads, quiet⟩ := clean
  have meets : Meets limit reading.course reading.value [] (.ofTokens tokens)
      (expressions (rules limit limit).toInnerExpr (.ofTokens tokens)) := by
    refine sequence_performs derives (.ofTokens tokens) ?_ (Nat.zero_add limit) rfl
    rw [List.append_nil]
    exact reads.symm
  unfold Meets at meets
  constructor
  · intro enough
    rw [Course.beyond?_eq_none_iff.mpr enough, quiet] at meets
    unfold parseExpressionWithin
    rw [meets]
    rfl
  · intro deep
    obtain ⟨token, beyond⟩ := Course.exists_beyond deep
    rw [beyond] at meets
    obtain ⟨after, failed, kept⟩ := meets quiet
    refine ⟨token, [], beyond, ?_⟩
    unfold parseExpressionWithin
    rw [failed]
    exact congrArg (fun noted => Except.error (noted ++ [⟨token, .tooMuchNesting⟩])) kept

/-- Without a limit just those programs are parsed that derive. -/
theorem unlimited_program_iff (statements : List Stmt) :
    Unlimited (parseProgramWithin · tokens) statements ↔
      ∃ reading, DerivesProgram reading ∧
        reading.course.Clean (tokens.takeWhile (·.kind != .endOfInput)) ∧
        reading.value = statements := by
  constructor
  · intro unlimited
    obtain ⟨enough, parsed⟩ := unlimited
    exact exists_program (parsed enough (Nat.le_refl enough))
  · intro derived
    obtain ⟨reading, derives, clean, rfl⟩ := derived
    exact Reading.unlimited (derives.limited clean)

theorem unlimited_sequence_iff (expression : Expr) :
    Unlimited (parseExpressionWithin · tokens) expression ↔
      ∃ reading, DerivesSequence reading ∧
        reading.course.Clean (tokens.takeWhile (·.kind != .endOfInput)) ∧
        reading.value = expression := by
  constructor
  · intro unlimited
    obtain ⟨enough, parsed⟩ := unlimited
    exact exists_sequence (parsed enough (Nat.le_refl enough))
  · intro derived
    obtain ⟨reading, derives, clean, rfl⟩ := derived
    exact Reading.unlimited (derives.limited clean)

end

/-! ### Flat sequences -/

namespace Course

/-- A course needs no level but those of its parts. -/
def Flat (course : Course) (parts : List Course) : Prop :=
  ∀ room, course.levels ≤ room ↔ ∀ part ∈ parts, part.levels ≤ room

variable {room : Nat} {first second course : Course}

theorem levels_append_le :
    (first ++ second).levels ≤ room ↔ first.levels ≤ room ∧ second.levels ≤ room := by
  simp only [levels_le_iff, spots_append, List.forall_mem_append]

theorem levels_append : (first ++ second).levels = max first.levels second.levels :=
  Nat.le_antisymm (levels_append_le.mpr ⟨Nat.le_max_left _ _, Nat.le_max_right _ _⟩)
    (Nat.max_le.mpr (levels_append_le.mp (Nat.le_refl _)))

theorem levels_deeper_le : course.deeper.levels ≤ room + 1 ↔ course.levels ≤ room := by
  rw [levels_le_iff, levels_le_iff]
  simp [deeper]

theorem levels_deeper (some : course.tokens ≠ []) : course.deeper.levels = course.levels + 1 := by
  refine Nat.le_antisymm (levels_deeper_le.mpr (Nat.le_refl _)) ?_
  cases needed : course.deeper.levels with
  | zero =>
      have none := beyond?_eq_none_iff.mpr (Nat.le_of_eq needed)
      rw [beyond?_deeper_zero] at none
      exact absurd (List.head?_eq_none_iff.mp none) some
  | succ room => exact Nat.succ_le_succ (levels_deeper_le.mp (Nat.le_of_eq needed))

theorem levels_token (read : Token) : (token read).levels ≤ room :=
  Nat.zero_le room

theorem levels_numbered (excess : SyntaxError) (before : Nat) (item : Course) :
    (item.numbered excess before).levels = item.levels := by
  unfold numbered
  split
  · rfl
  · split <;> rfl

theorem all_flat (parts : List Course) : (all parts).Flat parts := by
  intro room
  induction parts with
  | nil => simp [all, nothing, levels]
  | cons part parts ih =>
      change (part ++ all parts).levels ≤ room ↔ _
      rw [levels_append_le, ih, List.forall_mem_cons]

theorem Further.flat {excess : SyntaxError} {before : Nat} {items : List Course} {course : Course}
    (further : Further excess before items course) : course.Flat items := by
  intro room
  induction further with
  | none => simp [nothing, levels]
  | more item divides others ih =>
      rw [levels_append_le, levels_append_le, levels_numbered, ih, List.forall_mem_cons]
      simp only [levels_token, true_and]

theorem Listed.flat {excess : SyntaxError} {items : List Course} {course : Course}
    (listed : Listed excess items course) : course.Flat items := by
  intro room
  cases listed with
  | none => simp [nothing, levels]
  | some first others => rw [levels_append_le, others.flat, List.forall_mem_cons]

end Course

/-- Operands of one level behind operators, from left to right. -/
def Reading.chain (level : Nat) : (left : Reading Expr) → List (Token × Reading Expr) → Reading Expr :=
  List.foldl fun left (operator, right) =>
    ⟨left.course ++ (.token operator ++ right.course),
      .chained level left.value operator right.value, right.trails⟩

namespace Reading

variable {level : Nat} {left : Reading Expr} {operands : List (Token × Reading Expr)}

theorem chain_flat : (chain level left operands).course.Flat
    (left.course :: operands.map (·.2.course)) := by
  intro room
  induction operands generalizing left with
  | nil => simp [chain]
  | cons operand operands ih =>
      refine ih.trans ?_
      simp only [List.map_cons, List.forall_mem_cons, Course.levels_append_le, Course.levels_token,
        true_and, and_assoc]

/-- Operands derive a chain if none but the last one goes on as far as it can. -/
theorem chain_derives (chains : level ∈ chainLevels) (first : DerivesExpression level left)
    (others : ∀ operand ∈ operands,
      operand.1.kind.grip? = some level ∧ DerivesExpression (level + 1) operand.2)
    (closed : ∀ operand ∈ (left :: operands.map (·.2)).dropLast, operand.trails = false) :
    DerivesExpression level (chain level left operands) := by
  induction operands generalizing left with
  | nil => exact first
  | cons operand operands ih =>
      obtain ⟨operator, right⟩ := operand
      obtain ⟨⟨operates, second⟩, behind⟩ := List.forall_mem_cons.mp others
      obtain ⟨closedLeft, closedOthers⟩ := List.forall_mem_cons.mp closed
      refine ih (.chain chains operates first closedLeft second) behind ?_
      cases operands with
      | nil => simp
      | cons next operands =>
          obtain ⟨closedRight, rest⟩ := List.forall_mem_cons.mp closedOthers
          exact List.forall_mem_cons.mpr ⟨closedRight, rest⟩

end Reading

theorem Course.call_flat (callee : Course) (opening closing : Token)
    {arguments : List Course} {between : Course}
    (listed : Course.Listed .tooManyArguments arguments between) :
    (callee ++ (.token opening ++ (between ++ .token closing))).Flat (callee :: arguments) := by
  intro room
  simp only [Course.levels_append_le, Course.levels_token, listed.flat room, true_and, and_true,
    List.forall_mem_cons]

/-! ### The limit -/

/-- The limit of nesting is exact. Without one, just those tokens are parsed that derive without an
error. With it they are parsed in the same way where their derivation needs no more levels than are
allowed; otherwise the first thing noted is too much nesting, at the first token around which one
more would be open. Chains of operators, lists of arguments and sequences of declarations, however
long, need no levels but those of their parts. -/
theorem nesting_limit_exact :
    (∀ (tokens : List Token) (statements : List Stmt),
      Unlimited (parseProgramWithin · tokens) statements ↔
        ∃ reading, DerivesProgram reading ∧
          reading.course.Clean (tokens.takeWhile (·.kind != .endOfInput)) ∧
          reading.value = statements) ∧
    (∀ (tokens : List Token) (reading : Reading (List Stmt)), DerivesProgram reading →
      reading.course.Clean (tokens.takeWhile (·.kind != .endOfInput)) →
      reading.Limited maxNesting (parseProgram tokens)) ∧
    (∀ (tokens : List Token) (expression : Expr),
      Unlimited (parseExpressionWithin · tokens) expression ↔
        ∃ reading, DerivesSequence reading ∧
          reading.course.Clean (tokens.takeWhile (·.kind != .endOfInput)) ∧
          reading.value = expression) ∧
    (∀ (tokens : List Token) (reading : Reading Expr), DerivesSequence reading →
      reading.course.Clean (tokens.takeWhile (·.kind != .endOfInput)) →
      reading.Limited maxNesting (parseExpression tokens)) ∧
    (∀ (level : Nat) (left : Reading Expr) (operands : List (Token × Reading Expr)),
      level ∈ chainLevels → DerivesExpression level left →
      (∀ operand ∈ operands,
        operand.1.kind.grip? = some level ∧ DerivesExpression (level + 1) operand.2) →
      (∀ operand ∈ (left :: operands.map (·.2)).dropLast, operand.trails = false) →
      DerivesExpression level (.chain level left operands) ∧
        (Reading.chain level left operands).course.Flat
          (left.course :: operands.map (·.2.course))) ∧
    (∀ (callee between : Course) (opening closing : Token) (arguments : List Course),
      Course.Listed .tooManyArguments arguments between →
      (callee ++ (.token opening ++ (between ++ .token closing))).Flat (callee :: arguments)) ∧
    ∀ items : List (Reading Stmt),
      (Course.declarations items).Flat (items.map (·.course.deeper)) := by
  refine ⟨?_, ?_, ?_, ?_, ?_, ?_, ?_⟩
  · exact fun tokens => unlimited_program_iff
  · exact fun tokens reading derives clean => derives.limited clean maxNesting
  · exact fun tokens => unlimited_sequence_iff
  · exact fun tokens reading derives clean => derives.limited clean maxNesting
  · intro level left operands chains first others closed
    exact ⟨Reading.chain_derives chains first others closed, Reading.chain_flat⟩
  · intro callee between opening closing arguments listed
    exact Course.call_flat callee opening closing listed
  · exact fun items => Course.all_flat _

/-! ### A number in parentheses -/

namespace Parenthesized

def opening : Token := ⟨.leftParen, "(", .nil, 1⟩

def closing : Token := ⟨.rightParen, ")", .nil, 1⟩

def truth : Token := ⟨.trueWord, "true", .nil, 1⟩

/-- `true` in so many pairs of parentheses. -/
def reading : (depth : Nat) → Reading Expr
  | 0 => ⟨.token truth, .literal (.bool true), false⟩
  | depth + 1 =>
    ⟨.token opening ++ ((reading depth).course.deeper ++ .token closing),
      .grouping (reading depth).value, false⟩

theorem reading_derives (depth : Nat) : DerivesExpression 10 (reading depth) := by
  induction depth with
  | zero => exact .word rfl
  | succ depth ih => exact .grouping rfl (ih.loosen (Nat.zero_le 10) (Nat.le_refl 10)) rfl

theorem expression_derives (depth : Nat) : DerivesExpression 0 (reading depth) :=
  (reading_derives depth).loosen (Nat.zero_le 10) (Nat.le_refl 10)

theorem reading_quiet (depth : Nat) : (reading depth).course.reports = [] := by
  induction depth with
  | zero => rfl
  | succ depth ih =>
      change [] ++ ((reading depth).course.reports ++ []) = []
      rw [ih]
      rfl

theorem reading_visible (depth : Nat) : ∀ token ∈ (reading depth).course.tokens,
    token.kind ≠ .endOfInput := by
  induction depth with
  | zero => decide
  | succ depth ih =>
      intro token member
      change token ∈ opening :: ((reading depth).course.deeper ++ .token closing).tokens at member
      rw [Course.tokens_append, Course.tokens_deeper] at member
      rcases List.mem_cons.mp member with rfl | inside
      · decide
      rcases List.mem_append.mp inside with inner | last
      · exact ih token inner
      · rw [List.mem_singleton.mp last]
        decide

theorem reading_clean (depth : Nat) : (reading depth).course.deeper.Clean
    ((reading depth).course.deeper.tokens.takeWhile (·.kind != .endOfInput)) := by
  have nothing : ∀ token ∈ ([] : List Token).head?, token.kind = .endOfInput := by simp
  have whole := takeWhile_visible (reading_visible depth) nothing
  rw [List.append_nil] at whole
  rw [Course.tokens_deeper, whole]
  exact ⟨Course.tokens_deeper, reading_quiet depth⟩

theorem reading_beyond (depth : Nat) : (reading (depth + 1)).course.beyond? depth = some truth := by
  induction depth with
  | zero => rfl
  | succ depth ih =>
      change (Course.token opening ++
        ((reading (depth + 1)).course.deeper ++ .token closing)).beyond? (depth + 1) = some truth
      rw [Course.beyond?_append, Course.beyond?_append, Course.beyond?_deeper, ih]
      rfl

theorem reading_levels (depth : Nat) : (reading depth).course.levels = depth := by
  induction depth with
  | zero => rfl
  | succ depth ih =>
      change (Course.token opening ++ ((reading depth).course.deeper ++ .token closing)).levels = _
      rw [Course.levels_append, Course.levels_append,
        Course.levels_deeper (reading_derives depth).tokens_ne_nil, ih]
      rfl

/-- The number of parentheses as a statement. -/
def statement (depth : Nat) : Reading Stmt :=
  ⟨(reading depth).course.deeper ++ .token ⟨.semicolon, ";", .nil, 1⟩,
    .expression (reading depth).value, false⟩

theorem program_derives (depth : Nat) : DerivesProgram
    ⟨.declarations [(statement depth).deeper], [(statement depth).value], false⟩ := by
  refine .program ?_
  intro item member
  rw [List.mem_singleton.mp member]
  exact .stated (.expression (.expression (expression_derives depth) rfl))

end Parenthesized

/-- A program is parsed, and so is an expression at the limit. With one more pair of parentheses it
fails at what they stand around. -/
theorem parenthesized_limited :
    parseProgram (Parenthesized.statement 1).course.tokens
        = .ok [(Parenthesized.statement 1).value] ∧
      parseExpression (Parenthesized.reading 999).course.deeper.tokens
        = .ok (Parenthesized.reading 999).value ∧
      ∃ others, parseExpression (Parenthesized.reading 1000).course.deeper.tokens
        = .error (⟨Parenthesized.truth, .tooMuchNesting⟩ :: others) := by
  obtain ⟨_derived, programs, _derivedToo, expressions, _flat⟩ := nesting_limit_exact
  have limited : ∀ depth, (Parenthesized.reading depth).deeper.Limited maxNesting
      (parseExpression (Parenthesized.reading depth).course.deeper.tokens) := fun depth =>
    expressions _ _ (.single (Parenthesized.expression_derives depth))
      (Parenthesized.reading_clean depth)
  have levels : ∀ depth, (Parenthesized.reading depth).course.deeper.levels = depth + 1 := by
    intro depth
    rw [Course.levels_deeper (Parenthesized.reading_derives depth).tokens_ne_nil,
      Parenthesized.reading_levels]
  refine ⟨?_, (limited 999).within (Nat.le_of_eq (levels 999)), ?_⟩
  · exact (programs (Parenthesized.statement 1).course.tokens _
      (Parenthesized.program_derives 1) ⟨rfl, rfl⟩).within (by decide)
  · obtain ⟨token, others, first, failed⟩ := (limited 1000).beyond
      (Nat.lt_of_lt_of_eq (Nat.lt_succ_self 1000) (levels 1000).symm)
    have here : (Parenthesized.reading 1000).course.deeper.beyond? 1000
        = some Parenthesized.truth :=
      Course.beyond?_deeper.trans (Parenthesized.reading_beyond 999)
    cases Option.some.inj (here.symm.trans first)
    exact ⟨others, failed⟩

end Lox
