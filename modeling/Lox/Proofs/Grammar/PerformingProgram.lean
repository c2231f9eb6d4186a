import Lox.Proofs.Grammar.PerformingStatement
import Lox.Proofs.Grammar.Turns
set_option autoImplicit false

/-! Whole programs and whole expressions go through the courses of derivations: the levels that a
derivation needs decide between its tree and a failure at its first token that is too deep. -/

namespace Lox

open Lox.Parser Lox.Grammar

/-! ### Levels -/

namespace Course

variable {room : Nat} {first second course : Course}

theorem levels_le_iff : course.levels ≤ room ↔ ∀ spot ∈ course.spots, spot.depth ≤ room := by
  unfold levels
  induction course.spots with
  | nil => simp
  | cons spot spots ih =>
      rw [List.map_cons, List.foldr_cons, Nat.max_le, ih, List.forall_mem_cons]

theorem beyond?_eq_none_iff : course.beyond? room = none ↔ course.levels ≤ room := by
  rw [levels_le_iff]
  simp [beyond?]

/-- Where more levels are needed there is a first token that is too deep. -/
theorem exists_beyond (deep : room < course.levels) : ∃ token, course.beyond? room = some token := by
  cases reached : course.beyond? room with
  | some token => exact ⟨token, rfl⟩
  | none => exact absurd (beyond?_eq_none_iff.mp reached) (Nat.not_le_of_lt deep)

end Course

/-! ### Programs -/

section

variable {limit : Nat} {items : List (Reading Stmt)} {state : ParserState}

theorem declarations_elseFree (given : ∀ item ∈ items, DerivesStatement 0 .declaration item) :
    begins (· == .elseWord) (Course.declarations items).tokens = false := by
  cases items with
  | nil => rfl
  | cons item items =>
      have derives := given item List.mem_cons_self
      change begins _ (item.course.deeper ++ Course.declarations items).tokens = false
      rw [Course.tokens_append, Course.tokens_deeper]
      exact begins_append_of_ne _ (declaration_apart rfl derives)

/-- The first declaration of a program, in front of the others. -/
theorem declaration_meets {item : Reading Stmt}
    (given : ∀ other ∈ item :: items, DerivesStatement 0 .declaration other)
    (left : state.rest = (Course.declarations (item :: items)).tokens) (nesting : state.nesting = 0)
    (depth : state.functionDepth = 0) :
    Meets limit item.course.deeper item.value (Course.declarations items).tokens state
      ((rules limit limit).declaration state) := by
  rw [List.forall_mem_cons] at given
  obtain ⟨derives, others⟩ := given
  have split : state.rest = item.course.deeper.tokens ++ (Course.declarations items).tokens := by
    rw [left, ← Course.tokens_append]
    rfl
  exact (derives.reached limit).declaration derives.tokens_ne_nil
    (fun _ => declarations_elseFree others) limit state split (by omega) depth

/-- A first declaration that is not too deep takes one turn. -/
theorem turn_within {item : Reading Stmt} {statements : List Stmt} {after : ParserState}
    (given : ∀ other ∈ item :: items, DerivesStatement 0 .declaration other)
    (left : state.rest = (Course.declarations (item :: items)).tokens) (nesting : state.nesting = 0)
    (depth : state.functionDepth = 0) (within : item.course.deeper.beyond? limit = none)
    (others : Turns (rules limit limit)
      { state with
        rest := (Course.declarations items).tokens
        reports := state.reports ++ item.course.reports }
      statements after) :
    Turns (rules limit limit) state (item.value :: statements) after := by
  have meets : Meets limit _ _ _ state _ := declaration_meets given left nesting depth
  unfold Meets at meets
  rw [within] at meets
  have derives := given item List.mem_cons_self
  have positive := List.length_pos_iff.mpr derives.tokens_ne_nil
  have less : (Course.declarations items).tokens.length < state.rest.length := by
    rw [left]
    change _ < (item.course.deeper ++ Course.declarations items).tokens.length
    rw [Course.tokens_append, Course.tokens_deeper, List.length_append]
    omega
  have ran : recovering (rules limit limit).declaration state = .ok (some item.value)
      { state with
        rest := (Course.declarations items).tokens
        reports := state.reports ++ item.course.reports } := by
    unfold recovering
    rw [meets]
    rfl
  exact .turn ran less others

/-- Within the limit every declaration is read and everything that is wrong is noted. -/
theorem turns_within (given : ∀ item ∈ items, DerivesStatement 0 .declaration item)
    (within : (Course.declarations items).beyond? limit = none)
    (left : state.rest = (Course.declarations items).tokens) (nesting : state.nesting = 0)
    (depth : state.functionDepth = 0) :
    Turns (rules limit limit) state (items.map (·.value))
      { state with rest := [], reports := state.reports ++ (Course.declarations items).reports } := by
  induction items generalizing state with
  | nil =>
      have same : ({ state with rest := [], reports := state.reports ++ [] } : ParserState)
          = state := by
        rw [List.append_nil, ← show state.rest = [] from left]
      change Turns _ state [] { state with rest := [], reports := state.reports ++ [] }
      rw [same]
      exact .ended left
  | cons item items ih =>
      have split : (item.course.deeper.beyond? limit).or ((Course.declarations items).beyond? limit)
          = none := Course.beyond?_append.symm.trans within
      obtain ⟨withinFirst, withinOthers⟩ := Option.or_eq_none_iff.mp split
      have others := @ih { state with
        rest := (Course.declarations items).tokens
        reports := state.reports ++ item.course.reports }
        (fun other member => given other (List.mem_cons_of_mem item member)) withinOthers rfl
        nesting depth
      have turns := turn_within given left nesting depth withinFirst others
      rw [List.append_assoc] at turns
      exact turns

/-- A first declaration that fails is noted, and the turns go on behind it. -/
theorem turns_failed {report : SyntaxReport} {failed : ParserState} (more : state.rest ≠ [])
    (ran : (rules limit limit).declaration state = .error report failed) :
    ∃ statements noted after, Turns (rules limit limit) state statements after ∧
      after.reports = failed.reports ++ report :: noted := by
  have balanced := rules_balanced limit limit
  obtain ⟨found, rest, noted, less, always⟩ := recovering_balanced balanced.declaration more
  have recovered : recovering (rules limit limit).declaration state = .ok none { failed with
      rest := resumption failed.rest, reports := failed.reports ++ [report] } := by
    unfold recovering
    rw [ran]
  obtain ⟨_, same⟩ := EStateM.Result.ok.inj (recovered.symm.trans (always state.reports))
  obtain ⟨statements, further, after, others⟩ := turns_exist balanced { failed with
    rest := resumption failed.rest }
  refine ⟨statements, further, _, .turn recovered ?_ (others _), List.append_assoc _ _ _⟩
  rw [same]
  exact less

/-- Where nothing else is wrong, the first token that is too deep is the first thing noted. -/
theorem turns_beyond {token : Token}
    (given : ∀ item ∈ items, DerivesStatement 0 .declaration item)
    (beyond : (Course.declarations items).beyond? limit = some token)
    (quiet : (Course.declarations items).reports = [])
    (left : state.rest = (Course.declarations items).tokens) (nesting : state.nesting = 0)
    (depth : state.functionDepth = 0) :
    ∃ statements noted after, Turns (rules limit limit) state statements after ∧
      after.reports = state.reports ++ ⟨token, .tooMuchNesting⟩ :: noted := by
  induction items generalizing state with
  | nil => cases beyond
  | cons item items ih =>
      have split : (item.course.deeper.beyond? limit).or ((Course.declarations items).beyond? limit)
          = some token := Course.beyond?_append.symm.trans beyond
      obtain ⟨quietFirst, quietOthers⟩ := List.append_eq_nil_iff.mp
        (show item.course.reports ++ (Course.declarations items).reports = [] from quiet)
      cases first : item.course.deeper.beyond? limit with
      | none =>
          rw [first, Option.none_or] at split
          obtain ⟨statements, noted, after, turns, told⟩ := @ih { state with
            rest := (Course.declarations items).tokens
            reports := state.reports ++ item.course.reports }
            (fun other member => given other (List.mem_cons_of_mem item member)) split quietOthers
            rfl nesting depth
          rw [quietFirst, List.append_nil] at told
          exact ⟨_, noted, after, turn_within given left nesting depth first turns, told⟩
      | some deep =>
          rw [first] at split
          cases split
          have meets : Meets limit _ _ _ state _ := declaration_meets given left nesting depth
          unfold Meets at meets
          rw [first] at meets
          obtain ⟨failed, ran, kept⟩ := meets quietFirst
          rw [← kept]
          have derives := given item List.mem_cons_self
          refine turns_failed ?_ ran
          rw [left]
          change (item.course.deeper ++ Course.declarations items).tokens ≠ []
          rw [Course.tokens_append, Course.tokens_deeper]
          exact List.append_ne_nil_of_left_ne_nil derives.tokens_ne_nil _

end

/-! ### Expressions divided by commas -/

/-- Another expression behind a comma. The one before it does not count. -/
def commaStep (inner : InnerExpr) (_last : Expr) : Parser (Option Expr) := do
  match ← accept (· == .comma) with
  | none => return none
  | some _ => some <$> inner.expression

section

variable {limit room functions : Nat} {reading : Reading Expr}

/-- The loop goes on from the end of a sequence with whatever it goes through next. -/
theorem sequence_further (derives : DerivesSequence reading) {more : Course} {last : Expr}
    {rest : List Token}
    (loops : Parser.Loops limit room functions (commaStep (rules limit room).toInnerExpr)
      reading.value more last rest)
    (free : nextGrip? (more.tokens ++ rest) = none) :
    Performs limit room functions
      ((rules limit room).expression >>= repeating (commaStep (rules limit room).toInnerExpr))
      (reading.course ++ more) last rest := by
  induction derives generalizing more last with
  | single derives => exact (derives.inner free).bind loops.repeating
  | @more front final comma _others divides derives ih =>
      have turned : Performs limit room functions
          (commaStep (rules limit room).toInnerExpr front.value)
          (.token comma ++ final.course.deeper) (some final.value) (more.tokens ++ rest) :=
        Performs.accept_bind (beq_iff_eq.mpr divides) ((derives.inner free).fmap some)
      rw [Course.append_assoc]
      refine ih (Parser.Loops.turn turned (Course.tokens_cons_ne_nil _) loops) ?_
      exact nextGrip?_token divides rfl (final.course.deeper ++ more) rest

theorem sequence_performs (derives : DerivesSequence reading) :
    Performs limit room functions (expressions (rules limit room).toInnerExpr) reading.course
      reading.value [] := by
  have idle : Performs limit room functions
      (commaStep (rules limit room).toInnerExpr reading.value) .nothing none [] :=
    Performs.skip_bind rfl (.pure none [])
  have read := sequence_further derives (.stop idle) rfl
  rw [Course.append_nothing] at read
  unfold expressions
  rw [← bind_assoc]
  refine read.finish (.of_same fun state left _depth => ?_)
  rw [atEnd_bind, left]
  rfl

end

end Lox
