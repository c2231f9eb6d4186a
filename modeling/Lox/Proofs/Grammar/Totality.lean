import Lox.Proofs.Grammar.Expression
import Lox.Proofs.Grammar.FollowingRules
set_option autoImplicit false

/-! The parser at a cursor comes to an outcome on every sequence of tokens, whatever its kinds and
wherever its ends of input stand: no token is read outside the row, none before the first, and fuel
runs out in no loop and no recursion. The cursor only moves forward, one token at a time. -/

namespace Lox

namespace Grammar

theorem skipTo_suffix (previous : Token) (tokens : List Token) :
    skipTo previous tokens <:+ tokens := by
  induction tokens generalizing previous with
  | nil => exact List.suffix_refl []
  | cons token rest ih =>
      unfold skipTo
      split
      · exact List.suffix_refl _
      · exact (ih token).trans (List.suffix_cons token rest)

theorem resumption_suffix (tokens : List Token) : resumption tokens <:+ tokens := by
  cases tokens with
  | nil => exact List.suffix_refl []
  | cons token rest => exact (skipTo_suffix token rest).trans (List.suffix_cons token rest)

/-- Something is left out behind a failure, unless nothing was left before it. -/
theorem resumption_length (tokens : List Token) {bound : Nat} (less : tokens.length ≤ bound)
    (positive : 0 < bound) : (resumption tokens).length + 1 ≤ bound := by
  cases tokens with
  | nil => exact positive
  | cons token rest =>
      exact Nat.le_trans (Nat.succ_le_succ (skipTo_suffix token rest).length_le) less

end Grammar

namespace Row

variable {row : Row} {nesting fuel : Nat} {last : Option Token} {state : ParserState}
variable {copy : CursorRules} {inner : Inner}

/-! ### Going on behind a failure -/

theorem Fits.shortened (fits : row.Fits nesting last state) {rest : List Token}
    (suffix : rest <:+ state.rest) : row.Fits nesting none { state with rest } where
  suffix := suffix.trans fits.forget.suffix
  ending := fits.ending
  nesting := fits.nesting

theorem skipping_eq {token : Token} (fits : row.Fits nesting (some token) state)
    (enough : state.rest.length < fuel) :
    CursorParser.skipping fuel (row.cursor state)
      = .ok (.ok () (row.cursor { state with rest := Grammar.skipTo token state.rest })) := by
  induction fuel generalizing token state with
  | zero => omega
  | succ fuel ih =>
      obtain ⟨left, ending, levels, functions, reports⟩ := state
      unfold CursorParser.skipping
      rw [CursorParser.bind_eq fits.isAtEnd_eq]
      cases left with
      | nil => rfl
      | cons next rest =>
          rw [if_neg (by simp), CursorParser.bind_eq fits.previous_eq]
          unfold Grammar.skipTo
          by_cases semicolon : (token.kind == .semicolon) = true
          · rw [if_pos semicolon, if_pos (by simp [semicolon])]
            rfl
          · rw [if_neg semicolon, CursorParser.bind_eq fits.peek_eq]
            by_cases starts : Grammar.startsDeclaration next.kind = true
            · have wanted : (token.kind == .semicolon || Grammar.startsDeclaration next.kind)
                  = true := by
                simp [starts]
              rw [if_pos wanted]
              exact congrFun (if_pos starts) _
            · have other : ¬ (token.kind == .semicolon || Grammar.startsDeclaration next.kind)
                  = true := by
                simp [semicolon, starts]
              rw [if_neg other]
              refine (congrFun (if_neg starts) _).trans ?_
              rw [CursorParser.bind_eq (fits.advance_eq rfl)]
              exact ih (fits.read rfl) (Nat.lt_of_succ_lt_succ enough)

/-- There is a token before the cursor or at it, so the cursor can move on safely. -/
theorem synchronize_eq (fits : row.Fits nesting last state) (some : row.visible ≠ [])
    (enough : row.visible.length < fuel) :
    CursorParser.synchronize fuel (row.cursor state)
      = .ok (.ok () (row.cursor { state with rest := Grammar.resumption state.rest })) := by
  have bound := fits.length_le
  obtain ⟨left, ending, levels, functions, reports⟩ := state
  unfold CursorParser.synchronize
  cases left with
  | nil =>
      have behind : row.Fits nesting (.some (row.visible.getLast some))
          ⟨[], ending, levels, functions, reports⟩ :=
        ⟨⟨row.visible.dropLast, List.dropLast_concat_getLast some⟩, fits.ending, fits.nesting⟩
      have stays : CursorParser.advance (row.cursor ⟨[], ending, levels, functions, reports⟩)
          = .ok (.ok (row.visible.getLast some)
              (row.cursor ⟨[], ending, levels, functions, reports⟩)) := by
        unfold CursorParser.advance
        rw [CursorParser.bind_eq fits.isAtEnd_eq]
        exact behind.previous_eq
      rw [CursorParser.bind_eq stays]
      exact skipping_eq behind (Nat.zero_lt_of_lt enough)
  | cons token rest =>
      rw [CursorParser.bind_eq (fits.advance_eq rfl)]
      exact skipping_eq (fits.read rfl) (Nat.lt_trans (Nat.lt_of_succ_le bound) enough)

/-- A turn before the end reads at least one token, whether the declaration succeeds or fails. -/
theorem turn_tracks (enough : row.visible.length < fuel)
    (follows : row.RulesFollow nesting copy inner) (fits : row.Fits nesting last state)
    (more : state.rest ≠ []) :
    row.TracksAt nesting (fun _ => 1) id (CursorRules.turn fuel copy)
      (Grammar.recovering inner.declaration) state := by
  obtain ⟨same, proceeds⟩ := follows.declaration none state fits.forget
  unfold TracksAt CursorRules.turn Grammar.recovering
  cases outcome : inner.declaration state with
  | ok statement after =>
      rw [outcome] at same proceeds
      rw [CursorParser.bind_eq (CursorParser.attempt_eq same)]
      exact ⟨rfl, proceeds⟩
  | error report after =>
      rw [outcome] at same proceeds
      obtain ⟨behind, less⟩ := proceeds
      have nonempty : row.visible ≠ [] := by
        intro nothing
        have suffix := fits.forget.suffix
        rw [nothing] at suffix
        exact more (List.suffix_nil.mp suffix)
      have noted := behind.reported (after.reports ++ [report])
      rw [CursorParser.bind_eq (CursorParser.attempt_error same)]
      dsimp only
      rw [CursorParser.bind_eq (row.report_eq after report),
        CursorParser.bind_eq (synchronize_eq noted nonempty enough)]
      refine ⟨rfl, noted.shortened (Grammar.resumption_suffix _), ?_⟩
      exact Grammar.resumption_length _ less (List.length_pos_iff.mpr more)

/-! ### Whole inputs -/

/-- A turn is taken where the end does not come next, and a statement it gives is kept. -/
theorem programStep_tracks (enough : row.visible.length < fuel)
    (follows : row.RulesFollow nesting copy inner) (found : List (Option Stmt)) :
    row.Tracks nesting none Tracks.stepGain
      (Option.map fun statement => (found ++ [statement]).filterMap id)
      (CursorRules.programStep fuel copy (found.filterMap id))
      (do
        if ← Parser.atEnd then return none
        return some (← Grammar.recovering inner.declaration)) := by
  have ending : row.Tracks nesting none Tracks.stepGain
      (Option.map fun statement => (found ++ [statement]).filterMap id) (Pure.pure none)
      (Pure.pure none) :=
    Tracks.pure rfl rfl
  intro state fits
  unfold TracksAt CursorRules.programStep
  rw [CursorParser.bind_eq fits.isAtEnd_eq, Parser.atEnd_bind]
  cases ended : state.rest.isEmpty with
  | true => exact ending state fits
  | false =>
      have more : state.rest ≠ [] := by simpa using ended
      refine Tracks.transformedAt (turn_tracks enough follows fits more) ?_ ?_
      · intro statement
        cases statement <;> simp
      · intro statement
        exact Nat.le_refl _

theorem program_follows (enough : row.visible.length < fuel)
    (follows : row.RulesFollow nesting copy inner) (last : Option Token) :
    row.Follows nesting last (CursorRules.program fuel copy) (Grammar.program inner) := by
  have idle : ∀ state : ParserState, state.rest = [] →
      (do
        if ← Parser.atEnd then return none
        return some (← Grammar.recovering inner.declaration)) state = .ok none state := by
    intro state ended
    rw [Parser.atEnd_bind, ended]
    rfl
  have collected : row.Tracks nesting last (fun _ => 0) (List.filterMap id) _ _ :=
    Tracks.many enough (programStep_tracks enough follows) idle
  exact collected.recast (fun _ => rfl) fun _ => Nat.le_refl _

theorem expressions_follow (enough : row.visible.length < fuel)
    (follows : row.RulesFollow nesting copy inner) (last : Option Token) :
    row.Follows nesting last (CursorRules.expressions fuel copy)
      (Grammar.expressions inner.toInnerExpr) := by
  unfold CursorRules.expressions CursorRules.comma Grammar.expressions
  simp only [bind_assoc]
  refine (follows.expression last).bind fun first => ?_
  refine Follows.bind (Tracks.repeating enough ?_ ?_ first) fun value => ?_
  · intro value
    refine Tracks.matching (fun _ => ?_) (Tracks.pure rfl rfl)
    exact (follows.expression _).transformed (fun _ => rfl) fun _ => Nat.le_refl _
  · intro value state ended
    exact Parser.accept_ended ended
  · refine Tracks.atEnd fun ended => ?_
    exact Tracks.branch ended (Tracks.pure rfl rfl) (Tracks.fail _)

/-- The declaration of a turn may fail; the turn itself does not. -/
theorem turn_eq (enough : row.visible.length < fuel)
    (follows : row.RulesFollow nesting copy inner) (fits : row.Fits nesting last state)
    (more : state.rest ≠ []) :
    ∃ statement after, CursorRules.turn fuel copy (row.cursor state)
        = .ok (.ok statement (row.cursor after)) ∧
      row.Fits nesting none after ∧ after.rest.length < state.rest.length := by
  obtain ⟨same, proceeds⟩ := turn_tracks enough follows fits more
  unfold Grammar.recovering at same proceeds
  cases outcome : inner.declaration state with
  | ok statement after =>
      rw [outcome] at same proceeds
      exact ⟨_, _, same, proceeds⟩
  | error report after =>
      rw [outcome] at same proceeds
      exact ⟨_, _, same, proceeds⟩

/-- The result, and the state in which a failure has been reported. -/
def concluded {α : Type} : EStateM.Result SyntaxReport ParserState α → Option α × ParserState
  | .ok value after => (if after.reports.isEmpty then some value else none, after)
  | .error report after => (none, { after with reports := after.reports ++ [report] })

theorem withheld_eq {α : Type} {rule : CursorParser α} {original : Parser α}
    (tracks : row.TracksAt nesting (fun _ => 0) id rule original state) :
    CursorRules.withheld rule (row.cursor state)
      = .ok (.ok (concluded (original state)).1 (row.cursor (concluded (original state)).2)) := by
  obtain ⟨same, _proceeds⟩ := tracks
  unfold CursorRules.withheld concluded
  cases outcome : original state with
  | ok value after =>
      rw [outcome] at same
      rw [CursorParser.bind_eq (CursorParser.attempt_eq same)]
      change Except.ok (EStateM.Result.ok (if (!after.reports.isEmpty) = true then none
        else some value) (row.cursor after)) = _
      cases quiet : after.reports.isEmpty <;> simp [quiet]
  | error report after =>
      rw [outcome] at same
      rw [CursorParser.bind_eq (CursorParser.attempt_error same)]
      exact CursorParser.bind_eq (row.report_eq after report)

theorem answer_concluded {α : Type} (outcome : EStateM.Result SyntaxReport ParserState α) :
    Cursor.answer (concluded outcome).1 (row.cursor (concluded outcome).2)
      = Grammar.conclude outcome := by
  cases outcome with
  | ok value after =>
      unfold concluded Grammar.conclude
      cases quiet : after.reports.isEmpty <;> simp [quiet] <;> rfl
  | error report after => rfl

/-! ### Rows of tokens -/

/-- The row that a sequence of tokens makes. -/
structure Of (row : Row) (tokens : List Token) : Prop where
  closed : row.tokens = Cursor.closed tokens
  visible : row.visible = tokens.takeWhile (·.kind != .endOfInput)
  ending : row.ending = (ParserState.ofTokens tokens).ending

theorem exists_of (tokens : List Token) : ∃ row : Row, row.Of tokens := by
  cases found : tokens.find? (·.kind == .endOfInput) with
  | none =>
      have plain : ∀ token ∈ tokens, token.kind ≠ .endOfInput := by
        intro token member
        simpa using List.find?_eq_none.mp found token member
      let ending := Token.endOfInput ((tokens.getLast?.map (·.line)).getD 1)
      refine ⟨⟨tokens, ending, [], plain, rfl⟩, ?_, ?_, ?_⟩
      · have unclosed : ¬ tokens.getLast?.any (·.kind == .endOfInput) = true := by
          intro closed
          obtain ⟨token, last, isEnd⟩ := Option.any_eq_true _ _ |>.mp closed
          exact plain token (List.mem_of_getLast? last) (by simpa using isEnd)
        unfold Cursor.closed
        rw [if_neg unclosed]
        rfl
      · have whole : (tokens ++ []).takeWhile (·.kind != TokenKind.endOfInput) = tokens :=
          takeWhile_visible plain (by simp)
        rw [List.append_nil] at whole
        exact whole.symm
      · simp [ParserState.ofTokens, found, ending]
  | some token =>
      obtain ⟨isEnd, front, behind, split, plain⟩ := List.find?_eq_some_iff_append.mp found
      have visible : ∀ token ∈ front, token.kind ≠ .endOfInput := by
        intro token member
        simpa using plain token member
      have ends : token.kind = .endOfInput := by simpa using isEnd
      have before : tokens.takeWhile (·.kind != .endOfInput) = front := by
        rw [split]
        exact takeWhile_visible visible (by simp [ends])
      have ending : token = (ParserState.ofTokens tokens).ending := by
        simp [ParserState.ofTokens, found]
      by_cases last : tokens.getLast?.any (·.kind == .endOfInput) = true
      · refine ⟨⟨front, token, behind, visible, ends⟩, ?_, before.symm, ending⟩
        unfold Cursor.closed
        rw [if_pos last]
        exact split.symm
      · refine ⟨⟨front, token,
          behind ++ [.endOfInput ((tokens.getLast?.map (·.line)).getD 1)], visible, ends⟩, ?_,
          before.symm, ending⟩
        unfold Cursor.closed
        rw [if_neg last]
        change front ++ token :: (behind ++ _) = tokens ++ _
        rw [← List.cons_append, ← List.append_assoc, ← split]

namespace Of

variable {tokens : List Token}

theorem cursor_eq (of : row.Of tokens) : row.cursor (.ofTokens tokens) = .ofTokens tokens := by
  have rest : (ParserState.ofTokens tokens).rest = row.visible := of.visible.symm
  unfold Row.cursor
  rw [rest, of.closed, Nat.sub_self]
  rfl

theorem fits (of : row.Of tokens) : row.Fits 0 none (.ofTokens tokens) where
  suffix := by
    rw [of.visible]
    exact List.suffix_refl _
  ending := of.ending.symm
  nesting := rfl

end Of

end Row

/-- The tokens up to the first end of input, which is added if there is none. -/
def upToEnd (tokens : List Token) : List Token :=
  tokens.takeWhile (·.kind != .endOfInput) ++ [(ParserState.ofTokens tokens).ending]

/-- The place of the first end of input. -/
def firstEnd (tokens : List Token) : Nat :=
  (tokens.takeWhile (·.kind != .endOfInput)).length

namespace Row

variable {row : Row} {tokens : List Token} {fuel : Nat}

/-- The same row without the tokens behind the first end of input. -/
def short (row : Row) : Row :=
  { row with behind := [] }

theorem cursor_short (row : Row) (state : ParserState) :
    row.short.cursor state = { row.cursor state with tokens := row.short.tokens } :=
  rfl

namespace Of

theorem upToEnd_eq (of : row.Of tokens) : upToEnd tokens = row.short.tokens := by
  unfold upToEnd
  rw [← of.visible, ← of.ending]
  rfl

theorem ofTokens_upToEnd (of : row.Of tokens) :
    ParserState.ofTokens (upToEnd tokens) = .ofTokens tokens := by
  have rest : (upToEnd tokens).takeWhile (·.kind != .endOfInput)
      = tokens.takeWhile (·.kind != .endOfInput) := by
    rw [of.upToEnd_eq, ← of.visible]
    exact takeWhile_visible row.plain (by simp [short, row.ends])
  have ending : (upToEnd tokens).find? (·.kind == .endOfInput)
      = some (ParserState.ofTokens tokens).ending := by
    have none : row.visible.find? (·.kind == .endOfInput) = none := by
      rw [List.find?_eq_none]
      intro token member
      simpa using row.plain token member
    rw [of.upToEnd_eq, ← of.ending]
    simp [short, Row.tokens, List.find?_append, none, row.ends]
  unfold ParserState.ofTokens at ending ⊢
  simp only [rest, ending]

theorem short (of : row.Of tokens) : row.short.Of (upToEnd tokens) where
  closed := by
    have last : (upToEnd tokens).getLast?.any (·.kind == .endOfInput) = true := by
      rw [of.upToEnd_eq]
      simp [Row.short, Row.tokens, row.ends]
    unfold Cursor.closed
    rw [if_pos last]
    exact of.upToEnd_eq.symm
  visible := by
    rw [of.upToEnd_eq]
    exact (takeWhile_visible row.plain (by simp [Row.short, row.ends])).symm
  ending := by
    rw [of.ofTokens_upToEnd]
    exact of.ending

end Of

end Row

namespace Cursor

/-- A way of parsing at a cursor answers as expected. The cursor has stood at one place after the
other, at none behind the first end of input, and the tokens behind that make no difference. -/
def Answers {α : Type}
    (parse : List Token → Except Fault (EStateM.Result SyntaxReport Cursor (Option α)))
    (tokens : List Token) (expected : Except (List SyntaxReport) α) : Prop :=
  ∃ (result : Option α) (cursor : Cursor),
    parse tokens = .ok (.ok result cursor) ∧ answer result cursor = expected ∧
      cursor.current ≤ firstEnd tokens ∧
      cursor.trail = (List.range (cursor.current + 1)).reverse ∧
      parse (upToEnd tokens) = .ok (.ok result { cursor with tokens := upToEnd tokens })

end Cursor

namespace Row

variable {row : Row} {tokens : List Token} {fuel : Nat}

theorem answers {α : Type} {rule : CursorParser α} {original : Parser α}
    (follows : ∀ row : Row, row.visible.length < fuel → row.Follows 0 none rule original)
    (enough : firstEnd tokens < fuel) :
    Cursor.Answers (fun tokens => CursorRules.withheld rule (.ofTokens tokens)) tokens
      (Grammar.conclude (original (.ofTokens tokens))) := by
  obtain ⟨row, of⟩ := exists_of tokens
  have visible : row.visible.length = firstEnd tokens := by
    rw [of.visible]
    rfl
  have whole := withheld_eq (follows row (by omega) _ of.fits)
  have part := withheld_eq (follows row.short (visible ▸ enough) _ of.short.fits)
  rw [of.cursor_eq] at whole
  rw [of.short.cursor_eq, of.ofTokens_upToEnd, cursor_short, ← of.upToEnd_eq] at part
  refine ⟨_, _, whole, answer_concluded _, ?_, rfl, part⟩
  rw [← visible]
  exact Nat.sub_le _ _

theorem rules_follow_start (enough : maxNesting < fuel) (row : Row)
    (within : row.visible.length < fuel) :
    row.RulesFollow 0 (CursorRules.ofFuel maxNesting fuel fuel)
      (Grammar.rules maxNesting maxNesting) :=
  rules_follow within (Nat.zero_add _) enough

/-- At every turn of the loop the cursor is that of a state between two declarations. -/
theorem state_of_turn (enough : maxNesting < fuel) (of : row.Of tokens)
    (within : row.visible.length < fuel) {cursor : Cursor}
    (turn : Cursor.AtTurn fuel tokens cursor) :
    ∃ state, row.Fits 0 none state ∧ cursor = row.cursor state := by
  induction turn with
  | start => exact ⟨_, of.fits, of.cursor_eq.symm⟩
  | @next before later statement _turn more turned ih =>
      obtain ⟨state, fits, rfl⟩ := ih
      have left : state.rest ≠ [] := by
        intro ended
        rw [fits.isAtEnd_eq, ended] at more
        cases more
      obtain ⟨_, after, same, behind, _less⟩ :=
        turn_eq within (rules_follow_start enough row within) fits left
      rw [same] at turned
      cases turned
      exact ⟨after, behind, rfl⟩

end Row

/-- The parser is total. On every sequence of tokens, parsing at a cursor ends without a token read
outside the row or before its start, and answers as the parser does; the cursor never moves back
nor behind the first end of input, and what stands behind that end makes no difference. Every turn
of the loop over declarations before that end moves the cursor forward, whether the declaration
succeeds or fails. -/
theorem parser_total (tokens : List Token) :
    ∃ enough, ∀ fuel, enough ≤ fuel →
      Cursor.Answers (Cursor.parse fuel) tokens (parseProgram tokens) ∧
      Cursor.Answers (Cursor.parseExpression fuel) tokens (parseExpression tokens) ∧
      ∀ cursor, Cursor.AtTurn fuel tokens cursor →
        cursor.current = firstEnd tokens ∨
          ∃ statement later,
            CursorRules.turn fuel (.ofFuel maxNesting fuel fuel) cursor
              = .ok (.ok statement later) ∧
            cursor.current < later.current ∧ later.current ≤ firstEnd tokens := by
  refine ⟨max (maxNesting + 1) (firstEnd tokens + 1), ?_⟩
  intro fuel bound
  have levels : maxNesting < fuel := by omega
  have within : firstEnd tokens < fuel := by omega
  have follow : ∀ row : Row, row.visible.length < fuel →
      row.RulesFollow 0 (CursorRules.ofFuel maxNesting fuel fuel)
        (Grammar.rules maxNesting maxNesting) :=
    fun row => Row.rules_follow_start levels row
  refine ⟨?_, ?_, ?_⟩
  · exact Row.answers (fun row enough => Row.program_follows enough (follow row enough) none) within
  · exact Row.answers (fun row enough => Row.expressions_follow enough (follow row enough) none)
      within
  · intro cursor turn
    obtain ⟨row, of⟩ := Row.exists_of tokens
    have visible : row.visible.length = firstEnd tokens := by
      rw [of.visible]
      rfl
    have enough : row.visible.length < fuel := by omega
    obtain ⟨state, fits, rfl⟩ := Row.state_of_turn levels of enough turn
    have inside := fits.length_le
    have place : (row.cursor state).current = row.visible.length - state.rest.length := rfl
    by_cases ended : state.rest = []
    · left
      rw [place, ended, visible]
      rfl
    · right
      obtain ⟨statement, after, turned, _behind, less⟩ :=
        Row.turn_eq enough (follow row enough) fits ended
      have placeAfter : (row.cursor after).current = row.visible.length - after.rest.length := rfl
      exact ⟨statement, row.cursor after, turned, by omega, by omega⟩

end Lox
