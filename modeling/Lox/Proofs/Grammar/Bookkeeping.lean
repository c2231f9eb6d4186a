import Lox.Proofs.Grammar.Totality
set_option autoImplicit false

/-! The books of the parser at a cursor. Every rule comes to an outcome from every place up to the
first end of input, leaves as many levels and function bodies open as before, also where it fails,
moves the cursor on by at least one token where it succeeds, and keeps the flag of errors in step
with what is reported. A failure is one at the cursor and has not been reported; the errors that a
rule reports itself are those behind which parsing goes on. -/

namespace Lox

/-- Whether the error gives up the declaration it stands in. -/
def SyntaxError.abandons : SyntaxError → Bool
  | missing _ | tooMuchNesting => true
  | invalidAssignmentTarget | tooManyArguments | tooManyParameters | returnOutsideFunction => false

namespace Cursor

/-- The books between two cursors, with what was reported on the way. -/
structure Kept (before after : Cursor) (noted : List SyntaxReport) : Prop where
  tokens : after.tokens = before.tokens
  nesting : after.nesting = before.nesting
  functionDepth : after.functionDepth = before.functionDepth
  forward : before.current ≤ after.current
  within : after.current ≤ firstEnd before.tokens
  reports : after.reports = before.reports ++ noted
  hadError : after.hadError = (before.hadError || !noted.isEmpty)
  minor : ∀ report ∈ noted, report.error.abandons = false

/-- An outcome for which the books are kept. A value stands for at least so many tokens. -/
def Accounts {α : Type} (before : Cursor) (gain : α → Nat) :
    EStateM.Result SyntaxReport Cursor α → Prop
  | .ok value after =>
    ∃ noted, before.Kept after noted ∧ before.current + gain value ≤ after.current
  | .error failure after =>
    ∃ noted, before.Kept after noted ∧ failure.error.abandons = true ∧
      after.tokens[after.current]? = some failure.token

/-- The cursor is in a sequence of tokens that ends in an end of input, not behind the first one and
no earlier than at some place, with so many levels open. -/
structure Stands (tokens : List Token) (level start : Nat) (cursor : Cursor) : Prop where
  row : cursor.tokens = tokens
  closed : Cursor.closed tokens = tokens
  nesting : cursor.nesting = level
  start : start ≤ cursor.current
  within : cursor.current ≤ firstEnd tokens

variable {tokens : List Token} {level start : Nat} {before middle after : Cursor}

namespace Kept

theorem refl (within : before.current ≤ firstEnd before.tokens) : before.Kept before [] where
  tokens := rfl
  nesting := rfl
  functionDepth := rfl
  forward := Nat.le_refl _
  within := within
  reports := (List.append_nil _).symm
  hadError := (Bool.or_false _).symm
  minor := by simp

theorem trans {noted others : List SyntaxReport} (first : before.Kept middle noted)
    (second : middle.Kept after others) : before.Kept after (noted ++ others) where
  tokens := second.tokens.trans first.tokens
  nesting := second.nesting.trans first.nesting
  functionDepth := second.functionDepth.trans first.functionDepth
  forward := Nat.le_trans first.forward second.forward
  within := by
    rw [← first.tokens]
    exact second.within
  reports := by rw [second.reports, first.reports, List.append_assoc]
  hadError := by
    rw [second.hadError, first.hadError, Bool.or_assoc]
    cases noted <;> cases others <;> simp
  minor := by
    intro report member
    rcases List.mem_append.mp member with member | member
    · exact first.minor report member
    · exact second.minor report member

theorem moving (more : before.current < firstEnd before.tokens) : before.Kept before.forward [] where
  tokens := rfl
  nesting := rfl
  functionDepth := rfl
  forward := Nat.le_succ _
  within := more
  reports := (List.append_nil _).symm
  hadError := (Bool.or_false _).symm
  minor := by simp

theorem noting {report : SyntaxReport} (within : before.current ≤ firstEnd before.tokens)
    (minor : report.error.abandons = false) : before.Kept (before.noting report) [report] where
  tokens := rfl
  nesting := rfl
  functionDepth := rfl
  forward := Nat.le_refl _
  within := within
  reports := rfl
  hadError := (Bool.or_true _).symm
  minor := by simpa using minor

end Kept

/-- What was read in front counts. -/
theorem Accounts.since {α : Type} {gain : α → Nat} {few : Nat} {noted : List SyntaxReport}
    {outcome : EStateM.Result SyntaxReport Cursor α}
    (accounts : middle.Accounts (fun value => gain value - few) outcome)
    (kept : before.Kept middle noted) (read : before.current + few ≤ middle.current) :
    before.Accounts gain outcome := by
  cases outcome with
  | ok value after =>
      obtain ⟨others, further, more⟩ := accounts
      refine ⟨noted ++ others, kept.trans further, ?_⟩
      dsimp only at more
      omega
  | error failure after =>
      obtain ⟨others, further, failed⟩ := accounts
      exact ⟨noted ++ others, kept.trans further, failed⟩

namespace Stands

variable {cursor : Cursor}

theorem kept {noted : List SyntaxReport} (stands : before.Stands tokens level start)
    (kept : before.Kept after noted) : after.Stands tokens level start where
  row := kept.tokens.trans stands.row
  closed := stands.closed
  nesting := kept.nesting.trans stands.nesting
  start := Nat.le_trans stands.start kept.forward
  within := by
    rw [← stands.row]
    exact kept.within

theorem here (stands : cursor.Stands tokens level start) :
    cursor.current ≤ firstEnd cursor.tokens := by
  rw [stands.row]
  exact stands.within

/-- There is a token at the cursor, which is an end of input at the first place of one only. -/
theorem token_at (stands : cursor.Stands tokens level start) :
    ∃ token, cursor.tokens[cursor.current]? = some token ∧
      (token.kind == .endOfInput) = (cursor.current == firstEnd tokens) := by
  obtain ⟨row, of⟩ := Row.exists_of tokens
  have length : row.visible.length = firstEnd tokens := by rw [of.visible, firstEnd]
  have split : cursor.tokens = row.visible ++ row.ending :: row.behind := by
    rw [stands.row, ← stands.closed, ← of.closed, Row.tokens]
  rw [split, ← length]
  have within := stands.within
  rw [← length] at within
  rcases Nat.lt_or_eq_of_le within with more | ended
  · refine ⟨row.visible[cursor.current], ?_, ?_⟩
    · rw [List.getElem?_append_left more, List.getElem?_eq_getElem more]
    · have visible := row.plain _ (List.getElem_mem more)
      simp [visible, Nat.ne_of_lt more]
  · refine ⟨row.ending, ?_, ?_⟩
    · simp [ended]
    · simp [ended, row.ends]

end Stands

end Cursor

namespace CursorParser

variable {α β : Type} {tokens : List Token} {level start : Nat} {cursor : Cursor}

/-! ### Tokens -/

section Primitives

variable (stands : cursor.Stands tokens level start)
include stands

theorem peek_here :
    ∃ token, cursor.tokens[cursor.current]? = some token ∧
      peek cursor = .ok (.ok token cursor) ∧
      (token.kind == .endOfInput) = (cursor.current == firstEnd tokens) := by
  obtain ⟨token, found, ends⟩ := stands.token_at
  refine ⟨token, found, ?_, ends⟩
  unfold peek
  rw [found]

theorem isAtEnd_here :
    isAtEnd cursor = .ok (.ok (cursor.current == firstEnd tokens) cursor) := by
  obtain ⟨token, _found, looked, ends⟩ := peek_here stands
  unfold isAtEnd
  rw [bind_eq looked, ends]
  rfl

theorem previous_here (read : 0 < cursor.current) :
    ∃ token, previous cursor = .ok (.ok token cursor) := by
  obtain ⟨token, found, _ends⟩ := stands.token_at
  obtain ⟨inside, _same⟩ := List.getElem?_eq_some_iff.mp found
  obtain ⟨place, here⟩ := Nat.exists_eq_add_one_of_ne_zero (Nat.ne_of_gt read)
  refine ⟨cursor.tokens[place], ?_⟩
  unfold previous
  simp only [here, List.getElem?_eq_getElem (show place < cursor.tokens.length by omega)]

theorem advance_here (more : cursor.current < firstEnd tokens) :
    ∃ token, advance cursor = .ok (.ok token cursor.forward) := by
  have further : cursor.forward.Stands tokens level start :=
    stands.kept (.moving (by rwa [stands.row]))
  obtain ⟨token, seen⟩ := previous_here further (Nat.succ_pos _)
  have inside : (cursor.current == firstEnd tokens) = false := beq_false_of_ne (Nat.ne_of_lt more)
  refine ⟨token, ?_⟩
  unfold advance
  rw [bind_eq (isAtEnd_here stands), inside]
  exact seen

theorem check_here (wanted : TokenKind → Bool) :
    ∃ found, check wanted cursor = .ok (.ok found cursor) ∧
      (found = true → cursor.current < firstEnd tokens) := by
  obtain ⟨token, _found, looked, _ends⟩ := peek_here stands
  unfold check
  rw [bind_eq (isAtEnd_here stands)]
  cases ended : cursor.current == firstEnd tokens with
  | true => exact ⟨false, rfl, by simp⟩
  | false =>
      refine ⟨wanted token.kind, ?_, fun _ => ?_⟩
      · exact bind_eq looked
      · exact Nat.lt_of_le_of_ne stands.within (ne_of_beq_false ended)

end Primitives

/-- The rule keeps the books wherever the cursor may stand. -/
def Keeps (tokens : List Token) (level start : Nat) (gain : α → Nat) (rule : CursorParser α) :
    Prop :=
  ∀ cursor : Cursor, cursor.Stands tokens level start →
    ∃ outcome, rule cursor = .ok outcome ∧ cursor.Accounts gain outcome

namespace Keeps

variable {gain few : α → Nat} {rule : CursorParser α}

theorem mono {less : α → Nat} (keeps : Keeps tokens level start gain rule)
    (bound : ∀ value, less value ≤ gain value) : Keeps tokens level start less rule := by
  intro cursor stands
  obtain ⟨outcome, ran, accounts⟩ := keeps cursor stands
  refine ⟨outcome, ran, ?_⟩
  cases outcome with
  | error failure after => exact accounts
  | ok value after =>
      obtain ⟨noted, kept, read⟩ := accounts
      exact ⟨noted, kept, Nat.le_trans (Nat.add_le_add_left (bound value) _) read⟩

theorem any (keeps : Keeps tokens level start gain rule) :
    Keeps tokens level start (fun _ => 0) rule :=
  keeps.mono fun _ => Nat.zero_le _

theorem pure {value : α} (nothing : gain value = 0) :
    Keeps tokens level start gain (Pure.pure value) := by
  intro cursor stands
  exact ⟨_, rfl, [], .refl stands.here, by rw [nothing]; exact Nat.le_refl _⟩

theorem failHere {error : SyntaxError} (abandons : error.abandons = true) :
    Keeps tokens level start gain (CursorParser.failHere error) := by
  intro cursor stands
  obtain ⟨token, found, looked, _ends⟩ := peek_here stands
  refine ⟨.error ⟨token, error⟩ cursor, ?_, [], .refl stands.here, abandons, found⟩
  unfold CursorParser.failHere
  rw [bind_eq looked]
  rfl

theorem report {report : SyntaxReport} (minor : report.error.abandons = false) :
    Keeps tokens level start (fun _ => 0) (CursorParser.report report) := by
  intro cursor stands
  exact ⟨_, rfl, [report], .noting stands.here minor, Nat.le_refl _⟩

section Sequences

variable {gain : β → Nat} {next : α → CursorParser β}

/-- What the first rule reads counts for both. -/
theorem bind (keeps : Keeps tokens level start few rule)
    (others : ∀ value,
      Keeps tokens level start (fun result => gain result - few value) (next value)) :
    Keeps tokens level start gain (rule >>= next) := by
  intro cursor stands
  obtain ⟨outcome, ran, accounts⟩ := keeps cursor stands
  cases outcome with
  | error failure after => exact ⟨_, bind_error ran, accounts⟩
  | ok value middle =>
      obtain ⟨noted, kept, read⟩ := accounts
      obtain ⟨outcome, ranNext, accountsNext⟩ := others value middle (stands.kept kept)
      exact ⟨outcome, (bind_eq ran).trans ranNext, accountsNext.since kept read⟩

/-- A rule that only looks gives any value. -/
theorem looking (looks : ∀ cursor : Cursor, cursor.Stands tokens level start →
      ∃ value, rule cursor = .ok (.ok value cursor))
    (others : ∀ value, Keeps tokens level start gain (next value)) :
    Keeps tokens level start gain (rule >>= next) := by
  intro cursor stands
  obtain ⟨value, looked⟩ := looks cursor stands
  rw [bind_eq looked]
  exact others value cursor stands

end Sequences

section Tokens

variable {gain : β → Nat}

theorem atEnd {next : Bool → CursorParser β}
    (others : ∀ ended, Keeps tokens level start gain (next ended)) :
    Keeps tokens level start gain (isAtEnd >>= next) :=
  looking (fun _ stands => ⟨_, isAtEnd_here stands⟩) others

theorem peeking {next : Token → CursorParser β}
    (others : ∀ token, Keeps tokens level start gain (next token)) :
    Keeps tokens level start gain (peek >>= next) := by
  refine looking (fun cursor stands => ?_) others
  obtain ⟨token, _found, looked, _ends⟩ := peek_here stands
  exact ⟨token, looked⟩

theorem checking {wanted : TokenKind → Bool} {next : Bool → CursorParser β}
    (others : ∀ found, Keeps tokens level start gain (next found)) :
    Keeps tokens level start gain (check wanted >>= next) := by
  refine looking (fun cursor stands => ?_) others
  obtain ⟨found, checked, _more⟩ := check_here stands wanted
  exact ⟨found, checked⟩

theorem previous {next : Token → CursorParser β}
    (others : ∀ token, Keeps tokens level (start + 1) gain (next token)) :
    Keeps tokens level (start + 1) gain (CursorParser.previous >>= next) :=
  looking (fun _ stands => previous_here stands (Nat.zero_lt_of_lt stands.start)) others

/-- Behind a token that was read there is one before the cursor. -/
theorem matching {wanted : TokenKind → Bool} {next : Bool → CursorParser β}
    (hit : Keeps tokens level 1 (fun result => gain result - 1) (next true))
    (miss : Keeps tokens level start gain (next false)) :
    Keeps tokens level start gain (CursorParser.matching wanted >>= next) := by
  intro cursor stands
  obtain ⟨found, checked, more⟩ := check_here stands wanted
  cases found with
  | true =>
      have moving : cursor.Kept cursor.forward [] := .moving (by rw [stands.row]; exact more rfl)
      obtain ⟨token, advanced⟩ := advance_here stands (more rfl)
      have matched : CursorParser.matching wanted cursor = .ok (.ok true cursor.forward) := by
        unfold CursorParser.matching
        rw [bind_eq checked, if_pos rfl, bind_eq advanced]
        rfl
      have further := stands.kept moving
      obtain ⟨outcome, ran, accounts⟩ := hit cursor.forward
        { further with start := Nat.succ_le_succ (Nat.zero_le _) }
      exact ⟨outcome, (bind_eq matched).trans ran, accounts.since moving (Nat.le_refl _)⟩
  | false =>
      have refused : CursorParser.matching wanted cursor = .ok (.ok false cursor) := by
        unfold CursorParser.matching
        rw [bind_eq checked]
        rfl
      rw [bind_eq refused]
      exact miss cursor stands

theorem consume (kind : TokenKind) (item : Expected) :
    Keeps tokens level start (fun _ => 1) (CursorParser.consume kind item) := by
  intro cursor stands
  obtain ⟨found, checked, more⟩ := check_here stands (· == kind)
  unfold CursorParser.consume
  rw [bind_eq checked]
  cases found with
  | true =>
      obtain ⟨token, advanced⟩ := advance_here stands (more rfl)
      exact ⟨_, advanced, [], .moving (by rw [stands.row]; exact more rfl), Nat.le_refl _⟩
  | false =>
      have fails : Keeps tokens level start (fun _ => 1)
          (CursorParser.failHere (.missing item) : CursorParser Token) := failHere rfl
      exact fails cursor stands

end Tokens

/-! ### Levels and loops -/

/-- What is changed in front of a rule and undone behind it, also behind a failure, is in no book. -/
theorem between {enter leave : Cursor → Cursor} {inside : Nat}
    (keeps : Keeps tokens inside start gain rule)
    (entered : ∀ cursor : Cursor, cursor.Stands tokens level start →
      (enter cursor).Stands tokens inside start ∧
        ∀ after noted, (enter cursor).Kept after noted → cursor.Kept (leave after) noted)
    (stays : ∀ cursor, (enter cursor).current = cursor.current ∧
      (leave cursor).current = cursor.current ∧ (leave cursor).tokens = cursor.tokens) :
    Keeps tokens level start gain (CursorParser.between enter leave rule) := by
  intro cursor stands
  obtain ⟨standsInside, restored⟩ := entered cursor stands
  obtain ⟨outcome, ran, accounts⟩ := keeps (enter cursor) standsInside
  unfold CursorParser.between
  rw [ran]
  cases outcome with
  | ok value after =>
      obtain ⟨noted, kept, read⟩ := accounts
      refine ⟨_, rfl, noted, restored after noted kept, ?_⟩
      rw [(stays after).2.1, ← (stays cursor).1]
      exact read
  | error failure after =>
      obtain ⟨noted, kept, abandons, found⟩ := accounts
      refine ⟨_, rfl, noted, restored after noted kept, abandons, ?_⟩
      rw [(stays after).2.1, (stays after).2.2]
      exact found

theorem nested {limit : Nat} (keeps : level < limit → Keeps tokens (level + 1) start gain rule) :
    Keeps tokens level start gain (CursorParser.nested limit rule) := by
  intro cursor stands
  change ∃ outcome, (if limit ≤ cursor.nesting then CursorParser.failHere .tooMuchNesting
    else CursorParser.between _ _ rule) cursor = .ok outcome ∧ _
  by_cases full : limit ≤ cursor.nesting
  · rw [if_pos full]
    exact failHere rfl cursor stands
  · rw [if_neg full]
    have room : level < limit := by
      have same := stands.nesting
      omega
    refine between (keeps room) ?_ ?_ cursor stands
    · intro cursor stands
      refine ⟨{ stands with nesting := congrArg (· + 1) stands.nesting }, ?_⟩
      intro after noted kept
      exact { kept with nesting := congrArg (· - 1) kept.nesting }
    · exact fun _ => ⟨rfl, rfl, rfl⟩

theorem insideFunction (keeps : Keeps tokens level start gain rule) :
    Keeps tokens level start gain (CursorParser.insideFunction rule) := by
  refine between keeps ?_ fun _ => ⟨rfl, rfl, rfl⟩
  intro cursor stands
  refine ⟨{ stands with }, ?_⟩
  intro after noted kept
  exact { kept with functionDepth := congrArg (· - 1) kept.functionDepth }

open Row.Tracks (stepGain)

/-- Each round reads a token, so the rounds end before the fuel does. -/
theorem repeating {fuel : Nat} (enough : firstEnd tokens < fuel)
    {step : α → CursorParser (Option α)}
    (keeps : ∀ start value, Keeps tokens level start stepGain (step value)) (value : α) :
    Keeps tokens level start (fun _ => 0) (CursorParser.repeating step fuel value) := by
  have bounded : ∀ fuel value (cursor : Cursor), cursor.Stands tokens level start →
      firstEnd tokens < cursor.current + fuel →
      ∃ outcome, CursorParser.repeating step fuel value cursor = .ok outcome ∧
        cursor.Accounts (fun _ => 0) outcome := by
    intro fuel
    induction fuel with
    | zero =>
        intro value cursor stands less
        exact absurd stands.within (Nat.not_le_of_lt less)
    | succ fuel ih =>
        intro value cursor stands less
        obtain ⟨outcome, ran, accounts⟩ := keeps start value cursor stands
        unfold CursorParser.repeating
        cases outcome with
        | error failure after => exact ⟨_, bind_error ran, accounts⟩
        | ok found middle =>
            obtain ⟨noted, kept, read⟩ := accounts
            rw [bind_eq ran]
            cases found with
            | none => exact ⟨_, rfl, noted, kept, read⟩
            | some next =>
                change cursor.current + 1 ≤ middle.current at read
                obtain ⟨outcome, ranOthers, accountsOthers⟩ :=
                  ih next middle (stands.kept kept) (by omega)
                have forward : cursor.current + 0 ≤ middle.current := Nat.le_of_succ_le read
                exact ⟨outcome, ranOthers, accountsOthers.since kept forward⟩
  intro cursor stands
  exact bounded fuel value cursor stands (by omega)

/-! ### Items -/

section Items

variable {fuel : Nat} {excess : SyntaxError} {item : CursorParser α}

theorem pushItem (minor : excess.abandons = false)
    (keeps : ∀ start, Keeps tokens level start (fun _ => 1) item) (items : List α) :
    Keeps tokens level start (fun _ => 1) (CursorParser.pushItem excess item items) := by
  have pushed : Keeps tokens level start (fun _ => 1) (do return items ++ [← item]) :=
    (keeps start).bind fun _ => pure rfl
  unfold CursorParser.pushItem
  by_cases full : Grammar.maxItems ≤ items.length
  · simp only [if_pos full]
    exact peeking fun token => (report minor).bind fun _ => pushed
  · simp only [if_neg full]
    exact pushed

theorem separated (enough : firstEnd tokens < fuel) (minor : excess.abandons = false)
    (keeps : ∀ start, Keeps tokens level start (fun _ => 1) item) :
    Keeps tokens level start (fun _ => 1) (CursorParser.separated fuel excess item) := by
  refine (pushItem minor keeps []).bind fun first => ?_
  refine repeating enough (fun start items => ?_) first
  refine matching ?_ (pure rfl)
  exact (pushItem minor keeps items).any.bind fun _ => pure rfl

theorem listed (enough : firstEnd tokens < fuel) (minor : excess.abandons = false)
    (keeps : ∀ start, Keeps tokens level start (fun _ => 1) item) :
    Keeps tokens level start (fun _ => 0) (CursorParser.listed fuel excess item) := by
  refine checking fun closed => ?_
  cases closed with
  | true => exact pure rfl
  | false => exact (separated enough minor keeps).any

end Items

end Keeps

end CursorParser

namespace CursorRules

open CursorParser Grammar

/-- The rules that open a level keep the books where so many levels are open, and a success of
theirs reads something. -/
structure Keep (tokens : List Token) (level : Nat) (rules : CursorRules) : Prop where
  expression : ∀ start, Keeps tokens level start (fun _ => 1) rules.expression
  operand : ∀ start, Keeps tokens level start (fun _ => 1) rules.operand
  statement : ∀ start, Keeps tokens level start (fun _ => 1) rules.statement
  declaration : ∀ start, Keeps tokens level start (fun _ => 1) rules.declaration

variable {tokens : List Token} {level start fuel : Nat} {inner : CursorRules}

/-! ### Expressions -/

section Expressions

theorem leftChain_keeps (enough : firstEnd tokens < fuel) {operand : CursorParser Expr}
    (keeps : ∀ start, Keeps tokens level start (fun _ => 1) operand) (wanted : TokenKind → Bool)
    (node : Expr → Token → Expr → Expr) (start : Nat) :
    Keeps tokens level start (fun _ => 1) (leftChain fuel operand wanted node) := by
  refine (keeps start).bind fun first => ?_
  refine Keeps.repeating enough (fun start left => ?_) first
  refine Keeps.matching ?_ (.pure rfl)
  exact Keeps.previous fun operator => (keeps _).any.bind fun right => .pure rfl

theorem primary_keeps (keep : inner.Keep tokens level) :
    Keeps tokens level start (fun _ => 1) (primary inner) := by
  refine Keeps.matching (.pure rfl) ?_
  refine Keeps.matching (.pure rfl) ?_
  refine Keeps.matching (.pure rfl) ?_
  refine Keeps.matching (Keeps.previous fun token => .pure rfl) ?_
  refine Keeps.matching (Keeps.previous fun name => .pure rfl) ?_
  refine Keeps.matching ?_ (.failHere rfl)
  refine (keep.expression _).any.bind fun value => ?_
  exact (Keeps.consume .rightParen .groupClose).any.bind fun _ => .pure rfl

theorem finishCall_keeps (enough : firstEnd tokens < fuel) (keep : inner.Keep tokens level)
    (callee : Expr) : Keeps tokens level start (fun _ => 1) (finishCall fuel inner callee) := by
  refine (Keeps.listed enough rfl keep.expression).bind fun items => ?_
  exact (Keeps.consume .rightParen .argumentsClose).bind fun paren => .pure rfl

theorem call_keeps (enough : firstEnd tokens < fuel) (keep : inner.Keep tokens level) :
    Keeps tokens level start (fun _ => 1) (call fuel inner) := by
  refine (primary_keeps keep).bind fun callee => ?_
  refine Keeps.repeating enough (fun start callee => ?_) callee
  refine Keeps.matching ?_ (.pure rfl)
  exact (finishCall_keeps enough keep callee).any.bind fun _ => .pure rfl

theorem unary_keeps (enough : firstEnd tokens < fuel) (keep : inner.Keep tokens level)
    (start : Nat) : Keeps tokens level start (fun _ => 1) (unary fuel inner) := by
  refine Keeps.matching ?_ (call_keeps enough keep)
  exact Keeps.previous fun operator => (keep.operand _).any.bind fun right => .pure rfl

theorem factor_keeps (enough : firstEnd tokens < fuel) (keep : inner.Keep tokens level) :
    ∀ start, Keeps tokens level start (fun _ => 1) (factor fuel inner) :=
  leftChain_keeps enough (unary_keeps enough keep) isFactor .binary

theorem term_keeps (enough : firstEnd tokens < fuel) (keep : inner.Keep tokens level) :
    ∀ start, Keeps tokens level start (fun _ => 1) (term fuel inner) :=
  leftChain_keeps enough (factor_keeps enough keep) isTerm .binary

theorem comparison_keeps (enough : firstEnd tokens < fuel) (keep : inner.Keep tokens level) :
    ∀ start, Keeps tokens level start (fun _ => 1) (comparison fuel inner) :=
  leftChain_keeps enough (term_keeps enough keep) isComparison .binary

theorem equality_keeps (enough : firstEnd tokens < fuel) (keep : inner.Keep tokens level) :
    ∀ start, Keeps tokens level start (fun _ => 1) (equality fuel inner) :=
  leftChain_keeps enough (comparison_keeps enough keep) isEquality .binary

theorem ternary_keeps (enough : firstEnd tokens < fuel) (keep : inner.Keep tokens level)
    (start : Nat) : Keeps tokens level start (fun _ => 1) (ternary fuel inner) := by
  refine (equality_keeps enough keep start).bind fun condition => ?_
  refine Keeps.matching ?_ (.pure rfl)
  refine Keeps.previous fun question => ?_
  refine (keep.expression _).any.bind fun thenBranch => ?_
  refine (Keeps.consume .colon .conditionalColon).any.bind fun _ => ?_
  exact (keep.expression _).any.bind fun elseBranch => .pure rfl

theorem conjunction_keeps (enough : firstEnd tokens < fuel) (keep : inner.Keep tokens level) :
    ∀ start, Keeps tokens level start (fun _ => 1) (conjunction fuel inner) :=
  leftChain_keeps enough (ternary_keeps enough keep) (· == .andWord) .logical

theorem disjunction_keeps (enough : firstEnd tokens < fuel) (keep : inner.Keep tokens level) :
    ∀ start, Keeps tokens level start (fun _ => 1) (disjunction fuel inner) :=
  leftChain_keeps enough (conjunction_keeps enough keep) (· == .orWord) .logical

theorem assignment_keeps (enough : firstEnd tokens < fuel) (keep : inner.Keep tokens level) :
    Keeps tokens level start (fun _ => 1) (assignment fuel inner) := by
  refine (disjunction_keeps enough keep start).bind fun target => ?_
  refine Keeps.matching ?_ (.pure rfl)
  refine Keeps.previous fun equals => ?_
  refine (keep.expression _).any.bind fun value => ?_
  cases target with
  | «variable» name => exact .pure rfl
  | literal | assign | unary | binary | logical | conditional | call | grouping =>
      exact (Keeps.report rfl).bind fun _ => .pure rfl

theorem comma_keeps (enough : firstEnd tokens < fuel) (keep : inner.Keep tokens level) :
    Keeps tokens level start (fun _ => 1) (comma fuel inner) := by
  refine (keep.expression start).bind fun first => ?_
  refine Keeps.repeating enough (fun start _ => ?_) first
  refine Keeps.matching ?_ (.pure rfl)
  exact (keep.expression _).any.bind fun _ => .pure rfl

end Expressions

/-! ### Statements -/

section Statements

theorem expressionStatement_keeps (keep : inner.Keep tokens level) :
    Keeps tokens level start (fun _ => 1) (expressionStatement inner) := by
  refine (keep.expression start).bind fun value => ?_
  exact (Keeps.consume .semicolon .expressionEnd).any.bind fun _ => .pure rfl

theorem printStatement_keeps (keep : inner.Keep tokens level) :
    Keeps tokens level start (fun _ => 1) (printStatement inner) := by
  refine (keep.expression start).bind fun value => ?_
  exact (Keeps.consume .semicolon .valueEnd).any.bind fun _ => .pure rfl

theorem optionalBefore_keeps (keep : inner.Keep tokens level) (kind : TokenKind) :
    Keeps tokens level start (fun _ => 0) (optionalBefore inner kind) := by
  refine Keeps.checking fun absent => ?_
  cases absent with
  | true => exact .pure rfl
  | false => exact (keep.expression start).any.bind fun value => .pure rfl

/-- The word itself was read last. -/
theorem returnStatement_keeps (keep : inner.Keep tokens level) :
    Keeps tokens level (start + 1) (fun _ => 1) (returnStatement inner) := by
  refine Keeps.previous fun keyword => ?_
  have closing : Keeps tokens level (start + 1) (fun _ => 1) (do
      let value ← optionalBefore inner .semicolon
      let _ ← consume .semicolon .returnEnd
      return Stmt.returning keyword value) :=
    (optionalBefore_keeps keep .semicolon).bind fun value =>
      (Keeps.consume .semicolon .returnEnd).bind fun _ => .pure rfl
  refine Keeps.looking (fun cursor _ => ⟨cursor, rfl⟩) fun cursor => ?_
  by_cases outside : cursor.functionDepth = 0
  · simp only [if_pos outside]
    exact (Keeps.report rfl).bind fun _ => closing
  · simp only [if_neg outside]
    exact closing

theorem variableDeclaration_keeps (keep : inner.Keep tokens level) :
    Keeps tokens level start (fun _ => 1) (variableDeclaration inner) := by
  refine (Keeps.consume .identifier .variableName).bind fun name => ?_
  have closing : ∀ start initializer, Keeps tokens level start (fun _ => 0) (do
      let _ ← consume .semicolon .variableEnd
      return Stmt.variable name initializer) :=
    fun _ _ => (Keeps.consume .semicolon .variableEnd).any.bind fun _ => .pure rfl
  have given : Keeps tokens level 1 (fun _ => 0) (some <$> inner.expression) :=
    (keep.expression 1).any.bind fun _ => .pure rfl
  exact Keeps.matching (given.bind (closing 1)) (closing start none)

theorem blockStep_keeps (keep : inner.Keep tokens level) (start : Nat) (statements : List Stmt) :
    Keeps tokens level start Row.Tracks.stepGain (blockStep inner statements) := by
  refine Keeps.checking fun closed => ?_
  cases closed with
  | true => exact .pure rfl
  | false =>
      refine Keeps.atEnd fun ended => ?_
      cases ended with
      | true => exact .pure rfl
      | false => exact (keep.declaration start).bind fun statement => .pure rfl

theorem block_keeps (enough : firstEnd tokens < fuel) (keep : inner.Keep tokens level) :
    Keeps tokens level start (fun _ => 1) (block fuel inner) := by
  refine (Keeps.repeating enough (blockStep_keeps keep) []).bind fun statements => ?_
  exact (Keeps.consume .rightBrace .blockClose).bind fun _ => .pure rfl

theorem function_keeps (enough : firstEnd tokens < fuel) (keep : inner.Keep tokens level) :
    Keeps tokens level start (fun _ => 1) (function fuel inner) := by
  refine (Keeps.consume .identifier .functionName).bind fun name => ?_
  refine (Keeps.consume .leftParen .functionOpen).any.bind fun _ => ?_
  refine (Keeps.listed enough rfl fun _ => .consume _ _).bind fun items => ?_
  refine (Keeps.consume .rightParen .parametersClose).any.bind fun _ => ?_
  refine (Keeps.consume .leftBrace .bodyOpen).any.bind fun _ => ?_
  exact (block_keeps enough keep).any.insideFunction.bind fun body => .pure rfl

theorem ifStatement_keeps (keep : inner.Keep tokens level) :
    Keeps tokens level start (fun _ => 1) (ifStatement inner) := by
  refine (Keeps.consume .leftParen .ifOpen).bind fun _ => ?_
  refine (keep.expression _).any.bind fun condition => ?_
  refine (Keeps.consume .rightParen .ifClose).any.bind fun _ => ?_
  refine (keep.statement _).any.bind fun thenBranch => ?_
  refine Keeps.matching ?_ (.pure rfl)
  exact (keep.statement _).any.bind fun elseBranch => .pure rfl

theorem whileStatement_keeps (keep : inner.Keep tokens level) :
    Keeps tokens level start (fun _ => 1) (whileStatement inner) := by
  refine (Keeps.consume .leftParen .whileOpen).bind fun _ => ?_
  refine (keep.expression _).any.bind fun condition => ?_
  refine (Keeps.consume .rightParen .whileClose).any.bind fun _ => ?_
  exact (keep.statement _).any.bind fun body => .pure rfl

theorem forInitializer_keeps (keep : inner.Keep tokens level) :
    Keeps tokens level start (fun _ => 1) (forInitializer inner) := by
  refine Keeps.matching (.pure rfl) ?_
  refine Keeps.matching ?_ ?_
  · exact (variableDeclaration_keeps keep).any.bind fun _ => .pure rfl
  · exact (expressionStatement_keeps keep).bind fun _ => .pure rfl

theorem forStatement_keeps (keep : inner.Keep tokens level) :
    Keeps tokens level start (fun _ => 1) (forStatement inner) := by
  refine (Keeps.consume .leftParen .forOpen).bind fun _ => ?_
  refine (forInitializer_keeps keep).any.bind fun initializer => ?_
  refine (optionalBefore_keeps keep .semicolon).bind fun condition => ?_
  refine (Keeps.consume .semicolon .loopConditionEnd).any.bind fun _ => ?_
  refine (optionalBefore_keeps keep .rightParen).bind fun increment => ?_
  refine (Keeps.consume .rightParen .forClose).any.bind fun _ => ?_
  exact (keep.statement _).any.bind fun body => .pure rfl

theorem statementRule_keeps (enough : firstEnd tokens < fuel) (keep : inner.Keep tokens level) :
    Keeps tokens level start (fun _ => 1) (statementRule fuel inner) := by
  refine Keeps.matching (forStatement_keeps keep).any ?_
  refine Keeps.matching (ifStatement_keeps keep).any ?_
  refine Keeps.matching (printStatement_keeps keep).any ?_
  refine Keeps.matching (returnStatement_keeps keep).any ?_
  refine Keeps.matching (whileStatement_keeps keep).any ?_
  refine Keeps.matching ?_ (expressionStatement_keeps keep)
  exact (block_keeps enough keep).any.bind fun statements => .pure rfl

theorem declarationRule_keeps (enough : firstEnd tokens < fuel) (keep : inner.Keep tokens level) :
    Keeps tokens level start (fun _ => 1) (declarationRule fuel inner) := by
  refine Keeps.matching (function_keeps enough keep).any ?_
  exact Keeps.matching (variableDeclaration_keeps keep).any (keep.statement start)

end Statements

/-! ### All levels -/

/-- By induction on the levels that there is fuel for, which are more than the limit leaves. -/
theorem ofFuel_keep {limit depth : Nat} (enough : firstEnd tokens < fuel)
    (deep : limit < level + depth) (opened : level ≤ limit) :
    (ofFuel limit fuel depth).Keep tokens level := by
  induction depth generalizing level with
  | zero => omega
  | succ depth ih =>
      have inner (below : level < limit) : (ofFuel limit fuel depth).Keep tokens (level + 1) :=
        ih (by omega) below
      constructor <;> intro start <;> refine Keeps.nested fun below => ?_
      · exact assignment_keeps enough (inner below)
      · exact unary_keeps enough (inner below) start
      · exact statementRule_keeps enough (inner below)
      · exact declarationRule_keeps enough (inner below)

end CursorRules

/-- The rules of the grammar. -/
inductive Rule where
  | comma
  | expression
  | assignment
  | disjunction
  | conjunction
  | ternary
  | equality
  | comparison
  | term
  | factor
  | unary
  /-- A unary operator's operand. -/
  | operand
  | call
  | finishCall (callee : Expr)
  | primary
  | declaration
  | declarationRule
  | statement
  | statementRule
  | forStatement
  | ifStatement
  | printStatement
  | returnStatement
  | variableDeclaration
  | whileStatement
  | expressionStatement
  | function
  | block

namespace Rule

/-- What the rule gives. -/
def Value : Rule → Type
  | comma | expression | assignment | disjunction | conjunction | ternary | equality | comparison
  | term | factor | unary | operand | call | finishCall _ | primary => Expr
  | declaration | declarationRule | statement | statementRule | forStatement | ifStatement
  | printStatement | returnStatement | variableDeclaration | whileStatement | expressionStatement
  | function => Stmt
  | block => List Stmt

def run (fuel : Nat) (inner : CursorRules) : (rule : Rule) → CursorParser rule.Value
  | comma => CursorRules.comma fuel inner
  | expression => inner.expression
  | assignment => CursorRules.assignment fuel inner
  | disjunction => CursorRules.disjunction fuel inner
  | conjunction => CursorRules.conjunction fuel inner
  | ternary => CursorRules.ternary fuel inner
  | equality => CursorRules.equality fuel inner
  | comparison => CursorRules.comparison fuel inner
  | term => CursorRules.term fuel inner
  | factor => CursorRules.factor fuel inner
  | unary => CursorRules.unary fuel inner
  | operand => inner.operand
  | call => CursorRules.call fuel inner
  | finishCall callee => CursorRules.finishCall fuel inner callee
  | primary => CursorRules.primary inner
  | declaration => inner.declaration
  | declarationRule => CursorRules.declarationRule fuel inner
  | statement => inner.statement
  | statementRule => CursorRules.statementRule fuel inner
  | forStatement => CursorRules.forStatement inner
  | ifStatement => CursorRules.ifStatement inner
  | printStatement => CursorRules.printStatement inner
  | returnStatement => CursorRules.returnStatement inner
  | variableDeclaration => CursorRules.variableDeclaration inner
  | whileStatement => CursorRules.whileStatement inner
  | expressionStatement => CursorRules.expressionStatement inner
  | function => CursorRules.function fuel inner
  | block => CursorRules.block fuel inner

/-- How many tokens at least stand before the cursor where the rule is entered: the rule for `return`
looks back at the word. -/
def entry : Rule → Nat
  | returnStatement => 1
  | _ => 0

theorem keeps {tokens : List Token} {level fuel : Nat} {inner : CursorRules} (rule : Rule)
    (enough : firstEnd tokens < fuel) (keep : inner.Keep tokens level) :
    CursorParser.Keeps tokens level rule.entry (fun _ => 1) (rule.run fuel inner) := by
  cases rule with
  | comma => exact CursorRules.comma_keeps enough keep
  | expression => exact keep.expression _
  | assignment => exact CursorRules.assignment_keeps enough keep
  | disjunction => exact CursorRules.disjunction_keeps enough keep _
  | conjunction => exact CursorRules.conjunction_keeps enough keep _
  | ternary => exact CursorRules.ternary_keeps enough keep _
  | equality => exact CursorRules.equality_keeps enough keep _
  | comparison => exact CursorRules.comparison_keeps enough keep _
  | term => exact CursorRules.term_keeps enough keep _
  | factor => exact CursorRules.factor_keeps enough keep _
  | unary => exact CursorRules.unary_keeps enough keep _
  | operand => exact keep.operand _
  | call => exact CursorRules.call_keeps enough keep
  | finishCall callee => exact CursorRules.finishCall_keeps enough keep callee
  | primary => exact CursorRules.primary_keeps keep
  | declaration => exact keep.declaration _
  | declarationRule => exact CursorRules.declarationRule_keeps enough keep
  | statement => exact keep.statement _
  | statementRule => exact CursorRules.statementRule_keeps enough keep
  | forStatement => exact CursorRules.forStatement_keeps keep
  | ifStatement => exact CursorRules.ifStatement_keeps keep
  | printStatement => exact CursorRules.printStatement_keeps keep
  | returnStatement => exact CursorRules.returnStatement_keeps keep
  | variableDeclaration => exact CursorRules.variableDeclaration_keeps keep
  | whileStatement => exact CursorRules.whileStatement_keeps keep
  | expressionStatement => exact CursorRules.expressionStatement_keeps keep
  | function => exact CursorRules.function_keeps enough keep
  | block => exact CursorRules.block_keeps enough keep

end Rule

/-- Every rule keeps the books. From every place up to the first end of input it comes to an outcome,
and whichever that is, as many levels and function bodies are open as before, the cursor has moved
neither back nor behind the first end of input, and the flag of errors is raised just when it was or
something was reported. A success has read a token. A failure is one at the token under the cursor
and is still to be reported, since nothing that gives up a declaration has been. -/
theorem rules_keep_books (rule : Rule) (cursor : Cursor)
    (ends : cursor.tokens.getLast?.any (·.kind == .endOfInput) = true)
    (within : cursor.current ≤ firstEnd cursor.tokens) (opened : cursor.nesting ≤ maxNesting)
    (entered : rule.entry ≤ cursor.current) :
    ∃ enough, ∀ fuel, enough ≤ fuel → ∃ outcome,
      rule.run fuel (.ofFuel maxNesting fuel fuel) cursor = .ok outcome ∧
        cursor.Accounts (fun _ => 1) outcome := by
  refine ⟨max (maxNesting + 1) (firstEnd cursor.tokens + 1), fun fuel bound => ?_⟩
  have keep : (CursorRules.ofFuel maxNesting fuel fuel).Keep cursor.tokens cursor.nesting :=
    CursorRules.ofFuel_keep (by omega) (by omega) opened
  refine rule.keeps (by omega) keep cursor ⟨rfl, ?_, rfl, entered, within⟩
  unfold Cursor.closed
  rw [if_pos ends]

/-- Behind the first word of `return a`, outside of all functions: the word is reported, and the
missing semicolon is a failure at the end. -/
def openReturn : Cursor where
  tokens := [⟨.returnWord, "return", .nil, 1⟩, ⟨.identifier, "a", .nil, 1⟩, .endOfInput 1]
  current := 1
  functionDepth := 0
  nesting := 2
  hadError := false
  reports := []
  trail := [1, 0]

theorem openReturn_keeps_books :
    ∃ enough, ∀ fuel, enough ≤ fuel → ∃ outcome,
      Rule.run fuel (.ofFuel maxNesting fuel fuel) .returnStatement openReturn = .ok outcome ∧
        openReturn.Accounts (fun _ => 1) outcome :=
  rules_keep_books .returnStatement openReturn (by decide) (by decide) (by decide) (by decide)

end Lox
