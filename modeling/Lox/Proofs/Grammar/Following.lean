import Lox.Proofs.Grammar.Cursor
set_option autoImplicit false

/-! A parser at a cursor and a parser that reads tokens from the front keep in step. What is left to
read tells where the cursor is, so every state of the second is the image of a state of the first;
and a rule that comes to an outcome has left no more to read than before. -/

namespace Lox

/-- Tokens up to the first end of input, that one, and the tokens behind it. -/
structure Row where
  visible : List Token
  ending : Token
  behind : List Token
  plain : ∀ token ∈ visible, token.kind ≠ .endOfInput
  ends : ending.kind = .endOfInput

namespace Parser

variable {α β : Type} {wanted : TokenKind → Bool} {kind : TokenKind} {item : Expected}
variable {state : ParserState}

theorem bind_eq {rule : Parser α} {next : α → Parser β} {after : ParserState} {value : α}
    (ran : rule state = .ok value after) : (rule >>= next) state = next value after := by
  change EStateM.bind rule next state = _
  simp only [EStateM.bind, ran]

theorem bind_error {rule : Parser α} {next : α → Parser β} {after : ParserState}
    {report : SyntaxReport} (ran : rule state = .error report after) :
    (rule >>= next) state = .error report after := by
  change EStateM.bind rule next state = _
  simp only [EStateM.bind, ran]

theorem exists_next (wanted : TokenKind → Bool)
    (found : state.rest.head?.any (wanted ·.kind) = true) :
    ∃ token rest, state.rest = token :: rest ∧ wanted token.kind = true := by
  cases left : state.rest with
  | nil => simp [left] at found
  | cons token rest =>
      rw [left] at found
      exact ⟨token, rest, rfl, found⟩

theorem accept_found {token : Token} {rest : List Token} (left : state.rest = token :: rest)
    (isWanted : wanted token.kind = true) :
    accept wanted state = .ok (some token) { state with rest } := by
  simp [accept, left, isWanted]

theorem accept_missing (missing : ¬ state.rest.head?.any (wanted ·.kind) = true) :
    accept wanted state = .ok none state := by
  unfold accept
  cases left : state.rest with
  | nil => rfl
  | cons token rest =>
      rw [left] at missing
      exact if_neg missing

theorem expect_found {token : Token} {rest : List Token} (left : state.rest = token :: rest)
    (found : (token.kind == kind) = true) :
    expect kind item state = .ok token { state with rest } := by
  unfold expect
  rw [bind_eq (accept_found left found)]
  rfl

theorem expect_missing (missing : ¬ state.rest.head?.any (·.kind == kind) = true) :
    expect kind item state = .error ⟨state.next, .missing item⟩ state := by
  unfold expect
  rw [bind_eq (accept_missing missing)]
  rfl

end Parser

namespace Row

def tokens (row : Row) : List Token :=
  row.visible ++ row.ending :: row.behind

/-- The cursor at which the given tokens are left to read. -/
def cursor (row : Row) (state : ParserState) : Cursor where
  tokens := row.tokens
  current := row.visible.length - state.rest.length
  functionDepth := state.functionDepth
  nesting := state.nesting
  hadError := !state.reports.isEmpty
  reports := state.reports
  trail := (List.range (row.visible.length - state.rest.length + 1)).reverse

/-- The same outcome at the cursor, with another view of the value. -/
def image (row : Row) {α β : Type} (view : β → α) :
    EStateM.Result SyntaxReport ParserState β → EStateM.Result SyntaxReport Cursor α
  | .ok value state => .ok (view value) (row.cursor state)
  | .error report state => .error report (row.cursor state)

/-- The state is one of reading the row. The token before the next one may be known. -/
structure Fits (row : Row) (nesting : Nat) (last : Option Token) (state : ParserState) : Prop where
  suffix : (last.toList ++ state.rest) <:+ row.visible
  ending : state.ending = row.ending
  nesting : state.nesting = nesting

variable {row : Row} {nesting : Nat} {last : Option Token} {state : ParserState}

namespace Fits

theorem forget (fits : row.Fits nesting last state) : row.Fits nesting none state where
  suffix := (List.suffix_append _ _).trans fits.suffix
  ending := fits.ending
  nesting := fits.nesting

theorem length_le (fits : row.Fits nesting last state) :
    state.rest.length ≤ row.visible.length :=
  fits.forget.suffix.length_le

/-- The next token is known once it has been read. -/
theorem read {token : Token} {rest : List Token} (fits : row.Fits nesting last state)
    (left : state.rest = token :: rest) :
    row.Fits nesting (some token) { state with rest } where
  suffix := by
    have suffix := fits.forget.suffix
    rw [left] at suffix
    exact suffix
  ending := fits.ending
  nesting := fits.nesting

theorem plain (fits : row.Fits nesting last state) :
    ∀ token ∈ state.rest, token.kind ≠ .endOfInput :=
  fun token member => row.plain token (fits.forget.suffix.subset member)

/-- What stands at the cursor is the next token. -/
theorem token_at (fits : row.Fits nesting last state) :
    row.tokens[row.visible.length - state.rest.length]? = some state.next := by
  obtain ⟨front, split⟩ := fits.forget.suffix
  have place : row.visible.length - state.rest.length = front.length := by
    rw [← split]
    simp
  rw [place]
  unfold tokens ParserState.next
  rw [← split, fits.ending]
  cases state.rest <;> simp

/-- The token that was read last stands before the cursor. -/
theorem token_before {token : Token} (fits : row.Fits nesting (some token) state) :
    ∃ place, row.visible.length - state.rest.length = place + 1 ∧
      row.tokens[place]? = some token := by
  obtain ⟨front, split⟩ := fits.suffix
  refine ⟨front.length, ?_, ?_⟩
  · rw [← split]
    simp
    omega
  · unfold tokens
    rw [← split]
    simp

theorem next_ends_iff (fits : row.Fits nesting last state) :
    (state.next.kind == .endOfInput) = state.rest.isEmpty := by
  have plain := fits.plain
  unfold ParserState.next
  cases rest : state.rest with
  | nil => simp [fits.ending, row.ends]
  | cons token others =>
      rw [rest] at plain
      simp [plain token List.mem_cons_self]

/-- Reports may change at will. -/
theorem reported (fits : row.Fits nesting last state) (reports : List SyntaxReport) :
    row.Fits nesting last { state with reports } where
  suffix := fits.suffix
  ending := fits.ending
  nesting := fits.nesting

/-! ### What is seen at the cursor -/

theorem peek_eq (fits : row.Fits nesting last state) :
    CursorParser.peek (row.cursor state) = .ok (.ok state.next (row.cursor state)) := by
  have found := fits.token_at
  unfold CursorParser.peek
  simp only [cursor, found]

theorem failHere_eq {α : Type} (fits : row.Fits nesting last state) (error : SyntaxError) :
    (CursorParser.failHere error : CursorParser α) (row.cursor state)
      = .ok (.error ⟨state.next, error⟩ (row.cursor state)) := by
  unfold CursorParser.failHere
  rw [CursorParser.bind_eq fits.peek_eq]
  rfl

theorem isAtEnd_eq (fits : row.Fits nesting last state) :
    CursorParser.isAtEnd (row.cursor state)
      = .ok (.ok state.rest.isEmpty (row.cursor state)) := by
  unfold CursorParser.isAtEnd
  rw [CursorParser.bind_eq fits.peek_eq, fits.next_ends_iff]
  rfl

theorem check_eq (fits : row.Fits nesting last state) (wanted : TokenKind → Bool) :
    CursorParser.check wanted (row.cursor state)
      = .ok (.ok (state.rest.head?.any (wanted ·.kind)) (row.cursor state)) := by
  unfold CursorParser.check
  rw [CursorParser.bind_eq fits.isAtEnd_eq]
  cases left : state.rest with
  | nil => rfl
  | cons token rest =>
      have next : state.next = token := by simp [ParserState.next, left]
      rw [if_neg (by simp), CursorParser.bind_eq fits.peek_eq, next]
      rfl

theorem previous_eq {token : Token} (fits : row.Fits nesting (some token) state) :
    CursorParser.previous (row.cursor state) = .ok (.ok token (row.cursor state)) := by
  obtain ⟨place, current, found⟩ := fits.token_before
  unfold CursorParser.previous
  simp only [cursor, current, found]

theorem forward_eq {token : Token} {rest : List Token} (fits : row.Fits nesting last state)
    (left : state.rest = token :: rest) :
    (row.cursor state).forward = row.cursor { state with rest } := by
  have bound := fits.length_le
  have place : row.visible.length - rest.length = row.visible.length - state.rest.length + 1 := by
    rw [left] at bound ⊢
    simp only [List.length_cons] at bound ⊢
    omega
  unfold Cursor.forward cursor
  simp only [place, List.range_succ, List.reverse_append, List.reverse_cons, List.reverse_nil,
    List.nil_append, List.cons_append]

theorem advance_eq {token : Token} {rest : List Token} (fits : row.Fits nesting last state)
    (left : state.rest = token :: rest) :
    CursorParser.advance (row.cursor state)
      = .ok (.ok token (row.cursor { state with rest })) := by
  have moved : CursorParser.update .forward (row.cursor state)
      = .ok (.ok () (row.cursor { state with rest })) := by
    rw [← fits.forward_eq left]
    rfl
  unfold CursorParser.advance
  rw [CursorParser.bind_eq fits.isAtEnd_eq, left, if_neg (by simp), CursorParser.bind_eq moved]
  exact (fits.read left).previous_eq

end Fits

theorem report_eq (row : Row) (state : ParserState) (report : SyntaxReport) :
    CursorParser.report report (row.cursor state)
      = .ok (.ok () (row.cursor { state with reports := state.reports ++ [report] })) := by
  unfold CursorParser.report CursorParser.update Cursor.noting cursor
  simp

/-! ### Rules that keep in step -/

variable {α β γ δ : Type}

/-- No more is left to read than before, and less by the number of tokens that a value stands
for. -/
def Proceeds (row : Row) (nesting : Nat) (gain : β → Nat) (before : ParserState) :
    EStateM.Result SyntaxReport ParserState β → Prop
  | .ok value state =>
    row.Fits nesting none state ∧ state.rest.length + gain value ≤ before.rest.length
  | .error _ state => row.Fits nesting none state ∧ state.rest.length ≤ before.rest.length

theorem Proceeds.since {gain : β → Nat} {before middle : ParserState}
    {outcome : EStateM.Result SyntaxReport ParserState β}
    (proceeds : row.Proceeds nesting gain middle outcome)
    (less : middle.rest.length ≤ before.rest.length) :
    row.Proceeds nesting gain before outcome := by
  cases outcome with
  | ok value after => exact ⟨proceeds.1, Nat.le_trans proceeds.2 less⟩
  | error report after => exact ⟨proceeds.1, Nat.le_trans proceeds.2 less⟩

def TracksAt (row : Row) (nesting : Nat) (gain : β → Nat) (view : β → α) (copy : CursorParser α)
    (rule : Parser β) (state : ParserState) : Prop :=
  copy (row.cursor state) = .ok (row.image view (rule state)) ∧
    row.Proceeds nesting gain state (rule state)

/-- The two rules keep in step from every state on. -/
def Tracks (row : Row) (nesting : Nat) (last : Option Token) (gain : β → Nat) (view : β → α)
    (copy : CursorParser α) (rule : Parser β) : Prop :=
  ∀ state, row.Fits nesting last state → row.TracksAt nesting gain view copy rule state

/-- Rules that keep in step and give the same value. -/
abbrev Follows (row : Row) (nesting : Nat) (last : Option Token) (copy : CursorParser α)
    (rule : Parser α) : Prop :=
  row.Tracks nesting last (fun _ => 0) id copy rule

namespace Tracks

variable {gain : β → Nat} {view seen : β → α} {copy : CursorParser α} {rule : Parser β}

theorem mono {less : β → Nat} (tracks : row.Tracks nesting last gain view copy rule)
    (bound : ∀ value, less value ≤ gain value) :
    row.Tracks nesting last less view copy rule := by
  intro state fits
  obtain ⟨same, proceeds⟩ := tracks state fits
  refine ⟨same, ?_⟩
  cases outcome : rule state with
  | ok value after =>
      rw [outcome] at proceeds
      exact ⟨proceeds.1, Nat.le_trans (Nat.add_le_add_left (bound value) _) proceeds.2⟩
  | error report after =>
      rw [outcome] at proceeds
      exact proceeds

theorem pure {value : β} {seen : α} (nothing : gain value = 0) (same : view value = seen) :
    row.Tracks nesting last gain view (Pure.pure seen) (Pure.pure value) := by
  intro state fits
  subst same
  refine ⟨rfl, fits.forget, ?_⟩
  rw [nothing]
  exact Nat.le_refl _

theorem bindAt {start : β → δ} {first : CursorParser δ} {firstRule : Parser β} {gain : γ → Nat}
    {view : γ → α} {next : δ → CursorParser α} {nextRule : β → Parser γ} {state : ParserState}
    (tracks : row.TracksAt nesting (fun _ => 0) start first firstRule state)
    (others : ∀ value, row.Tracks nesting none gain view (next (start value)) (nextRule value)) :
    row.TracksAt nesting gain view (first >>= next) (firstRule >>= nextRule) state := by
  obtain ⟨same, proceeds⟩ := tracks
  unfold TracksAt
  cases outcome : firstRule state with
  | error report after =>
      rw [outcome] at same proceeds
      rw [CursorParser.bind_error same, Parser.bind_error outcome]
      exact ⟨rfl, proceeds⟩
  | ok value after =>
      rw [outcome] at same proceeds
      rw [CursorParser.bind_eq same, Parser.bind_eq outcome]
      obtain ⟨sameNext, further⟩ := others value after proceeds.1
      exact ⟨sameNext, further.since proceeds.2⟩

theorem bind {start : β → δ} {first : CursorParser δ} {firstRule : Parser β} {gain : γ → Nat}
    {view : γ → α} {next : δ → CursorParser α} {nextRule : β → Parser γ}
    (tracks : row.Tracks nesting last (fun _ => 0) start first firstRule)
    (others : ∀ value, row.Tracks nesting none gain view (next (start value)) (nextRule value)) :
    row.Tracks nesting last gain view (first >>= next) (firstRule >>= nextRule) :=
  fun state fits => bindAt (tracks state fits) others

theorem follows {copy : CursorParser α} {rule : Parser α} {gain : α → Nat}
    (tracks : row.Tracks nesting last gain id copy rule) : row.Follows nesting last copy rule :=
  tracks.mono fun _ => Nat.zero_le _

theorem branch {gain : β → Nat} {view : β → α} {copy other : CursorParser α}
    {rule otherRule : Parser β} (holds : Bool)
    (first : row.Tracks nesting last gain view copy rule)
    (second : row.Tracks nesting last gain view other otherRule) :
    row.Tracks nesting last gain view (if holds then copy else other)
      (if holds then rule else otherRule) := by
  cases holds with
  | true => exact first
  | false => exact second

theorem fail {gain : β → Nat} {view : β → α} (error : SyntaxError) :
    row.Tracks nesting last gain view (CursorParser.failHere error) (Parser.failHere error) := by
  intro state fits
  exact ⟨fits.failHere_eq error, fits.forget, Nat.le_refl _⟩

/-- The values may be put another way on both sides. -/
theorem transformedAt {gainBefore : β → Nat} {gain : γ → Nat} {view : γ → δ} {other : α → δ}
    {otherRule : β → γ} {state : ParserState}
    (tracks : row.TracksAt nesting gainBefore seen copy rule state)
    (same : ∀ value, view (otherRule value) = other (seen value))
    (less : ∀ value, gain (otherRule value) ≤ gainBefore value) :
    row.TracksAt nesting gain view (copy >>= fun value => Pure.pure (other value))
      (rule >>= fun value => Pure.pure (otherRule value)) state := by
  obtain ⟨agrees, proceeds⟩ := tracks
  unfold TracksAt
  cases outcome : rule state with
  | error report after =>
      rw [outcome] at agrees proceeds
      rw [CursorParser.bind_error agrees, Parser.bind_error outcome]
      exact ⟨rfl, proceeds⟩
  | ok value after =>
      rw [outcome] at agrees proceeds
      rw [CursorParser.bind_eq agrees, Parser.bind_eq outcome, ← same value]
      exact ⟨rfl, proceeds.1, Nat.le_trans (Nat.add_le_add_left (less value) _) proceeds.2⟩

theorem transformed {gainBefore : β → Nat} {gain : γ → Nat} {view : γ → δ} {other : α → δ}
    {otherRule : β → γ} (tracks : row.Tracks nesting last gainBefore seen copy rule)
    (same : ∀ value, view (otherRule value) = other (seen value))
    (less : ∀ value, gain (otherRule value) ≤ gainBefore value) :
    row.Tracks nesting last gain view (copy >>= fun value => Pure.pure (other value))
      (rule >>= fun value => Pure.pure (otherRule value)) :=
  fun state fits => transformedAt (tracks state fits) same less

/-- The value may be put another way where tokens are read from the front. -/
theorem recast {gainBefore : β → Nat} {gain : γ → Nat} {view : γ → α} {otherRule : β → γ}
    (tracks : row.Tracks nesting last gainBefore seen copy rule)
    (same : ∀ value, view (otherRule value) = seen value)
    (less : ∀ value, gain (otherRule value) ≤ gainBefore value) :
    row.Tracks nesting last gain view copy
      (rule >>= fun value => Pure.pure (otherRule value)) := by
  have both : row.Tracks nesting last gain view (copy >>= Pure.pure)
      (rule >>= fun value => Pure.pure (otherRule value)) :=
    tracks.transformed same less
  rw [bind_pure] at both
  exact both

theorem reversed {copy : CursorParser (List α)} {rule : Parser (List α)}
    (tracks : row.Tracks nesting last (fun _ => 0) List.reverse copy rule) :
    row.Follows nesting last copy (rule >>= fun items => Pure.pure items.reverse) :=
  tracks.recast (fun _ => rfl) fun _ => Nat.le_refl _

/-! ### Tokens -/

section Tokens

variable {gain : γ → Nat} {view : γ → α}

theorem look {next : Cursor → CursorParser α} {nextRule : ParserState → Parser γ}
    (others : ∀ state, row.Fits nesting last state →
      row.TracksAt nesting gain view (next (row.cursor state)) (nextRule state) state) :
    row.Tracks nesting last gain view (CursorParser.cursor >>= next) (get >>= nextRule) :=
  fun state fits => others state fits

theorem previous {token : Token} {next : Token → CursorParser α} {nextRule : Parser γ}
    (tracks : row.Tracks nesting (some token) gain view (next token) nextRule) :
    row.Tracks nesting (some token) gain view (CursorParser.previous >>= next) nextRule := by
  intro state fits
  unfold TracksAt
  rw [CursorParser.bind_eq fits.previous_eq]
  exact tracks state fits

theorem checking {wanted : TokenKind → Bool} {next : Bool → CursorParser α}
    {nextRule : Bool → Parser γ}
    (tracks : ∀ found, row.Tracks nesting last gain view (next found) (nextRule found)) :
    row.Tracks nesting last gain view (CursorParser.check wanted >>= next)
      (Parser.nextIs wanted >>= nextRule) := by
  intro state fits
  unfold TracksAt
  rw [CursorParser.bind_eq (fits.check_eq wanted)]
  exact tracks _ state fits

theorem atEnd {next : Bool → CursorParser α} {nextRule : Bool → Parser γ}
    (tracks : ∀ ended, row.Tracks nesting last gain view (next ended) (nextRule ended)) :
    row.Tracks nesting last gain view (CursorParser.isAtEnd >>= next)
      (Parser.atEnd >>= nextRule) := by
  intro state fits
  unfold TracksAt
  rw [CursorParser.bind_eq fits.isAtEnd_eq]
  exact tracks _ state fits

/-- Behind a token that was read, a rule has one token less to account for. -/
theorem read {token : Token} {rest : List Token} {state : ParserState} {copy : CursorParser α}
    {rule : Parser γ} (fits : row.Fits nesting last state) (left : state.rest = token :: rest)
    (tracks : row.Tracks nesting (some token) (fun value => gain value - 1) view copy rule) :
    copy (row.cursor { state with rest }) = .ok (row.image view (rule { state with rest })) ∧
      row.Proceeds nesting gain state (rule { state with rest }) := by
  obtain ⟨same, proceeds⟩ := tracks _ (fits.read left)
  refine ⟨same, ?_⟩
  unfold Proceeds at proceeds ⊢
  rw [left, List.length_cons]
  cases outcome : rule { state with rest } with
  | ok value after =>
      rw [outcome] at proceeds
      refine ⟨proceeds.1, ?_⟩
      have less := proceeds.2
      dsimp only at less
      omega
  | error report after =>
      rw [outcome] at proceeds
      exact ⟨proceeds.1, Nat.le_succ_of_le proceeds.2⟩

theorem matching {wanted : TokenKind → Bool} {next : Bool → CursorParser α}
    {nextRule : Option Token → Parser γ}
    (hit : ∀ token, row.Tracks nesting (some token) (fun value => gain value - 1) view
      (next true) (nextRule (some token)))
    (miss : row.Tracks nesting last gain view (next false) (nextRule none)) :
    row.Tracks nesting last gain view (CursorParser.matching wanted >>= next)
      (Parser.accept wanted >>= nextRule) := by
  intro state fits
  have checked := fits.check_eq wanted
  unfold TracksAt
  by_cases found : state.rest.head?.any (wanted ·.kind) = true
  · obtain ⟨token, rest, left, isWanted⟩ := Parser.exists_next wanted found
    have matched : CursorParser.matching wanted (row.cursor state)
        = .ok (.ok true (row.cursor { state with rest })) := by
      unfold CursorParser.matching
      rw [CursorParser.bind_eq checked, if_pos found, CursorParser.bind_eq (fits.advance_eq left)]
      rfl
    rw [CursorParser.bind_eq matched, Parser.bind_eq (Parser.accept_found left isWanted)]
    exact read fits left (hit token)
  · have refused : CursorParser.matching wanted (row.cursor state)
        = .ok (.ok false (row.cursor state)) := by
      unfold CursorParser.matching
      rw [CursorParser.bind_eq checked, if_neg found]
      rfl
    rw [CursorParser.bind_eq refused, Parser.bind_eq (Parser.accept_missing found)]
    exact miss state fits

theorem consuming {kind : TokenKind} {item : Expected} {next : Token → CursorParser α}
    {nextRule : Token → Parser γ}
    (tracks : ∀ token, row.Tracks nesting (some token) (fun value => gain value - 1) view
      (next token) (nextRule token)) :
    row.Tracks nesting last gain view (CursorParser.consume kind item >>= next)
      (Parser.expect kind item >>= nextRule) := by
  intro state fits
  have checked := fits.check_eq (· == kind)
  unfold TracksAt
  by_cases found : state.rest.head?.any (·.kind == kind) = true
  · obtain ⟨token, rest, left, isKind⟩ := Parser.exists_next (· == kind) found
    have consumed : CursorParser.consume kind item (row.cursor state)
        = .ok (.ok token (row.cursor { state with rest })) := by
      unfold CursorParser.consume
      rw [CursorParser.bind_eq checked, if_pos found]
      exact fits.advance_eq left
    rw [CursorParser.bind_eq consumed, Parser.bind_eq (Parser.expect_found left isKind)]
    exact read fits left (tracks token)
  · have refused : CursorParser.consume kind item (row.cursor state)
        = .ok (.error ⟨state.next, .missing item⟩ (row.cursor state)) := by
      unfold CursorParser.consume
      rw [CursorParser.bind_eq checked, if_neg found]
      exact fits.failHere_eq (.missing item)
    rw [CursorParser.bind_error refused, Parser.bind_error (Parser.expect_missing found)]
    exact ⟨rfl, fits.forget, Nat.le_refl _⟩

theorem consume (kind : TokenKind) (item : Expected) :
    row.Follows nesting last (CursorParser.consume kind item) (Parser.expect kind item) := by
  have tracks : row.Follows nesting last (CursorParser.consume kind item >>= Pure.pure)
      (Parser.expect kind item >>= Pure.pure) :=
    consuming fun _ => pure rfl rfl
  rw [bind_pure, bind_pure] at tracks
  exact tracks

/-- A report is noted on both sides and nothing is read. -/
theorem reporting {report : SyntaxReport} {next : Unit → CursorParser α}
    {nextRule : Unit → Parser γ}
    (tracks : row.Tracks nesting last gain view (next ()) (nextRule ())) :
    row.Tracks nesting last gain view (CursorParser.report report >>= next)
      (Parser.note report >>= nextRule) := by
  intro state fits
  unfold TracksAt
  rw [CursorParser.bind_eq (report_eq row state report)]
  exact tracks _ (fits.reported _)

theorem reportingHere {error : SyntaxError} {next : Unit → CursorParser α}
    {nextRule : Unit → Parser γ}
    (tracks : row.Tracks nesting last gain view (next ()) (nextRule ())) :
    row.Tracks nesting last gain view
      (CursorParser.peek >>= fun token => CursorParser.report ⟨token, error⟩ >>= next)
      (Parser.noteHere error >>= nextRule) := by
  intro state fits
  unfold TracksAt
  rw [CursorParser.bind_eq fits.peek_eq]
  exact reporting tracks state fits

end Tokens

/-! ### Levels -/

section Levels

variable {gain : β → Nat} {view : β → α} {copy : CursorParser α} {rule : Parser β}

/-- Changes of state that read nothing and agree on both sides can stand around a rule. -/
theorem betweenAt {inside : Nat} {enter leave : ParserState → ParserState}
    {enterCopy leaveCopy : Cursor → Cursor} {state : ParserState}
    (tracks : row.Tracks inside none gain view copy rule)
    (entered : enterCopy (row.cursor state) = row.cursor (enter state))
    (fits : row.Fits inside none (enter state)) (nothingRead : (enter state).rest = state.rest)
    (left : ∀ after, row.Fits inside none after →
      leaveCopy (row.cursor after) = row.cursor (leave after) ∧
        row.Fits nesting none (leave after) ∧ (leave after).rest = after.rest) :
    row.TracksAt nesting gain view (CursorParser.between enterCopy leaveCopy copy)
      (Parser.between enter leave rule) state := by
  obtain ⟨same, proceeds⟩ := tracks (enter state) fits
  unfold TracksAt CursorParser.between Parser.between
  rw [entered, same]
  cases outcome : rule (enter state) with
  | ok value after =>
      rw [outcome] at proceeds
      obtain ⟨behind, less⟩ := proceeds
      obtain ⟨leaves, fitsAfter, kept⟩ := left after behind
      rw [nothingRead, ← kept] at less
      refine ⟨?_, fitsAfter, less⟩
      simp only [image, leaves]
  | error report after =>
      rw [outcome] at proceeds
      obtain ⟨behind, less⟩ := proceeds
      obtain ⟨leaves, fitsAfter, kept⟩ := left after behind
      rw [nothingRead, ← kept] at less
      refine ⟨?_, fitsAfter, less⟩
      simp only [image, leaves]

theorem nested {limit : Nat}
    (inner : nesting < limit → row.Tracks (nesting + 1) none gain view copy rule) :
    row.Tracks nesting last gain view (CursorParser.nested limit copy)
      (Parser.nested limit rule) := by
  apply look
  intro state fits
  have level : (row.cursor state).nesting = nesting := fits.nesting
  by_cases full : limit ≤ nesting
  · have above : limit ≤ (row.cursor state).nesting := by omega
    have aboveRule : limit ≤ state.nesting := above
    rw [if_pos above, if_pos aboveRule]
    exact fail .tooMuchNesting state fits
  · have below : ¬ limit ≤ (row.cursor state).nesting := by omega
    have belowRule : ¬ limit ≤ state.nesting := below
    rw [if_neg below, if_neg belowRule]
    refine betweenAt (inner (Nat.lt_of_not_le full)) rfl ?_ rfl ?_
    · exact ⟨fits.forget.suffix, fits.ending, congrArg (· + 1) fits.nesting⟩
    · intro after behind
      exact ⟨rfl, ⟨behind.suffix, behind.ending, congrArg (· - 1) behind.nesting⟩, rfl⟩

/-- At the limit every rule that opens a level fails. -/
theorem refused {limit : Nat} {copy : CursorParser α} (full : limit ≤ nesting) :
    row.Tracks nesting last gain view (CursorParser.nested limit copy)
      (Parser.failHere .tooMuchNesting) := by
  intro state fits
  have level : (row.cursor state).nesting = nesting := fits.nesting
  have above : limit ≤ (row.cursor state).nesting := by omega
  unfold TracksAt
  change (if limit ≤ (row.cursor state).nesting then CursorParser.failHere .tooMuchNesting
    else _) (row.cursor state) = _ ∧ _
  rw [if_pos above]
  exact fail .tooMuchNesting state fits

theorem insideFunction (inner : row.Tracks nesting none gain view copy rule) :
    row.Tracks nesting last gain view (CursorParser.insideFunction copy)
      (Parser.insideFunction rule) := by
  intro state fits
  refine betweenAt inner rfl ⟨fits.forget.suffix, fits.ending, fits.nesting⟩ rfl ?_
  intro after behind
  exact ⟨rfl, ⟨behind.suffix, behind.ending, behind.nesting⟩, rfl⟩

end Levels

/-! ### Loops -/

/-- A step that has more to give reads a token. -/
def stepGain : Option α → Nat
  | none => 0
  | some _ => 1

section Loops

variable {fuel : Nat}

theorem repeatFor {view : β → α} {step : α → CursorParser (Option α)}
    {stepRule : β → Parser (Option β)}
    (tracks : ∀ value, row.Tracks nesting none stepGain (Option.map view)
      (step (view value)) (stepRule value))
    (ends : ∀ value state, state.rest = [] → stepRule value state = .ok none state)
    (rounds : List Token) (value : β) {state : ParserState} (fits : row.Fits nesting none state)
    (bound : state.rest.length ≤ rounds.length) (enough : state.rest.length < fuel) :
    row.TracksAt nesting (fun _ => 0) view (CursorParser.repeating step fuel (view value))
      (Parser.repeatFor stepRule rounds value) state := by
  induction fuel generalizing rounds value state with
  | zero => omega
  | succ fuel ih =>
      obtain ⟨same, proceeds⟩ := tracks value state fits
      unfold TracksAt CursorParser.repeating
      cases rounds with
      | nil =>
          have nothing : state.rest = [] := List.eq_nil_of_length_eq_zero (Nat.le_zero.mp bound)
          rw [ends value state nothing] at same
          rw [CursorParser.bind_eq same]
          exact ⟨rfl, fits, Nat.le_refl _⟩
      | cons round rounds =>
          unfold Parser.repeatFor
          cases outcome : stepRule value state with
          | error report after =>
              rw [outcome] at same proceeds
              rw [CursorParser.bind_error same, Parser.bind_error outcome]
              exact ⟨rfl, proceeds⟩
          | ok found after =>
              rw [outcome] at same proceeds
              obtain ⟨behind, less⟩ := proceeds
              rw [CursorParser.bind_eq same, Parser.bind_eq outcome]
              cases found with
              | none => exact ⟨rfl, behind, less⟩
              | some next =>
                  change after.rest.length + 1 ≤ state.rest.length at less
                  rw [List.length_cons] at bound
                  obtain ⟨sameRest, proceedsRest⟩ :=
                    ih rounds next behind (by omega) (by omega)
                  exact ⟨sameRest, proceedsRest.since (Nat.le_of_succ_le less)⟩

theorem repeating {view : β → α} {step : α → CursorParser (Option α)}
    {stepRule : β → Parser (Option β)} (enough : row.visible.length < fuel)
    (tracks : ∀ value, row.Tracks nesting none stepGain (Option.map view)
      (step (view value)) (stepRule value))
    (ends : ∀ value state, state.rest = [] → stepRule value state = .ok none state) (value : β) :
    row.Tracks nesting last (fun _ => 0) view (CursorParser.repeating step fuel (view value))
      (Parser.repeating stepRule value) :=
  fun state fits => repeatFor tracks ends state.rest value fits.forget (Nat.le_refl _)
    (Nat.lt_of_le_of_lt fits.length_le enough)

/-- Items that are found one by one, put together in any way. -/
theorem many {gather : List β → α} {step : α → CursorParser (Option α)}
    {item : Parser (Option β)} (enough : row.visible.length < fuel)
    (tracks : ∀ found, row.Tracks nesting none stepGain
      (Option.map fun value => gather (found ++ [value])) (step (gather found)) item)
    (ends : ∀ state, state.rest = [] → item state = .ok none state) :
    row.Tracks nesting last (fun _ => 0) gather
      (CursorParser.repeating step fuel (gather [])) (Parser.many item) := by
  let view (found : List β) : α := gather found.reverse
  have steps : ∀ found, row.Tracks nesting none stepGain (Option.map view) (step (view found))
      (item >>= fun value => Pure.pure (value.map (· :: found))) := by
    intro found
    apply (tracks found.reverse).recast
    · intro value
      cases value with
      | none => rfl
      | some value => simp [view]
    · intro value
      cases value <;> exact Nat.le_refl _
  have idle : ∀ (found : List β) state, state.rest = [] →
      (item >>= fun value => Pure.pure (value.map (· :: found))) state
        = .ok none state := by
    intro found state nothing
    rw [Parser.bind_eq (ends state nothing)]
    rfl
  exact (repeating enough steps idle []).recast (fun _ => rfl) fun _ => Nat.le_refl _

end Loops

end Tracks

namespace Follows

variable {copy : CursorParser α} {rule : Parser α}

theorem bind {gain : γ → Nat} {view : γ → β} {next : α → CursorParser β}
    {nextRule : α → Parser γ} (follows : row.Follows nesting last copy rule)
    (others : ∀ value, row.Tracks nesting none gain view (next value) (nextRule value)) :
    row.Tracks nesting last gain view (copy >>= next) (rule >>= nextRule) :=
  Tracks.bind follows others

theorem some (follows : row.Follows nesting last copy rule) :
    row.Follows nesting last (Option.some <$> copy) (Option.some <$> rule) :=
  Tracks.transformed follows (fun _ => rfl) fun _ => Nat.le_refl _

end Follows

end Row

end Lox
