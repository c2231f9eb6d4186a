import Lox.Grammar.Program
set_option autoImplicit false

/-! What parsers read. A phrase tells which values a rule may give, from which tokens, and in front
of which others. A rule reads a phrase if it succeeds, without noting an error, exactly where the
phrase holds. What a composed rule reads is composed of what its parts read. -/

namespace Lox

/-- Whether the first token is of a wanted kind. -/
def begins (wanted : TokenKind → Bool) (tokens : List Token) : Bool :=
  tokens.head?.any (wanted ·.kind)

@[simp] theorem begins_nil (wanted : TokenKind → Bool) : begins wanted [] = false :=
  rfl

@[simp] theorem begins_cons (wanted : TokenKind → Bool) (token : Token) (rest : List Token) :
    begins wanted (token :: rest) = wanted token.kind :=
  rfl

/-- A value, the tokens that it is read from, and the tokens behind. -/
abbrev Phrase (α : Type) := α → List Token → List Token → Prop

namespace Phrase

variable {α β : Type}

def andThen (first : Phrase α) (second : α → Phrase β) : Phrase β := fun value used rest =>
  ∃ middle front back, used = front ++ back ∧ first middle front (back ++ rest) ∧
    second middle value back rest

/-- A token of a wanted kind, and a phrase behind it. -/
def sign (wanted : TokenKind → Bool) (behind : Token → Phrase α) : Phrase α :=
  fun value used rest =>
    ∃ token back, used = token :: back ∧ wanted token.kind = true ∧ behind token value back rest

/-- A phrase behind a token of a wanted kind, or another where no such token stands. -/
def either (wanted : TokenKind → Bool) (behind : Token → Phrase α) (other : Phrase α) :
    Phrase α := fun value used rest =>
  sign wanted behind value used rest ∨
    begins wanted (used ++ rest) = false ∧ other value used rest

/-- One of two phrases, depending on whether a token of a wanted kind is next. -/
def ahead (wanted : TokenKind → Bool) (taken other : Phrase α) : Phrase α :=
  fun value used rest =>
    begins wanted (used ++ rest) = true ∧ taken value used rest ∨
      begins wanted (used ++ rest) = false ∧ other value used rest

/-- Steps from a value on until one gives nothing. -/
inductive Rounds (step : α → Phrase (Option α)) : α → Phrase α
  | stop {value : α} {rest : List Token} (last : step value none [] rest) :
      Rounds step value value [] rest
  | more {value middle final : α} {front back rest : List Token}
      (first : step value (some middle) front (back ++ rest))
      (others : Rounds step middle final back rest) :
      Rounds step value final (front ++ back) rest

/-- Items until there are no more. -/
inductive Items (item : Phrase (Option α)) : Phrase (List α)
  | stop {rest : List Token} (last : item none [] rest) : Items item [] [] rest
  | more {value : α} {values : List α} {front back rest : List Token}
      (first : item (some value) front (back ++ rest)) (others : Items item values back rest) :
      Items item (value :: values) (front ++ back) rest

/-- Items with commas between them, at least one. -/
inductive Separated (item : Phrase α) : Phrase (List α)
  | last {value : α} {used rest : List Token} (only : item value used rest)
      (ends : begins (· == .comma) rest = false) : Separated item [value] used rest
  | more {value : α} {values : List α} {comma : Token} {front back rest : List Token}
      (first : item value front (comma :: (back ++ rest))) (divides : comma.kind = .comma)
      (others : Separated item values back rest) :
      Separated item (value :: values) (front ++ comma :: back) rest

/-- Which of the two phrases holds depends on the first token alone. -/
theorem either_cons {wanted : TokenKind → Bool} {behind : Token → Phrase α} {other : Phrase α}
    {value : α} {token : Token} {back rest : List Token} :
    either wanted behind other value (token :: back) rest ↔
      if wanted token.kind = true then behind token value back rest
      else other value (token :: back) rest := by
  by_cases isWanted : wanted token.kind = true
  · rw [if_pos isWanted]
    constructor
    · intro whole
      rcases whole with ⟨first, others, same, _isWanted, holds⟩ | ⟨left, _holds⟩
      · cases same
        exact holds
      · exact absurd isWanted (Bool.eq_false_iff.mp left)
    · exact fun holds => Or.inl ⟨token, back, rfl, isWanted, holds⟩
  · rw [if_neg isWanted]
    constructor
    · intro known
      rcases known with ⟨first, others, same, isWantedAgain, _holds⟩ | ⟨_left, holds⟩
      · cases same
        exact absurd isWantedAgain isWanted
      · exact holds
    · exact fun holds => Or.inr ⟨Bool.eq_false_iff.mpr isWanted, holds⟩

theorem Separated.length_pos {item : Phrase α} {values : List α} {used rest : List Token}
    (separated : Separated item values used rest) : 0 < values.length := by
  cases separated with
  | last => exact Nat.succ_pos _
  | more => exact Nat.succ_pos _

end Phrase

namespace Parser

variable {α β : Type}

/-- The state behind a parser, also after a failure. -/
def final : EStateM.Result SyntaxReport ParserState α → ParserState
  | .ok _ after => after
  | .error _ after => after

/-- Reports are never taken back. -/
def Grows (rule : Parser α) : Prop :=
  ∀ state, state.reports.length ≤ (final (rule state)).reports.length

/-- The rule succeeds and notes nothing. -/
def Clean (rule : Parser α) (state : ParserState) (value : α) (after : ParserState) : Prop :=
  rule state = .ok value after ∧ after.reports.length ≤ state.reports.length

/-- What a rule reads where some numbers of levels and function bodies are open. -/
structure Reads (rule : Parser α) (nesting functions : Nat) (phrase : Phrase α) : Prop where
  grows : Grows rule
  exact : ∀ state value after, state.nesting = nesting → state.functionDepth = functions →
    (Clean rule state value after ↔
      ∃ used rest, state.rest = used ++ rest ∧ after = { state with rest } ∧
        phrase value used rest)

theorem bind_ok_iff {rule : Parser α} {next : α → Parser β} {state after : ParserState}
    {value : β} :
    (rule >>= next) state = .ok value after ↔
      ∃ middle between, rule state = .ok middle between ∧ next middle between = .ok value after := by
  change EStateM.bind rule next state = _ ↔ _
  unfold EStateM.bind
  cases rule state with
  | ok middle between =>
      constructor
      · intro done
        exact ⟨middle, between, rfl, done⟩
      · intro holds
        rcases holds with ⟨middle, between, same, done⟩
        cases same
        exact done
  | error report between =>
      constructor
      · intro done
        cases done
      · intro whole
        rcases whole with ⟨middle, between, same, done⟩
        cases same

theorem Grows.bind {rule : Parser α} {next : α → Parser β} (first : Grows rule)
    (second : ∀ value, Grows (next value)) : Grows (rule >>= next) := by
  intro state
  have grows := first state
  change _ ≤ (final (EStateM.bind rule next state)).reports.length
  unfold EStateM.bind
  cases outcome : rule state with
  | ok middle between =>
      rw [outcome] at grows
      exact Nat.le_trans grows (second middle between)
  | error report between =>
      rw [outcome] at grows
      exact grows

theorem clean_bind_iff {rule : Parser α} {next : α → Parser β} (first : Grows rule)
    (second : ∀ value, Grows (next value)) {state after : ParserState} {value : β} :
    Clean (rule >>= next) state value after ↔
      ∃ middle between, Clean rule state middle between ∧
        Clean (next middle) between value after := by
  unfold Clean
  rw [bind_ok_iff]
  constructor
  · intro holds
    rcases holds with ⟨⟨middle, between, started, ended⟩, quiet⟩
    have grown := first state
    have grownAgain := second middle between
    rw [started] at grown
    rw [ended] at grownAgain
    exact ⟨middle, between, ⟨started, Nat.le_trans grownAgain quiet⟩, ended,
      Nat.le_trans quiet grown⟩
  · intro whole
    rcases whole with ⟨middle, between, ⟨started, quiet⟩, ended, quietAgain⟩
    exact ⟨⟨middle, between, started, ended⟩, Nat.le_trans quietAgain quiet⟩

namespace Reads

variable {rule : Parser α} {nesting functions : Nat} {phrase other : Phrase α}

theorem congr (reads : Reads rule nesting functions phrase)
    (same : ∀ value used rest, phrase value used rest ↔ other value used rest) :
    Reads rule nesting functions other := by
  have equal : phrase = other := by
    funext value used rest
    exact propext (same value used rest)
  exact equal ▸ reads

/-- Two values that are read off the same tokens are the same, and so are the tokens used. -/
theorem unique (reads : Reads rule nesting functions phrase) {value second : α}
    {used usedSecond rest restSecond : List Token} (first : phrase value used rest)
    (also : phrase second usedSecond restSecond) (same : used ++ rest = usedSecond ++ restSecond) :
    value = second ∧ rest = restSecond := by
  let state : ParserState := ⟨used ++ rest, .endOfInput 1, nesting, functions, []⟩
  have read := (reads.exact state value { state with rest } rfl rfl).mpr
    ⟨used, rest, rfl, rfl, first⟩
  have readSecond := (reads.exact state second { state with rest := restSecond } rfl rfl).mpr
    ⟨usedSecond, restSecond, same, rfl, also⟩
  have outcome := read.1.symm.trans readSecond.1
  rw [EStateM.Result.ok.injEq, ParserState.mk.injEq] at outcome
  exact ⟨outcome.1, outcome.2.1⟩

theorem bind {next : α → Parser β} {behind : α → Phrase β}
    (first : Reads rule nesting functions phrase)
    (second : ∀ value, Reads (next value) nesting functions (behind value)) :
    Reads (rule >>= next) nesting functions (phrase.andThen behind) where
  grows := first.grows.bind fun value => (second value).grows
  exact := by
    intro state value after atNesting atFunctions
    rw [clean_bind_iff first.grows fun value => (second value).grows]
    constructor
    · intro whole
      rcases whole with ⟨middle, between, started, ended⟩
      obtain ⟨front, remaining, split, rfl, holds⟩ :=
        (first.exact state middle between atNesting atFunctions).mp started
      obtain ⟨back, rest, splitAgain, rfl, holdsAgain⟩ :=
        ((second middle).exact { state with rest := remaining } value after atNesting
          atFunctions).mp ended
      change remaining = back ++ rest at splitAgain
      subst splitAgain
      refine ⟨front ++ back, rest, ?_, rfl, middle, front, back, rfl, holds, holdsAgain⟩
      rw [split, List.append_assoc]
    · intro known
      rcases known with ⟨used, rest, split, rfl, middle, front, back, rfl, holds, holdsAgain⟩
      refine ⟨middle, { state with rest := back ++ rest }, ?_, ?_⟩
      · rw [first.exact state middle _ atNesting atFunctions]
        exact ⟨front, back ++ rest, by rw [split, List.append_assoc], rfl, holds⟩
      · rw [(second middle).exact { state with rest := back ++ rest } value _ atNesting
          atFunctions]
        exact ⟨back, rest, rfl, rfl, holdsAgain⟩

end Reads

/-! ### Single tokens -/

variable {nesting functions : Nat} {phrase : Phrase α}

theorem pure_reads (value : α) :
    Reads (pure value) nesting functions fun given used _ => given = value ∧ used = [] where
  grows := fun _state => Nat.le_refl _
  exact := by
    intro state given after _atNesting _atFunctions
    constructor
    · intro holds
      rcases holds with ⟨done, _quiet⟩
      cases done
      exact ⟨[], state.rest, rfl, rfl, rfl, rfl⟩
    · intro whole
      rcases whole with ⟨used, rest, split, rfl, rfl, rfl⟩
      rw [List.nil_append] at split
      subst split
      exact ⟨rfl, Nat.le_refl _⟩

theorem reads_nothing {rule : Parser α} (grows : Grows rule)
    (never : ∀ state value after, ¬ Clean rule state value after) :
    Reads rule nesting functions fun _ _ _ => False where
  grows := grows
  exact := by
    intro state value after _atNesting _atFunctions
    constructor
    · exact fun clean => (never state value after clean).elim
    · intro holds
      rcases holds with ⟨_used, _rest, _split, _same, impossible⟩
      exact impossible.elim

theorem failHere_reads (error : SyntaxError) :
    Reads (failHere error : Parser α) nesting functions fun _ _ _ => False := by
  apply reads_nothing
  · exact fun _state => Nat.le_refl _
  · intro state value after holds
    rcases holds with ⟨done, _quiet⟩
    cases done

theorem note_reads (report : SyntaxReport) :
    Reads (note report) nesting functions fun _ _ _ => False := by
  apply reads_nothing
  · intro state
    change _ ≤ (state.reports ++ [report]).length
    rw [List.length_append]
    exact Nat.le_add_right _ _
  · intro state value after holds
    rcases holds with ⟨done, quiet⟩
    cases done
    change (state.reports ++ [report]).length ≤ _ at quiet
    rw [List.length_append] at quiet
    exact Nat.not_succ_le_self _ quiet

theorem accept_reads (wanted : TokenKind → Bool) :
    Reads (accept wanted) nesting functions fun found used rest =>
      match found with
      | some token => used = [token] ∧ wanted token.kind = true
      | none => used = [] ∧ begins wanted rest = false where
  grows := by
    intro state
    unfold accept
    split
    · exact Nat.le_refl _
    · split <;> exact Nat.le_refl _
  exact := by
    intro state found after _atNesting _atFunctions
    obtain ⟨tokens, ending, openLevels, openBodies, reports⟩ := state
    unfold Clean accept
    dsimp only
    cases tokens with
    | nil =>
        constructor
        · intro whole
          rcases whole with ⟨done, _quiet⟩
          cases done
          exact ⟨[], [], rfl, rfl, rfl, rfl⟩
        · intro known
          rcases known with ⟨used, rest, split, rfl, holds⟩
          obtain ⟨rfl, rfl⟩ := List.append_eq_nil_iff.mp split.symm
          cases found with
          | none => exact ⟨rfl, Nat.le_refl _⟩
          | some token => cases holds.1
    | cons token tokens =>
        dsimp only
        by_cases taken : wanted token.kind = true
        · rw [if_pos taken]
          constructor
          · intro facts
            rcases facts with ⟨done, _quiet⟩
            cases done
            exact ⟨[token], tokens, rfl, rfl, rfl, taken⟩
          · intro stated
            rcases stated with ⟨used, rest, split, rfl, holds⟩
            cases found with
            | none =>
                obtain ⟨rfl, notNext⟩ := holds
                rw [List.nil_append] at split
                rw [← split, begins_cons, taken] at notNext
                cases notNext
            | some found =>
                obtain ⟨rfl, _wanted⟩ := holds
                cases split
                exact ⟨rfl, Nat.le_refl _⟩
        · rw [if_neg taken]
          have left : wanted token.kind = false := Bool.eq_false_iff.mpr taken
          constructor
          · intro reached
            rcases reached with ⟨done, _quiet⟩
            cases done
            exact ⟨[], token :: tokens, rfl, rfl, rfl, left⟩
          · intro assumed
            rcases assumed with ⟨used, rest, split, rfl, holds⟩
            cases found with
            | none =>
                obtain ⟨rfl, _notNext⟩ := holds
                rw [List.nil_append] at split
                subst split
                exact ⟨rfl, Nat.le_refl _⟩
            | some found =>
                obtain ⟨rfl, isWanted⟩ := holds
                cases split
                exact absurd isWanted taken

theorem accept_bind_reads {next : Option Token → Parser α} {wanted : TokenKind → Bool}
    {behind : Token → Phrase α} {other : Phrase α}
    (some : ∀ token, Reads (next (some token)) nesting functions (behind token))
    (none : Reads (next none) nesting functions other) :
    Reads (accept wanted >>= next) nesting functions (.either wanted behind other) := by
  have branches : ∀ found, Reads (next found) nesting functions
      (match found with
      | .some token => behind token
      | .none => other) := by
    intro found
    cases found with
    | none => exact none
    | some token => exact some token
  apply ((accept_reads wanted).bind branches).congr
  intro value used rest
  constructor
  · intro whole
    rcases whole with ⟨found, front, back, rfl, accepted, holds⟩
    cases found with
    | none =>
        obtain ⟨rfl, left⟩ := accepted
        exact Or.inr ⟨left, holds⟩
    | some token =>
        obtain ⟨rfl, isWanted⟩ := accepted
        exact Or.inl ⟨token, back, rfl, isWanted, holds⟩
  · intro known
    rcases known with ⟨token, back, rfl, isWanted, holds⟩ | ⟨left, holds⟩
    · exact ⟨.some token, [token], back, rfl, ⟨rfl, isWanted⟩, holds⟩
    · exact ⟨.none, [], used, rfl, ⟨rfl, left⟩, holds⟩

theorem expect_reads (kind : TokenKind) (item : Expected) :
    Reads (expect kind item) nesting functions fun token used _ =>
      used = [token] ∧ token.kind = kind := by
  have reads : Reads (expect kind item) nesting functions _ :=
    accept_bind_reads (fun token => pure_reads token)
      (failHere_reads (.missing item))
  apply reads.congr
  intro token used rest
  constructor
  · intro holds
    rcases holds with ⟨token, back, rfl, isKind, rfl, rfl⟩ | ⟨_left, impossible⟩
    · exact ⟨rfl, beq_iff_eq.mp isKind⟩
    · exact impossible.elim
  · intro whole
    rcases whole with ⟨rfl, rfl⟩
    exact Or.inl ⟨token, [], rfl, beq_self_eq_true _, rfl, rfl⟩

theorem expect_bind_reads {next : Token → Parser α} {kind : TokenKind} {behind : Token → Phrase α}
    (item : Expected) (reads : ∀ token, Reads (next token) nesting functions (behind token)) :
    Reads (expect kind item >>= next) nesting functions (.sign (· == kind) behind) := by
  apply ((expect_reads kind item).bind reads).congr
  intro value used rest
  constructor
  · intro whole
    rcases whole with ⟨token, front, back, rfl, ⟨rfl, rfl⟩, holds⟩
    exact ⟨token, back, rfl, beq_self_eq_true _, holds⟩
  · intro known
    rcases known with ⟨token, back, rfl, isKind, holds⟩
    exact ⟨token, [token], back, rfl, ⟨rfl, beq_iff_eq.mp isKind⟩, holds⟩

/-- A rule that first looks at the state, of which it only learns what is open and what is next. -/
theorem look_bind_reads {seen : ParserState → β} {next : β → Parser α}
    (grows : ∀ value, Grows (next value))
    (reads : ∀ state : ParserState, state.nesting = nesting → state.functionDepth = functions →
      ∃ own, Reads (next (seen state)) nesting functions own ∧
        ∀ value used rest, state.rest = used ++ rest →
          (own value used rest ↔ phrase value used rest)) :
    Reads ((do return seen (← get)) >>= next) nesting functions phrase where
  grows := fun state => grows (seen state) state
  exact := by
    intro state value after atNesting atFunctions
    obtain ⟨own, ownReads, same⟩ := reads state atNesting atFunctions
    change Clean (next (seen state)) state value after ↔ _
    rw [ownReads.exact state value after atNesting atFunctions]
    refine exists_congr fun used => exists_congr fun rest => ?_
    constructor
    · intro whole
      rcases whole with ⟨split, isBehind, holds⟩
      exact ⟨split, isBehind, (same value used rest split).mp holds⟩
    · intro known
      rcases known with ⟨split, isBehind, holds⟩
      exact ⟨split, isBehind, (same value used rest split).mpr holds⟩

theorem nextIs_bind_reads {next : Bool → Parser α} {wanted : TokenKind → Bool}
    {taken other : Phrase α} (true : Reads (next true) nesting functions taken)
    (false : Reads (next false) nesting functions other) :
    Reads (nextIs wanted >>= next) nesting functions (.ahead wanted taken other) := by
  apply look_bind_reads
  · intro value
    cases value with
    | true => exact true.grows
    | false => exact false.grows
  · intro state _atNesting _atFunctions
    cases found : begins wanted state.rest with
    | true =>
        change state.rest.head?.any _ = _ at found
        rw [found]
        refine ⟨taken, true, ?_⟩
        intro value used rest split
        change begins wanted state.rest = _ at found
        rw [split] at found
        unfold Phrase.ahead
        rw [found]
        simp only [true_and, Bool.true_eq_false, false_and, or_false]
    | false =>
        change state.rest.head?.any _ = _ at found
        rw [found]
        refine ⟨other, false, ?_⟩
        intro value used rest split
        change begins wanted state.rest = _ at found
        rw [split] at found
        unfold Phrase.ahead
        rw [found]
        simp only [true_and, Bool.false_eq_true, false_and, false_or]

/-! ### Open levels and function bodies -/

theorem between_clean_iff {rule : Parser α} {enter leave : ParserState → ParserState}
    {state after : ParserState} {value : α}
    (entering : (enter state).reports.length = state.reports.length)
    (leaving : ∀ later, (leave later).reports.length = later.reports.length) :
    Clean (between enter leave rule) state value after ↔
      ∃ later, Clean rule (enter state) value later ∧ after = leave later := by
  unfold Clean between
  rw [entering]
  cases rule (enter state) with
  | error report later =>
      constructor
      · intro holds
        rcases holds with ⟨done, _quiet⟩
        cases done
      · intro whole
        rcases whole with ⟨later, ⟨done, _quiet⟩, _same⟩
        cases done
  | ok result later =>
      constructor
      · intro known
        rcases known with ⟨done, quiet⟩
        cases done
        rw [leaving] at quiet
        exact ⟨later, ⟨rfl, quiet⟩, rfl⟩
      · intro facts
        rcases facts with ⟨later, ⟨done, quiet⟩, rfl⟩
        cases done
        rw [leaving]
        exact ⟨rfl, quiet⟩

theorem between_grows {rule : Parser α} {enter leave : ParserState → ParserState}
    (grows : Grows rule) (entering : ∀ state, (enter state).reports = state.reports)
    (leaving : ∀ later, (leave later).reports = later.reports) :
    Grows (between enter leave rule) := by
  intro state
  have grown := grows (enter state)
  rw [entering] at grown
  unfold between
  cases outcome : rule (enter state) with
  | ok result later =>
      rw [outcome] at grown
      change _ ≤ (leave later).reports.length
      rw [leaving]
      exact grown
  | error report later =>
      rw [outcome] at grown
      change _ ≤ (leave later).reports.length
      rw [leaving]
      exact grown

theorem insideFunction_reads {rule : Parser α}
    (reads : Reads rule nesting (functions + 1) phrase) :
    Reads (insideFunction rule) nesting functions phrase where
  grows := between_grows reads.grows (by exact fun _ => rfl) (by exact fun _ => rfl)
  exact := by
    intro state value after atNesting atFunctions
    unfold insideFunction
    rw [between_clean_iff (by rfl) (by exact fun _ => rfl)]
    have inside := fun later =>
      reads.exact { state with functionDepth := state.functionDepth + 1 } value later atNesting
        (congrArg (· + 1) atFunctions)
    constructor
    · intro whole
      rcases whole with ⟨later, clean, rfl⟩
      obtain ⟨used, rest, split, rfl, holds⟩ := (inside later).mp clean
      exact ⟨used, rest, split, rfl, holds⟩
    · intro known
      rcases known with ⟨used, rest, split, rfl, holds⟩
      exact ⟨_, (inside _).mpr ⟨used, rest, split, rfl, holds⟩, rfl⟩

theorem nested_reads {rule : Parser α} {limit : Nat} (room : nesting < limit)
    (reads : Reads rule (nesting + 1) functions phrase) :
    Reads (nested limit rule) nesting functions phrase where
  grows := by
    intro state
    change _ ≤ (final ((if limit ≤ state.nesting then failHere .tooMuchNesting else _ :
      Parser α) state)).reports.length
    split
    · exact Nat.le_refl _
    · exact between_grows reads.grows (by exact fun _ => rfl) (by exact fun _ => rfl) state
  exact := by
    intro state value after atNesting atFunctions
    have open' : ¬ limit ≤ state.nesting := by
      rw [atNesting]
      exact Nat.not_le_of_lt room
    have enters : Clean (nested limit rule) state value after
        = Clean (between (fun state => { state with nesting := state.nesting + 1 })
          (fun state => { state with nesting := state.nesting - 1 }) rule) state value after := by
      change ((if limit ≤ state.nesting then failHere .tooMuchNesting else _ :
        Parser α) state = _ ∧ _) = _
      rw [if_neg open']
      rfl
    rw [enters, between_clean_iff (by rfl) (by exact fun _ => rfl)]
    have inside := fun later =>
      reads.exact { state with nesting := state.nesting + 1 } value later
        (congrArg (· + 1) atNesting) atFunctions
    constructor
    · intro whole
      rcases whole with ⟨later, clean, rfl⟩
      obtain ⟨used, rest, split, rfl, holds⟩ := (inside later).mp clean
      exact ⟨used, rest, split, rfl, holds⟩
    · intro known
      rcases known with ⟨used, rest, split, rfl, holds⟩
      exact ⟨_, (inside _).mpr ⟨used, rest, split, rfl, holds⟩, rfl⟩

/-! ### Repetitions -/

theorem repeatFor_grows {step : α → Parser (Option α)} (grows : ∀ value, Grows (step value))
    (rounds : List Token) (value : α) : Grows (repeatFor step rounds value) := by
  induction rounds generalizing value with
  | nil => exact fun _state => Nat.le_refl _
  | cons round rounds ih =>
      apply (grows value).bind
      intro given
      cases given with
      | none => exact fun _state => Nat.le_refl _
      | some middle => exact ih middle

/-- The tokens that are left bound the rounds, because each of them reads one. -/
theorem repeatFor_exact {step : α → Parser (Option α)} {phrase : α → Phrase (Option α)}
    (reads : ∀ value, Reads (step value) nesting functions (phrase value))
    (ends : ∀ value, phrase value none [] [])
    (stays : ∀ value used rest, phrase value none used rest → used = [])
    (moves : ∀ value middle used rest, phrase value (some middle) used rest → used ≠ [])
    (rounds : List Token) (start value : α) (state after : ParserState)
    (enough : state.rest.length ≤ rounds.length) (atNesting : state.nesting = nesting)
    (atFunctions : state.functionDepth = functions) :
    Clean (repeatFor step rounds start) state value after ↔
      ∃ used rest, state.rest = used ++ rest ∧ after = { state with rest } ∧
        Phrase.Rounds phrase start value used rest := by
  induction rounds generalizing start state with
  | nil =>
      have ended : state.rest = [] := List.length_eq_zero_iff.mp (Nat.le_zero.mp enough)
      rw [repeatFor, (pure_reads start).exact state value after atNesting atFunctions]
      constructor
      · intro whole
        rcases whole with ⟨used, rest, split, rfl, rfl, rfl⟩
        rw [ended] at split
        obtain rfl : rest = [] := split.symm
        exact ⟨[], [], ended, rfl, .stop (ends value)⟩
      · intro known
        rcases known with ⟨used, rest, split, rfl, holds⟩
        rw [ended] at split
        obtain ⟨rfl, rfl⟩ := List.append_eq_nil_iff.mp split.symm
        refine ⟨[], [], ended, rfl, ?_, rfl⟩
        generalize none : ([] : List Token) = used at holds
        cases holds with
        | stop last => rfl
        | more first others =>
            obtain ⟨rfl, _⟩ := List.append_eq_nil_iff.mp none.symm
            exact absurd rfl (moves _ _ _ _ first)
  | cons round rounds ih =>
      rw [repeatFor, clean_bind_iff (reads start).grows fun given => by
        cases given with
        | none => exact fun _state => Nat.le_refl _
        | some middle => exact repeatFor_grows (fun value => (reads value).grows) rounds middle]
      constructor
      · intro facts
        rcases facts with ⟨given, between, stepped, continued⟩
        obtain ⟨front, remaining, split, rfl, holds⟩ :=
          ((reads start).exact state given between atNesting atFunctions).mp stepped
        cases given with
        | none =>
            obtain rfl := stays _ _ _ holds
            cases continued.1
            exact ⟨[], remaining, split, rfl, .stop holds⟩
        | some middle =>
            have moved := List.length_pos_iff.mpr (moves _ _ _ _ holds)
            rw [split, List.length_append, List.length_cons] at enough
            have less : remaining.length ≤ rounds.length := by omega
            obtain ⟨back, rest, splitAgain, rfl, others⟩ :=
              (ih middle { state with rest := remaining } less atNesting atFunctions).mp continued
            change remaining = back ++ rest at splitAgain
            subst splitAgain
            refine ⟨front ++ back, rest, ?_, rfl, .more holds others⟩
            rw [split, List.append_assoc]
      · intro stated
        rcases stated with ⟨used, rest, split, rfl, holds⟩
        cases holds with
        | stop last =>
            refine ⟨none, { state with rest }, ?_, rfl, Nat.le_refl _⟩
            exact ((reads value).exact state none _ atNesting atFunctions).mpr
              ⟨[], rest, split, rfl, last⟩
        | @more _ middle _ front back _ first others =>
            have moved := List.length_pos_iff.mpr (moves _ _ _ _ first)
            rw [split, List.length_append, List.length_append, List.length_cons] at enough
            have less : (back ++ rest).length ≤ rounds.length := by
              rw [List.length_append]
              omega
            refine ⟨some middle, { state with rest := back ++ rest }, ?_, ?_⟩
            · exact ((reads start).exact state (some middle) _ atNesting atFunctions).mpr
                ⟨front, back ++ rest, by rw [split, List.append_assoc], rfl, first⟩
            · exact (ih middle { state with rest := back ++ rest } less atNesting
                atFunctions).mpr ⟨back, rest, rfl, rfl, others⟩

theorem repeating_reads {step : α → Parser (Option α)} {phrase : α → Phrase (Option α)}
    (reads : ∀ value, Reads (step value) nesting functions (phrase value))
    (ends : ∀ value, phrase value none [] [])
    (stays : ∀ value used rest, phrase value none used rest → used = [])
    (moves : ∀ value middle used rest, phrase value (some middle) used rest → used ≠ [])
    (start : α) : Reads (repeating step start) nesting functions (Phrase.Rounds phrase start) where
  grows := fun state => repeatFor_grows (fun value => (reads value).grows) state.rest start state
  exact := fun state value after atNesting atFunctions =>
    repeatFor_exact reads ends stays moves state.rest start value state after (Nat.le_refl _)
      atNesting atFunctions

theorem map_reads {rule : Parser α} (transform : α → β) (reads : Reads rule nesting functions phrase) :
    Reads (do return transform (← rule)) nesting functions fun value used rest =>
      ∃ given, phrase given used rest ∧ value = transform given := by
  apply (reads.bind fun given => pure_reads (transform given)).congr
  intro value used rest
  constructor
  · intro whole
    rcases whole with ⟨given, front, back, rfl, holds, rfl, rfl⟩
    rw [List.append_nil]
    exact ⟨given, holds, rfl⟩
  · intro known
    rcases known with ⟨given, holds, rfl⟩
    exact ⟨given, used, [], (List.append_nil used).symm, holds, rfl, rfl⟩

/-- The rounds of a rule that collects items, the last one first. -/
theorem collecting_rounds_iff {phrase : Phrase (Option α)} (found final : List α)
    (used rest : List Token) :
    Phrase.Rounds (fun found value used rest =>
        ∃ given, phrase given used rest ∧ value = given.map (· :: found)) found final used rest ↔
      ∃ values, Phrase.Items phrase values used rest ∧ final = values.reverse ++ found := by
  constructor
  · intro holds
    induction holds with
    | @stop found rest last =>
        obtain ⟨given, last, same⟩ := last
        cases given with
        | none => exact ⟨[], .stop last, rfl⟩
        | some value => cases same
    | @more found middle final front back rest first others ih =>
        obtain ⟨given, first, same⟩ := first
        cases given with
        | none => cases same
        | some value =>
            cases same
            obtain ⟨values, items, rfl⟩ := ih
            refine ⟨value :: values, .more first items, ?_⟩
            rw [List.reverse_cons, List.append_assoc, List.singleton_append]
  · intro facts
    rcases facts with ⟨values, items, rfl⟩
    induction items generalizing found with
    | stop last => exact .stop ⟨none, last, rfl⟩
    | @more value values front back rest first others ih =>
        rw [List.reverse_cons, List.append_assoc, List.singleton_append]
        exact .more ⟨some value, first, rfl⟩ (ih (value :: found))

theorem many_reads {item : Parser (Option α)} {phrase : Phrase (Option α)}
    (reads : Reads item nesting functions phrase) (ends : phrase none [] [])
    (stays : ∀ used rest, phrase none used rest → used = [])
    (moves : ∀ value used rest, phrase (some value) used rest → used ≠ []) :
    Reads (many item) nesting functions (Phrase.Items phrase) := by
  have steps : ∀ found : List α, Reads (do return (← item).map (· :: found)) nesting functions _ :=
    fun found => map_reads (Option.map (· :: found)) reads
  have rounds := repeating_reads steps
    (fun found => ⟨none, ends, rfl⟩)
    (fun found used rest => by
      intro whole
      rcases whole with ⟨given, holds, same⟩
      cases given with
      | none => exact stays used rest holds
      | some value => cases same)
    (fun found middle used rest => by
      intro known
      rcases known with ⟨given, holds, same⟩
      cases given with
      | none => cases same
      | some value => exact moves value used rest holds) []
  apply (map_reads List.reverse rounds).congr
  intro values used rest
  constructor
  · intro stated
    rcases stated with ⟨final, holds, rfl⟩
    obtain ⟨values, items, rfl⟩ := (collecting_rounds_iff [] final used rest).mp holds
    rw [List.append_nil, List.reverse_reverse]
    exact items
  · intro items
    refine ⟨values.reverse, (collecting_rounds_iff [] _ used rest).mpr ⟨values, items, ?_⟩, ?_⟩
    · rw [List.append_nil]
    · rw [List.reverse_reverse]

/-! ### Lists with commas -/

theorem note_bind_reads {next : Unit → Parser α} (report : SyntaxReport)
    (reads : Reads (next ()) nesting functions phrase) :
    Reads (note report >>= next) nesting functions fun _ _ _ => False := by
  apply ((note_reads report).bind fun _ => reads).congr
  intro value used rest
  constructor
  · intro holds
    obtain ⟨_middle, _front, _back, _split, impossible, _behind⟩ := holds
    exact impossible
  · exact False.elim

theorem noteHere_bind_reads {next : Unit → Parser α} (error : SyntaxError)
    (reads : Reads (next ()) nesting functions phrase) :
    Reads (noteHere error >>= next) nesting functions fun _ _ _ => False where
  grows := fun state => (note_bind_reads ⟨state.next, error⟩ reads).grows state
  exact := fun state value after =>
    (note_bind_reads ⟨state.next, error⟩ reads).exact state value after

def moreItems (item : Phrase α) (items : List α) : Phrase (Option (List α)) :=
  .either (· == .comma)
    (fun _comma given used rest =>
      items.length < Grammar.maxItems ∧ ∃ value, item value used rest ∧ given = some (value :: items))
    fun given used _ => given = none ∧ used = []

theorem separated_of_rounds {item : Phrase α} {start final : List α} {back rest : List Token}
    (rounds : Phrase.Rounds (moreItems item) start final back rest) :
    ∀ value found front, start = value :: found → start.length ≤ Grammar.maxItems →
      item value front (back ++ rest) →
      ∃ values, Phrase.Separated item (value :: values) (front ++ back) rest ∧
        final = (value :: values).reverse ++ found ∧ final.length ≤ Grammar.maxItems := by
  induction rounds with
  | @stop items rest last =>
      intro value found front whole bounded holds
      subst whole
      rcases last with ⟨comma, other, split, _isComma, _bound, value', _holds, same⟩ | last
      · cases same
      · rw [List.append_nil]
        exact ⟨[], .last holds last.1, rfl, bounded⟩
  | @more items middle final front' back rest first others ih =>
      intro value found front known bounded holds
      subst known
      rcases first with ⟨comma, own, rfl, isComma, bound, second, holdsAgain, same⟩ | first
      · cases same
        obtain ⟨values, separated, rfl, boundedAgain⟩ :=
          ih second (value :: found) own rfl bound holdsAgain
        refine ⟨second :: values, ?_, ?_, boundedAgain⟩
        · rw [List.cons_append]
          exact .more holds (beq_iff_eq.mp isComma) separated
        · rw [List.reverse_cons (a := value), List.append_assoc, List.singleton_append]
      · cases first.2.1

theorem rounds_of_separated {item : Phrase α} {values : List α} {used rest : List Token}
    (separated : Phrase.Separated item values used rest) :
    ∀ found : List α, values.length + found.length ≤ Grammar.maxItems →
      ∃ value front back, used = front ++ back ∧ item value front (back ++ rest) ∧
        Phrase.Rounds (moreItems item) (value :: found) (values.reverse ++ found) back rest := by
  induction separated with
  | @last value used rest only ends =>
      intro found _bounded
      refine ⟨value, used, [], (List.append_nil used).symm, only, ?_⟩
      exact .stop (Or.inr ⟨ends, rfl, rfl⟩)
  | @more value values comma front back rest first divides others ih =>
      intro found bounded
      have boundedAgain : values.length + (value :: found).length ≤ Grammar.maxItems := by
        rw [List.length_cons] at bounded ⊢
        omega
      obtain ⟨second, own, behind, rfl, holds, rounds⟩ := ih (value :: found) boundedAgain
      have room : (value :: found).length < Grammar.maxItems := by
        have some : 0 < values.length := others.length_pos
        rw [List.length_cons] at bounded ⊢
        omega
      refine ⟨value, front, comma :: (own ++ behind), rfl, first, ?_⟩
      rw [List.reverse_cons, List.append_assoc, List.singleton_append]
      have first : moreItems item (value :: found) (some (second :: value :: found)) (comma :: own)
          (behind ++ rest) :=
        Or.inl ⟨comma, own, rfl, beq_iff_eq.mpr divides, room, second, holds, rfl⟩
      exact .more first rounds

theorem commaSeparated_reads {item : Parser α} (excess : SyntaxError)
    (reads : Reads item nesting functions phrase) :
    Reads (Grammar.commaSeparated excess item) nesting functions fun values used rest =>
      values.length ≤ Grammar.maxItems ∧ Phrase.Separated phrase values used rest := by
  have whole : Reads (Grammar.commaSeparated excess item) nesting functions
      (phrase.andThen fun first values used rest =>
        ∃ found, Phrase.Rounds (moreItems phrase) [first] found used rest ∧
          values = found.reverse) := by
    refine reads.bind fun first =>
      map_reads List.reverse (repeating_reads (fun items => ?_) ?_ ?_ ?_ [first])
    · have others := map_reads (fun value => some (value :: items)) reads
      apply accept_bind_reads
      · intro comma
        by_cases full : Grammar.maxItems ≤ items.length
        · dsimp only
          rw [if_pos full]
          apply (noteHere_bind_reads excess others).congr
          intro given used rest
          constructor
          · exact False.elim
          · exact fun holds => absurd full (Nat.not_le_of_lt holds.1)
        · dsimp only
          rw [if_neg full]
          apply others.congr
          intro given used rest
          constructor
          · exact fun holds => ⟨Nat.lt_of_not_le full, holds⟩
          · exact fun holds => holds.2
      · exact pure_reads none
    · exact fun items => Or.inr ⟨rfl, rfl, rfl⟩
    · intro items used rest stopped
      rcases stopped with ⟨comma, back, rfl, _isComma, _bound, value, _holds, same⟩ | stopped
      · cases same
      · exact stopped.2.2
    · intro items middle used rest stepped
      rcases stepped with ⟨comma, back, rfl, _isComma, _holds⟩ | stopped
      · exact List.cons_ne_nil comma back
      · cases stopped.2.1
  apply whole.congr
  intro values used rest
  constructor
  · intro known
    rcases known with ⟨first, front, back, rfl, holds, final, rounds, rfl⟩
    obtain ⟨others, separated, rfl, bounded⟩ :=
      separated_of_rounds rounds first [] front rfl (Nat.succ_le_succ (Nat.zero_le 254)) holds
    rw [List.append_nil] at bounded ⊢
    rw [List.reverse_reverse]
    rw [List.length_reverse] at bounded
    exact ⟨bounded, separated⟩
  · intro facts
    rcases facts with ⟨bounded, separated⟩
    obtain ⟨first, front, back, rfl, holds, rounds⟩ := rounds_of_separated separated [] bounded
    rw [List.append_nil] at rounds
    exact ⟨first, front, back, rfl, holds, values.reverse, rounds, List.reverse_reverse values |>.symm⟩

/-! ### Whole inputs -/

theorem atEnd_bind_reads {next : Bool → Parser α} {ended other : Phrase α}
    (true : Reads (next true) nesting functions ended)
    (false : Reads (next false) nesting functions other) :
    Reads (atEnd >>= next) nesting functions fun value used rest =>
      used ++ rest = [] ∧ ended value used rest ∨ used ++ rest ≠ [] ∧ other value used rest := by
  apply look_bind_reads
  · intro value
    cases value with
    | true => exact true.grows
    | false => exact false.grows
  · intro state _atNesting _atFunctions
    cases tokens : state.rest with
    | nil =>
        refine ⟨ended, true, ?_⟩
        intro value used rest split
        rw [← split]
        simp only [true_and, ne_eq, not_true, false_and, or_false]
    | cons token tokens =>
        refine ⟨other, false, ?_⟩
        intro value used rest split
        rw [← split]
        simp only [reduceCtorEq, false_and, ne_eq, not_false_eq_true, true_and, false_or]

theorem recovering_reads {rule : Parser α} (reads : Reads rule nesting functions phrase) :
    Reads (Grammar.recovering rule) nesting functions fun found used rest =>
      ∃ value, found = some value ∧ phrase value used rest where
  grows := by
    intro state
    have grown := reads.grows state
    unfold Grammar.recovering
    cases outcome : rule state with
    | ok result after =>
        rw [outcome] at grown
        exact grown
    | error report after =>
        rw [outcome] at grown
        change _ ≤ (after.reports ++ [report]).length
        rw [List.length_append]
        exact Nat.le_trans grown (Nat.le_add_right _ _)
  exact := by
    intro state found after atNesting atFunctions
    have grown := reads.grows state
    have inner := fun value => reads.exact state value after atNesting atFunctions
    unfold Clean at inner ⊢
    unfold Grammar.recovering
    cases outcome : rule state with
    | ok result later =>
        rw [outcome] at inner
        dsimp only
        constructor
        · intro whole
          rcases whole with ⟨done, quiet⟩
          cases done
          obtain ⟨used, rest, split, same, holds⟩ := (inner result).mp ⟨rfl, quiet⟩
          exact ⟨used, rest, split, same, result, rfl, holds⟩
        · intro known
          rcases known with ⟨used, rest, split, same, value, rfl, holds⟩
          obtain ⟨done, quiet⟩ := (inner value).mpr ⟨used, rest, split, same, holds⟩
          cases done
          exact ⟨rfl, quiet⟩
    | error report later =>
        rw [outcome] at inner grown
        dsimp only
        constructor
        · intro facts
          rcases facts with ⟨done, quiet⟩
          cases done
          change state.reports.length ≤ later.reports.length at grown
          change (later.reports ++ [report]).length ≤ state.reports.length at quiet
          rw [List.length_append, List.length_singleton] at quiet
          omega
        · intro stated
          rcases stated with ⟨used, rest, split, same, value, rfl, holds⟩
          cases ((inner value).mpr ⟨used, rest, split, same, holds⟩).1

theorem conclude_eq_ok_iff {rule : Parser α} {state : ParserState} {value : α}
    (fresh : state.reports = []) :
    Grammar.conclude (rule state) = .ok value ↔ ∃ after, Clean rule state value after := by
  unfold Grammar.conclude Clean
  rw [fresh]
  cases rule state with
  | error report after =>
      constructor
      · intro done
        cases done
      · intro clean
        obtain ⟨_after, done, _quiet⟩ := clean
        cases done
  | ok result after =>
      dsimp only
      by_cases quiet : after.reports.isEmpty = true
      · rw [if_pos quiet]
        have none : after.reports.length ≤ 0 := by
          rw [List.isEmpty_iff.mp quiet]
          exact Nat.le_refl 0
        constructor
        · intro done
          cases done
          exact ⟨after, rfl, none⟩
        · intro clean
          obtain ⟨_after, done, _quiet⟩ := clean
          cases done
          rfl
      · rw [if_neg quiet]
        constructor
        · intro done
          cases done
        · intro clean
          obtain ⟨_after, done, noted⟩ := clean
          cases done
          have none := List.length_eq_zero_iff.mp (Nat.le_zero.mp noted)
          exact absurd (List.isEmpty_iff.mpr none) quiet

/-- A rule that reads a whole input succeeds on just what its phrase holds of. -/
theorem Reads.conclude_iff {rule : Parser α} (reads : Reads rule 0 0 phrase)
    (whole : ∀ value used rest, phrase value used rest → rest = []) (tokens : List Token)
    (value : α) :
    Grammar.conclude (rule (.ofTokens tokens)) = .ok value ↔
      phrase value (tokens.takeWhile (·.kind != .endOfInput)) [] := by
  rw [conclude_eq_ok_iff rfl]
  constructor
  · intro clean
    obtain ⟨after, clean⟩ := clean
    obtain ⟨used, rest, split, _same, holds⟩ :=
      (reads.exact (.ofTokens tokens) value after rfl rfl).mp clean
    obtain rfl := whole value used rest holds
    rw [List.append_nil] at split
    change tokens.takeWhile _ = used at split
    rw [split]
    exact holds
  · intro holds
    refine ⟨{ ParserState.ofTokens tokens with rest := [] }, ?_⟩
    rw [reads.exact (.ofTokens tokens) value _ rfl rfl]
    exact ⟨_, [], (List.append_nil _).symm, rfl, holds⟩

end Parser

end Lox
