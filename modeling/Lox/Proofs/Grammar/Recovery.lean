import Lox.Proofs.Grammar.Turns
set_option autoImplicit false

/-! Going on behind a declaration that failed. Parsing takes up again at the first place behind the
failure where a declaration may start, and from there on it does what it would do if the tokens
before were not there. -/

namespace Lox

/-- The first end of input divides the tokens. -/
theorem exists_split {tokens : List Token} (ends : ∃ token ∈ tokens, token.kind = .endOfInput) :
    ∃ visible ending behind, tokens = visible ++ ending :: behind ∧
      (∀ token ∈ visible, token.kind ≠ .endOfInput) ∧ ending.kind = .endOfInput := by
  cases found : tokens.find? (·.kind == .endOfInput) with
  | none =>
      obtain ⟨token, member, isEnd⟩ := ends
      exact absurd (beq_iff_eq.mpr isEnd) (List.find?_eq_none.mp found token member)
  | some ending =>
      obtain ⟨isEnd, visible, behind, split, plain⟩ := List.find?_eq_some_iff_append.mp found
      refine ⟨visible, ending, behind, split, ?_, beq_iff_eq.mp isEnd⟩
      intro token member
      simpa using plain token member

theorem ParserState.ofTokens_split {visible behind : List Token} {ending : Token}
    (plain : ∀ token ∈ visible, token.kind ≠ .endOfInput) (ends : ending.kind = .endOfInput) :
    ofTokens (visible ++ ending :: behind) = ⟨visible, ending, 0, 0, []⟩ := by
  have before : (visible ++ ending :: behind).takeWhile (·.kind != .endOfInput) = visible :=
    takeWhile_visible plain (by simp [ends])
  have first : (visible ++ ending :: behind).find? (·.kind == .endOfInput) = some ending := by
    refine List.find?_eq_some_iff_append.mpr ⟨beq_iff_eq.mpr ends, visible, behind, rfl, ?_⟩
    intro token member
    simpa using plain token member
  unfold ofTokens
  rw [before, first]

namespace Grammar

open Lox.Parser

/-- A declaration may start here, or the input ends. -/
def ResumesAt (tokens : List Token) (place : Nat) : Prop :=
  tokens[place]?.any (·.kind == .endOfInput) = true ∨
    tokens[place - 1]?.any (·.kind == .semicolon) = true ∨
    tokens[place]?.any (startsDeclaration ·.kind) = true

/-- The first such place behind a failure. -/
structure Resumption (tokens : List Token) (failed next : Nat) : Prop where
  behind : failed < next
  resumes : ResumesAt tokens next
  first : ∀ place, failed < place → ResumesAt tokens place → next ≤ place

theorem resumesAt_append {front tokens : List Token} {place : Nat} (positive : 0 < place) :
    ResumesAt (front ++ tokens) (front.length + place) ↔ ResumesAt tokens place := by
  have before : front.length + place - 1 = front.length + (place - 1) := by omega
  unfold ResumesAt
  rw [before, List.getElem?_append_right (Nat.le_add_right _ _),
    List.getElem?_append_right (Nat.le_add_right _ _), Nat.add_sub_cancel_left,
    Nat.add_sub_cancel_left]

theorem Resumption.append {tokens : List Token} {next : Nat} (front : List Token)
    (resumption : Resumption tokens 0 next) :
    Resumption (front ++ tokens) front.length (front.length + next) where
  behind := Nat.lt_add_of_pos_right resumption.behind
  resumes := (resumesAt_append resumption.behind).mpr resumption.resumes
  first := by
    intro place later resumes
    obtain ⟨other, rfl⟩ := Nat.exists_eq_add_of_lt later
    rw [Nat.add_assoc, resumesAt_append (Nat.succ_pos other)] at resumes
    have least := resumption.first (other + 1) (Nat.succ_pos other) resumes
    omega

/-- What is skipped ends at the first place behind the token before. -/
theorem skipTo_resumption {visible : List Token}
    (plain : ∀ token ∈ visible, token.kind ≠ .endOfInput) {ending : Token}
    (ends : ending.kind = .endOfInput) (behind : List Token) (previous : Token) :
    ∃ skipped, skipped ≤ visible.length ∧ skipTo previous visible = visible.drop skipped ∧
      Resumption (previous :: (visible ++ ending :: behind)) 0 (skipped + 1) := by
  induction visible generalizing previous with
  | nil =>
      refine ⟨0, Nat.le_refl _, rfl, Nat.succ_pos _, Or.inl ?_, fun place later _resumes => later⟩
      simpa using ends
  | cons token rest ih =>
      obtain ⟨inner, others⟩ := List.forall_mem_cons.mp plain
      unfold skipTo
      split
      · rename_i stops
        refine ⟨0, Nat.zero_le _, rfl, Nat.succ_pos _, ?_, fun place later _resumes => later⟩
        rcases (Bool.or_eq_true _ _).mp stops with semicolon | starts
        · exact Or.inr (Or.inl semicolon)
        · exact Or.inr (Or.inr starts)
      · rename_i goesOn
        obtain ⟨skipped, bound, same, resumption⟩ := ih others token
        have shifted := resumption.append [previous]
        rw [List.length_singleton, Nat.add_comm 1] at shifted
        refine ⟨skipped + 1, Nat.succ_le_succ bound, same, Nat.succ_pos _, shifted.resumes, ?_⟩
        intro place later resumes
        by_cases next : place = 1
        · subst next
          have stays : ¬ ResumesAt (previous :: (token :: rest ++ ending :: behind)) 1 := by
            simpa [ResumesAt, inner, not_or] using goesOn
          exact absurd resumes stays
        · exact shifted.first place (by omega) resumes

/-- A rule that fails before the end of input leaves the cursor at the token that it fails at. -/
theorem recovering_at {rule : Parser Stmt} (balanced : Balanced 1 rule) {tokens : List Token}
    (ends : ∃ token ∈ tokens, token.kind = .endOfInput) {report : SyntaxReport}
    {after : ParserState} (failed : rule (.ofTokens tokens) = .error report after)
    (inside : report.token.kind ≠ .endOfInput) :
    ∃ place next, place + after.rest.length = firstEnd tokens ∧
      tokens[place]? = some report.token ∧ Resumption tokens place next ∧
      recovering rule (.ofTokens tokens)
        = .ok none { ParserState.ofTokens (tokens.drop next) with
            reports := after.reports ++ [report] } := by
  obtain ⟨visible, ending, behind, split, plain, isEnd⟩ := exists_split ends
  have start : ParserState.ofTokens tokens = ⟨visible, ending, 0, 0, []⟩ := by
    rw [split, ParserState.ofTokens_split plain isEnd]
  have unread : firstEnd tokens = visible.length := congrArg (·.rest.length) start
  rw [start] at failed ⊢
  obtain ⟨restored, ⟨front, divided⟩, stands⟩ := (balanced _).failed failed
  unfold recovering
  rw [failed]
  generalize after.rest = left, after.reports = reports at restored divided ⊢
  subst restored
  cases left with
  | nil =>
      rw [stands] at inside
      exact absurd isEnd inside
  | cons token rest =>
      change front ++ token :: rest = visible at divided
      subst divided
      have later := (List.forall_mem_cons.mp (List.forall_mem_append.mp plain).2).2
      have whole : tokens = front ++ token :: (rest ++ ending :: behind) := by
        rw [split, List.append_assoc, List.cons_append]
      obtain ⟨skipped, bound, skips, resumption⟩ := skipTo_resumption later isEnd behind token
      have dropped : tokens.drop (front.length + (skipped + 1))
          = rest.drop skipped ++ ending :: behind := by
        rw [whole, List.drop_length_add_append, List.drop_succ_cons,
          List.drop_append_of_le_length bound]
      refine ⟨front.length, front.length + (skipped + 1), ?_, ?_, ?_, ?_⟩
      · rw [unread, List.length_append]
      · rw [whole, stands, List.getElem?_append_right (Nat.le_refl _), Nat.sub_self]
        rfl
      · rw [whole]
        exact resumption.append front
      · rw [dropped, ParserState.ofTokens_split
          (fun token member => later token (List.mem_of_mem_drop member)) isEnd, ← skips]
        rfl

/-- A declaration that fails before the end of input is isolated. It fails at the token at some
place; parsing goes on at the first place behind it that is an end of input, or stands behind a
semicolon, or holds a word that starts a declaration. What is reported is what the declaration noted
and its failure, and then what is wrong with the tokens from there on, read by themselves: nothing
but the reports is left of the state in which the declaration was given up. -/
theorem failure_isolated (tokens : List Token)
    (ends : ∃ token ∈ tokens, token.kind = .endOfInput) (report : SyntaxReport)
    (after : ParserState)
    (failed : (rules maxNesting maxNesting).declaration (.ofTokens tokens) = .error report after)
    (inside : report.token.kind ≠ .endOfInput) :
    ∃ place next, place + after.rest.length = firstEnd tokens ∧
      tokens[place]? = some report.token ∧ Resumption tokens place next ∧
      recovering (rules maxNesting maxNesting).declaration (.ofTokens tokens)
        = .ok none { ParserState.ofTokens (tokens.drop next) with
            reports := after.reports ++ [report] } ∧
      diagnostics tokens = after.reports ++ report :: diagnostics (tokens.drop next) := by
  have balanced := rules_balanced maxNesting maxNesting
  obtain ⟨place, next, stands, found, resumption, recovered⟩ :=
    recovering_at balanced.declaration ends failed inside
  refine ⟨place, next, stands, found, resumption, recovered, ?_⟩
  have more : (ParserState.ofTokens tokens).rest ≠ [] := by
    intro nothing
    have start : place = 0 := by
      have none : firstEnd tokens = 0 := congrArg List.length nothing
      omega
    subst start
    cases tokens with
    | nil => cases found
    | cons token rest =>
        cases found
        simp [ParserState.ofTokens, inside] at nothing
  have less : (ParserState.ofTokens (tokens.drop next)).rest.length
      < (ParserState.ofTokens tokens).rest.length := by
    obtain ⟨_found, rest, _noted, less, same⟩ := recovering_balanced balanced.declaration more
    injection (same []).symm.trans recovered with _none state
    have left : rest = (ParserState.ofTokens (tokens.drop next)).rest :=
      congrArg ParserState.rest state
    rw [← left]
    exact less
  obtain ⟨statements, noted, final, turns⟩ :=
    turns_exist balanced (.ofTokens (tokens.drop next))
  have alone : diagnostics (tokens.drop next) = noted := diagnostics_of_turns (turns [])
  have whole : Turns (rules maxNesting maxNesting) (.ofTokens tokens) statements _ :=
    .turn recovered less (turns (after.reports ++ [report]))
  rw [diagnostics_of_turns whole, alone, List.append_assoc]
  rfl

/-- `{ fun f() { return 1 ); return;`, in which the first `return` is given up two blocks deep. -/
def abandoned : List Token :=
  let sign (kind : TokenKind) (text : String) : Token := ⟨kind, text, .nil, 1⟩
  [sign .leftBrace "\x7b", sign .funWord "fun", sign .identifier "f", sign .leftParen "(",
    sign .rightParen ")", sign .leftBrace "\x7b", sign .returnWord "return", sign .number "1",
    sign .rightParen ")", sign .semicolon ";", sign .returnWord "return", sign .semicolon ";",
    .endOfInput 1]

theorem abandoned_isolated :
    ∃ (report : SyntaxReport) (after : ParserState) (place next : Nat),
      report.token.kind = .rightParen ∧
      Resumption abandoned place next ∧
      diagnostics abandoned = after.reports ++ report :: diagnostics (abandoned.drop next) := by
  have kind : (match (rules maxNesting maxNesting).declaration (.ofTokens abandoned) with
      | .error report _ => report.token.kind
      | .ok _ _ => .endOfInput) = .rightParen := by
    decide +kernel
  cases outcome : (rules maxNesting maxNesting).declaration (.ofTokens abandoned) with
  | ok statement after =>
      rw [outcome] at kind
      cases kind
  | error report after =>
      rw [outcome] at kind
      change report.token.kind = .rightParen at kind
      have inside : report.token.kind ≠ .endOfInput := by
        rw [kind]
        decide
      obtain ⟨place, next, _stands, _found, resumption, _recovered, reported⟩ :=
        failure_isolated abandoned (by decide) report after outcome inside
      exact ⟨report, after, place, next, kind, resumption, reported⟩

/-- The second `return` is outside of every function. -/
example : (diagnostics abandoned).map (·.error)
    = [.missing .returnEnd, .returnOutsideFunction] := by decide +kernel

end Grammar

end Lox
