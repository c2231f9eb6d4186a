import Lox.Proofs.Grammar.Balance
import Lox.Proofs.Grammar.Totality
set_option autoImplicit false

/-! The loop over the declarations of a program, one turn after the other. A turn depends on nothing
but the tokens that are left: what was noted before stays in front of what it notes. -/

namespace Lox

/-- All that is wrong with a program. -/
def diagnostics (tokens : List Token) : List SyntaxReport :=
  match parseProgram tokens with
  | .ok _ => []
  | .error reports => reports

namespace Grammar

open Lox.Parser

variable {inner : Inner} {state middle after : ParserState}

/-- The declarations up to the end of input, and the state behind them. -/
inductive Turns (inner : Inner) : ParserState → List Stmt → ParserState → Prop
  | ended {state : ParserState} (nothing : state.rest = []) : Turns inner state [] state
  | turn {state middle after : ParserState} {found : Option Stmt} {statements : List Stmt}
      (ran : recovering inner.declaration state = .ok found middle)
      (less : middle.rest.length < state.rest.length)
      (others : Turns inner middle statements after) :
      Turns inner state (found.toList ++ statements) after

/-- A turn succeeds in any case, and reads something unless nothing is left. -/
theorem recovering_balanced {rule : Parser Stmt} (balanced : Balanced 1 rule)
    (more : state.rest ≠ []) :
    ∃ (found : Option Stmt) (rest : List Token) (noted : List SyntaxReport),
      rest.length < state.rest.length ∧
      ∀ reports, recovering rule { state with reports }
        = .ok found { state with rest, reports := reports ++ noted } := by
  obtain ⟨entry, same, suffix, enough⟩ := balanced state
  unfold Entry.outcome at same
  unfold recovering
  cases result : entry.result with
  | ok value =>
      rw [result] at same
      refine ⟨some value, entry.rest, entry.noted, enough value result, fun reports => ?_⟩
      rw [same reports]
      rfl
  | error error =>
      rw [result] at same
      refine ⟨none, resumption entry.rest, entry.noted ++ [⟨(entry.after state).next, error⟩], ?_,
        fun reports => ?_⟩
      · exact resumption_length entry.rest suffix.length_le (List.length_pos_iff.mpr more)
      · rw [same reports, ← List.append_assoc]
        rfl

/-- The loop always comes to an end. What was noted before makes no difference. -/
theorem turns_exist (balanced : inner.Balanced) (state : ParserState) :
    ∃ (statements : List Stmt) (noted : List SyntaxReport) (after : ParserState), ∀ reports,
      Turns inner { state with reports } statements { after with reports := reports ++ noted } := by
  by_cases nothing : state.rest = []
  · refine ⟨[], [], state, fun reports => ?_⟩
    rw [List.append_nil]
    exact .ended nothing
  · obtain ⟨found, rest, noted, less, ran⟩ := recovering_balanced balanced.declaration nothing
    obtain ⟨statements, further, after, others⟩ := turns_exist balanced { state with rest }
    refine ⟨found.toList ++ statements, noted ++ further, after, fun reports => ?_⟩
    have turns := others (reports ++ noted)
    rw [List.append_assoc] at turns
    exact .turn (ran reports) less turns
termination_by state.rest.length

/-- What the loop asks for in every round. -/
def turnItem (inner : Inner) : Parser (Option (Option Stmt)) := do
  if ← atEnd then return none
  return some (← recovering inner.declaration)

theorem turnItem_ended (nothing : state.rest = []) : turnItem inner state = .ok none state := by
  unfold turnItem
  rw [atEnd_bind, nothing]
  rfl

theorem turnItem_more {found : Option Stmt} (more : state.rest ≠ [])
    (ran : recovering inner.declaration state = .ok found middle) :
    turnItem inner state = .ok (some found) middle := by
  have left : state.rest.isEmpty = false := by simpa using more
  unfold turnItem
  rw [atEnd_bind, left]
  exact bind_eq ran

/-- With rounds for all tokens that are left, the loop takes every turn. -/
theorem repeatFor_of_turns {statements : List Stmt} (turns : Turns inner state statements after)
    (rounds : List Token) (bound : state.rest.length ≤ rounds.length)
    (found : List (Option Stmt)) :
    ∃ values, repeatFor (fun found => return (← turnItem inner).map (· :: found)) rounds found state
        = .ok (values ++ found) after ∧ values.reverse.filterMap id = statements := by
  induction turns generalizing rounds found with
  | @ended state nothing =>
      refine ⟨[], ?_, rfl⟩
      cases rounds with
      | nil => rfl
      | cons round rounds =>
          have step : (return (← turnItem inner).map (· :: found) : Parser _) state
              = .ok none state :=
            bind_eq (turnItem_ended nothing)
          exact bind_eq step
  | @turn state middle after value statements ran less _others ih =>
      cases rounds with
      | nil => exact absurd (Nat.lt_of_lt_of_le less bound) (Nat.not_lt_zero _)
      | cons round rounds =>
          rw [List.length_cons] at bound
          obtain ⟨values, looped, collected⟩ := ih rounds (by omega) (value :: found)
          refine ⟨values ++ [value], ?_, ?_⟩
          · have more : state.rest ≠ [] := List.length_pos_iff.mp (Nat.zero_lt_of_lt less)
            have step : (return (← turnItem inner).map (· :: found) : Parser _) state
                = .ok (some (value :: found)) middle :=
              bind_eq (turnItem_more more ran)
            rw [List.append_assoc]
            exact (bind_eq step).trans looped
          · rw [List.reverse_append, List.filterMap_append, collected]
            cases value <;> rfl

theorem program_of_turns {statements : List Stmt} (turns : Turns inner state statements after) :
    program inner state = .ok statements after := by
  obtain ⟨values, looped, collected⟩ := repeatFor_of_turns turns state.rest (Nat.le_refl _) []
  have gathered : many (turnItem inner) state = .ok values.reverse after := by
    rw [List.append_nil] at looped
    exact bind_eq looped
  rw [← collected]
  exact bind_eq gathered

/-- A program has a tree just when nothing was noted in any turn. -/
theorem parseProgram_of_turns {tokens : List Token} {statements : List Stmt}
    (turns : Turns (rules maxNesting maxNesting) (.ofTokens tokens) statements after) :
    parseProgram tokens
      = if after.reports.isEmpty then .ok statements else .error after.reports := by
  unfold parseProgram parseProgramWithin
  rw [program_of_turns turns]
  rfl

theorem diagnostics_of_turns {tokens : List Token} {statements : List Stmt}
    (turns : Turns (rules maxNesting maxNesting) (.ofTokens tokens) statements after) :
    diagnostics tokens = after.reports := by
  unfold diagnostics
  rw [parseProgram_of_turns turns]
  cases noted : after.reports <;> simp

end Grammar

end Lox
