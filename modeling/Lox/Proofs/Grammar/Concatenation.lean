import Lox.Proofs.Grammar.Program
import Lox.Proofs.Grammar.Turns
set_option autoImplicit false

/-! Programs written one behind the other. No declaration looks behind its end, except for an
`else`, and between two declarations nothing is open; so the tokens behind a program that parses are
parsed as if they stood alone. -/

namespace Lox

open Lox.Parser

namespace Grammar

variable {limit : Nat} {state after : ParserState}

/-- A declaration is read off the tokens that spell it, whatever stands behind it. -/
theorem declaration_spelled {statement : Surface} {used rest : List Token}
    (declares : statement.Declares 0 limit rest) (spells : Spells used statement.marks)
    (outermost : state.nesting = 0) (outside : state.functionDepth = 0) :
    (rules limit limit).declaration { state with rest := used ++ rest }
      = .ok statement.desugar { state with rest } := by
  have good : (SurfaceGrammar.rules limit limit).Good 0 limit :=
    surfaceRules_good limit (Nat.zero_add limit)
  have clean : Clean (SurfaceGrammar.rules limit limit).declaration
      { state with rest := used ++ rest } statement { state with rest } :=
    ((good.declaration 0).exact { state with rest := used ++ rest } _ _ outermost outside).mpr
      ⟨used, rest, rfl, rfl, declares, spells⟩
  rw [← SurfaceGrammar.rules_desugared]
  change (Surface.desugar <$> (SurfaceGrammar.rules limit limit).declaration) _ = _
  rw [map_apply, clean.1]

/-- By induction on the declarations that are spelled. -/
theorem turns_spelled {program : List Surface} {used rest : List Token} {statements : List Stmt}
    (holds : Surface.Program limit program) (spells : Spells used (Surface.marksAll program))
    (free : begins (· == .elseWord) rest = false) (outermost : state.nesting = 0)
    (outside : state.functionDepth = 0)
    (turns : Turns (rules limit limit) { state with rest } statements after) :
    Turns (rules limit limit) { state with rest := used ++ rest }
      (Surface.desugarAll program ++ statements) after := by
  induction program generalizing used with
  | nil =>
      rw [Surface.marksAll] at spells
      rw [spells_nil.mp spells]
      exact turns
  | cons first others ih =>
      rw [Surface.marksAll] at spells
      obtain ⟨front, back, rfl, spellsFirst, spellsOthers⟩ := spells_append.mp spells
      obtain ⟨⟨formed, shallow⟩, holdsOthers⟩ := List.forall_mem_cons.mp holds
      have ends : begins (· == .elseWord) (back ++ rest) = false := by
        rcases Surface.starts_all holdsOthers spellsOthers with rfl | starting
        · exact free
        · exact begins_append_of_ne rest (begins_ne rfl starting)
      have declares : first.Declares 0 limit (back ++ rest) := ⟨formed, shallow, fun _ => ends⟩
      have nonempty : front ≠ [] := Surface.declarations_ne_nil ⟨declares, spellsFirst⟩
      have ran : recovering (rules limit limit).declaration
          { state with rest := front ++ (back ++ rest) }
          = .ok (some first.desugar) { state with rest := back ++ rest } := by
        unfold recovering
        rw [declaration_spelled declares spellsFirst outermost outside]
      rw [List.append_assoc]
      refine .turn ran ?_ (ih holdsOthers spellsOthers)
      have read := List.length_pos_iff.mpr nonempty
      simp only [List.length_append]
      omega

end Grammar

theorem ParserState.ofTokens_append {first second : List Token}
    (plain : ∀ token ∈ first, token.kind ≠ .endOfInput) (nonempty : second ≠ []) :
    ofTokens (first ++ second)
      = { ofTokens second with rest := first ++ (ofTokens second).rest } := by
  have visible : ∀ token ∈ first, (token.kind != .endOfInput) = true :=
    fun token member => bne_iff_ne.mpr (plain token member)
  have before : first.find? (·.kind == .endOfInput) = none :=
    List.find?_eq_none.mpr fun token member => by simpa using plain token member
  unfold ofTokens
  rw [List.takeWhile_append_of_pos visible, List.find?_append, before, Option.none_or,
    List.getLast?_append_of_ne_nil first nonempty]

/-- Parsing distributes over concatenation. Behind a program that parses, tokens that do not begin
with `else` are parsed as they are by themselves: the same is wrong with them, and if nothing is,
their declarations follow those of the program. -/
theorem parseProgram_append (first second : List Token)
    (plain : ∀ token ∈ first, token.kind ≠ .endOfInput) (statements : List Stmt)
    (parsed : parseProgram first = .ok statements)
    (free : begins (· == .elseWord) second = false) :
    diagnostics (first ++ second) = diagnostics second ∧
      parseProgram (first ++ second) = (statements ++ ·) <$> parseProgram second := by
  obtain ⟨program, holds, spells, rfl⟩ :=
    (parseProgramWithin_iff maxNesting first statements).mp parsed
  have whole : first.takeWhile (·.kind != .endOfInput) = first := by
    have none : ∀ token ∈ ([] : List Token).head?, token.kind = .endOfInput := by simp
    have visible := takeWhile_visible plain none
    rw [List.append_nil] at visible
    exact visible
  rw [whole] at spells
  by_cases nothing : second = []
  · subst nothing
    have empty : parseProgram [] = .ok [] := Grammar.parseProgram_of_turns (.ended rfl)
    unfold diagnostics
    rw [List.append_nil, parsed, empty]
    exact ⟨rfl, congrArg Except.ok (List.append_nil _).symm⟩
  · have unread : begins (· == .elseWord) (ParserState.ofTokens second).rest = false := by
      obtain ⟨token, rest, rfl⟩ := List.exists_cons_of_ne_nil nothing
      change begins _ ((token :: rest).takeWhile (·.kind != .endOfInput)) = false
      rw [List.takeWhile_cons]
      split
      · exact free
      · rfl
    obtain ⟨others, noted, after, turns⟩ :=
      Grammar.turns_exist (Grammar.rules_balanced maxNesting maxNesting) (.ofTokens second)
    have alone := turns []
    have behind := Grammar.turns_spelled holds spells unread rfl rfl alone
    rw [← ParserState.ofTokens_append plain nothing] at behind
    refine ⟨?_, ?_⟩
    · rw [Grammar.diagnostics_of_turns behind, Grammar.diagnostics_of_turns alone]
    · rw [Grammar.parseProgram_of_turns behind, Grammar.parseProgram_of_turns alone]
      split <;> rfl

/-- `if (a) b;`, to which an `else` would belong. -/
def openBranch : Surface :=
  let name (text : String) : Expr := .variable ⟨.identifier, text, .nil, 1⟩
  .branch (name "a") (.clause (.expression (name "b")))

/-- `print;` -/
def emptyPrint : List Token :=
  [⟨.printWord, "print", .nil, 1⟩, ⟨.semicolon, ";", .nil, 1⟩]

theorem openBranch_append :
    parseProgram (Surface.rendering [openBranch]) = .ok [openBranch.desugar] ∧
      diagnostics (Surface.rendering [openBranch] ++ emptyPrint) = diagnostics emptyPrint ∧
      parseProgram (Surface.rendering [openBranch] ++ emptyPrint)
        = ([openBranch.desugar] ++ ·) <$> parseProgram emptyPrint := by
  have formed : openBranch.Formed 0 :=
    .branch (.variable rfl) rfl (.clause (Expr.Canonical.variable rfl))
  have parsed : parseProgram (Surface.rendering [openBranch]) = .ok [openBranch.desugar] := by
    refine parseProgram_rendering [openBranch] ?_
    intro statement member
    rw [List.mem_singleton.mp member]
    exact ⟨formed, by decide⟩
  exact ⟨parsed, parseProgram_append (Surface.rendering [openBranch]) emptyPrint (by decide)
    [openBranch.desugar] parsed rfl⟩

example : (diagnostics (Surface.rendering [openBranch] ++ emptyPrint)).map (·.error)
    = [.missing .expression] := by decide +kernel

end Lox
