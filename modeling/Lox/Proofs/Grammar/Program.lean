import Lox.Proofs.Grammar.Statement
set_option autoImplicit false

/-! Whole programs. A sequence of tokens parses just when it is the writing of a surface program, and
then to what that program stands for; no two programs are written the same way. -/

namespace Lox

open Lox.Parser

theorem Phrase.items_map_iff {α β : Type} {transform : α → β} {item : Phrase (Option α)}
    {other : Phrase (Option β)}
    (same : ∀ given used rest, other given used rest ↔
      ∃ own, item own used rest ∧ given = own.map transform)
    (values : List β) (used rest : List Token) :
    Phrase.Items other values used rest ↔
      ∃ own, Phrase.Items item own used rest ∧ values = own.map transform := by
  constructor
  · intro items
    induction items with
    | stop last =>
        obtain ⟨own, last, none⟩ := (same _ _ _).mp last
        cases own with
        | none => exact ⟨[], .stop last, rfl⟩
        | some value => cases none
    | more first others ih =>
        obtain ⟨own, firstOwn, given⟩ := (same _ _ _).mp first
        obtain ⟨values, items, rfl⟩ := ih
        cases own with
        | none => cases given
        | some value =>
            cases given
            exact ⟨value :: values, .more firstOwn items, rfl⟩
  · intro whole
    obtain ⟨own, items, rfl⟩ := whole
    induction items with
    | stop last => exact .stop ((same _ _ _).mpr ⟨none, last, rfl⟩)
    | more first others ih => exact .more ((same _ _ _).mpr ⟨some _, first, rfl⟩) ih

theorem Phrase.Items.last {α : Type} {item : Phrase (Option α)} {values : List α}
    {used rest : List Token} (items : Phrase.Items item values used rest) : item none [] rest := by
  induction items with
  | stop last => exact last
  | more _first _others ih => exact ih

namespace Surface

/-- A whole program: declarations that are formed outside of all functions, within a limit. -/
def Program (limit : Nat) (statements : List Surface) : Prop :=
  ∀ statement ∈ statements, statement.Formed 0 ∧ statement.declared < limit

/-- A declaration where a token is left. -/
def programItem (room : Nat) : Phrase (Option Surface) := fun given used rest =>
  used ++ rest = [] ∧ given = none ∧ used = [] ∨
    used ++ rest ≠ [] ∧ ∃ statement, declarations 0 room statement used rest ∧
      given = some statement

theorem programItems_iff {room : Nat} (statements : List Surface) (used rest : List Token) :
    Phrase.Items (programItem room) statements used rest ↔
      rest = [] ∧ Program room statements ∧ Spells used (marksAll statements) := by
  have ended : ∀ {rest}, rest = [] → (Phrase.Items (programItem room) statements used rest ↔
      Program room statements ∧ Spells used (marksAll statements)) := by
    intro rest done
    apply items_iff (fun tokens => tokens = []) ?_ ?_ ?_ statements used rest done
    · rw [done]
      rfl
    · intro used rest
      simp only [programItem, reduceCtorEq, and_false, exists_false, or_false, true_and]
      constructor
      · intro stopped
        obtain ⟨none, rfl⟩ := stopped
        exact ⟨rfl, none⟩
      · intro stopped
        obtain ⟨rfl, none⟩ := stopped
        exact ⟨none, rfl⟩
    · intro statement used rest
      simp [programItem]
    · intro tokens starting none
      rw [none] at starting
      cases starting
  constructor
  · intro items
    have done : rest = [] := by
      rcases items.last with ⟨none, _stops⟩ | ⟨_left, _statement, _declared, same⟩
      · exact none
      · cases same
    exact ⟨done, (ended done).mp items⟩
  · intro whole
    obtain ⟨done, holds⟩ := whole
    exact (ended done).mpr holds

theorem program_reads {inner : SurfaceInner} {nesting room : Nat}
    (good : inner.Good nesting room) :
    Reads (SurfaceGrammar.program inner) nesting 0 fun statements used rest =>
      rest = [] ∧ Program room statements ∧ Spells used (marksAll statements) := by
  have item : Reads (do
      if ← atEnd then return none
      return some (← Grammar.recovering inner.declaration)) nesting 0 _ :=
    atEnd_bind_reads (pure_reads none) (map_reads some (recovering_reads (good.declaration 0)))
  have items := many_reads item (Or.inl ⟨rfl, rfl, rfl⟩)
    (by
      intro used rest stopped
      rcases stopped with ⟨_ended, _none, none⟩ | ⟨_left, _found, _declared, same⟩
      · exact none
      · cases same)
    (by
      intro found used rest given
      rcases given with ⟨_ended, same, _none⟩ | ⟨_left, _found, ⟨_, _, declared⟩, _same⟩
      · cases same
      · exact declarations_ne_nil declared)
  have same : ∀ (given : Option (Option Surface)) (used rest : List Token),
      (used ++ rest = [] ∧ given = none ∧ used = [] ∨
        used ++ rest ≠ [] ∧ ∃ found, (∃ statement, found = some statement ∧
          declarations 0 room statement used rest) ∧ given = some found) ↔
      ∃ own, programItem room own used rest ∧ given = own.map some := by
    intro given used rest
    constructor
    · intro found
      rcases found with ⟨ended, rfl, rfl⟩ | ⟨left, _, ⟨statement, rfl, declared⟩, rfl⟩
      · exact ⟨none, Or.inl ⟨ended, rfl, rfl⟩, rfl⟩
      · exact ⟨some statement, Or.inr ⟨left, statement, declared, rfl⟩, rfl⟩
    · intro found
      obtain ⟨own, holds, rfl⟩ := found
      rcases holds with ⟨ended, rfl, rfl⟩ | ⟨left, statement, declared, rfl⟩
      · exact Or.inl ⟨ended, rfl, rfl⟩
      · exact Or.inr ⟨left, some statement, ⟨statement, rfl, declared⟩, rfl⟩
  apply (map_reads (List.filterMap id) items).congr
  intro statements used rest
  rw [← programItems_iff]
  constructor
  · intro mapped
    obtain ⟨found, listed, rfl⟩ := mapped
    obtain ⟨own, ownListed, rfl⟩ := (Phrase.items_map_iff same found used rest).mp listed
    simpa [List.filterMap_map] using ownListed
  · intro listed
    refine ⟨statements.map some,
      (Phrase.items_map_iff same _ used rest).mpr ⟨statements, listed, rfl⟩, ?_⟩
    simp [List.filterMap_map]

end Surface

theorem parseProgramWithin_iff (limit : Nat) (tokens : List Token) (statements : List Stmt) :
    Grammar.parseProgramWithin limit tokens = .ok statements ↔
      ∃ program, Surface.Program limit program ∧
        Spells (tokens.takeWhile (·.kind != .endOfInput)) (Surface.marksAll program) ∧
        statements = Surface.desugarAll program := by
  have good : (SurfaceGrammar.rules limit limit).Good 0 limit :=
    surfaceRules_good limit (Nat.zero_add limit)
  have reads := map_reads Surface.desugarAll (Surface.program_reads good)
  have same := SurfaceGrammar.program_desugars (SurfaceGrammar.rules limit limit)
  rw [SurfaceGrammar.rules_desugared, map_eq_pure_bind] at same
  unfold Grammar.parseProgramWithin
  rw [same, reads.conclude_iff]
  · constructor
    · intro whole
      obtain ⟨program, ⟨_ended, holds, spells⟩, rfl⟩ := whole
      exact ⟨program, holds, spells, rfl⟩
    · intro whole
      obtain ⟨program, holds, spells, rfl⟩ := whole
      exact ⟨program, ⟨rfl, holds, spells⟩, rfl⟩
  · intro value used rest whole
    obtain ⟨_program, ⟨ended, _holds⟩, _same⟩ := whole
    exact ended

/-- No two programs are written the same way. -/
theorem Surface.program_unique {limit : Nat} {first second : List Surface} {tokens : List Token}
    (holds : Program limit first) (spells : Spells tokens (marksAll first))
    (holdsSecond : Program limit second) (spellsSecond : Spells tokens (marksAll second)) :
    first = second := by
  have good : (SurfaceGrammar.rules limit limit).Good 0 limit :=
    surfaceRules_good limit (Nat.zero_add limit)
  exact ((program_reads good).unique ⟨rfl, holds, spells⟩ ⟨rfl, holdsSecond, spellsSecond⟩ rfl).1

/-- Parsing accepts the writings of the surface programs within the levels that may be open, and
nothing else; it gives what the one program that is written stands for. -/
theorem parseProgram_iff_surface (tokens : List Token) :
    (∀ statements, parseProgram tokens = .ok statements ↔
      ∃ program, Surface.Program maxNesting program ∧
        Spells (tokens.takeWhile (·.kind != .endOfInput)) (Surface.marksAll program) ∧
        statements = Surface.desugarAll program) ∧
      ∀ first second, Surface.Program maxNesting first → Surface.Program maxNesting second →
        Spells (tokens.takeWhile (·.kind != .endOfInput)) (Surface.marksAll first) →
        Spells (tokens.takeWhile (·.kind != .endOfInput)) (Surface.marksAll second) →
        first = second := by
  constructor
  · exact parseProgramWithin_iff maxNesting tokens
  · intro first second holds holdsSecond spells spellsSecond
    exact Surface.program_unique holds spells holdsSecond spellsSecond

/-! ### Renderings -/

section

attribute [local simp] Mark.Visible or_imp forall_and

theorem Expr.visible? {value : Option Expr} (canonical : ∀ given ∈ value, given.Canonical) :
    ∀ mark ∈ Expr.marks? value, mark.Visible := by
  cases value with
  | none => simp [Expr.marks?]
  | some given => exact (canonical given rfl).visible

theorem Clause.visible {only : Clause} (canonical : only.Canonical) :
    ∀ mark ∈ only.marks, mark.Visible := by
  cases only with
  | «variable» name initializer =>
      obtain ⟨named, canonical⟩ := canonical
      cases initializer with
      | none => simp [Clause.marks, Clause.initializerMarks, named]
      | some value =>
          simpa [Clause.marks, Clause.initializerMarks, named] using (canonical value rfl).visible
  | expression value =>
      have visible := Expr.Canonical.visible canonical
      simpa [Clause.marks] using visible

namespace Surface

theorem visible_all {statements : List Surface}
    (visible : ∀ statement ∈ statements, ∀ mark ∈ statement.marks, mark.Visible) :
    ∀ mark ∈ marksAll statements, mark.Visible := by
  induction statements with
  | nil => simp [marksAll]
  | cons first others ih =>
      obtain ⟨here, there⟩ := List.forall_mem_cons.mp visible
      rw [marksAll]
      intro mark member
      rcases List.mem_append.mp member with member | member
      · exact here mark member
      · exact ih there mark member

theorem visible_divided {parameters : List Token}
    (named : ∀ parameter ∈ parameters, parameter.kind = .identifier) :
    ∀ mark ∈ divided (parameters.map ([.token ·])), mark.Visible := by
  induction parameters with
  | nil => simp [divided]
  | cons first others ih =>
      obtain ⟨here, there⟩ := List.forall_mem_cons.mp named
      cases others with
      | nil => simp [divided, here]
      | cons second others => simpa [divided, here] using ih there

theorem Formed.visible {functions : Nat} {statement : Surface}
    (formed : statement.Formed functions) : ∀ mark ∈ statement.marks, mark.Visible := by
  induction formed with
  | clause canonical => simpa [marks] using Clause.visible canonical
  | print canonical => simpa [marks] using canonical.visible
  | returning _inside returns canonical =>
      simpa [marks, returns] using Expr.visible? canonical
  | function named _few allNamed _formed ih =>
      simpa [marks, named] using ⟨visible_divided allNamed, visible_all ih⟩
  | block _formed ih => simpa [marks] using visible_all ih
  | branch canonical _states _formed ih => simpa [marks] using ⟨canonical.visible, ih⟩
  | choice canonical _states _closed _formed _statesElse _formedElse ih ihElse =>
      simpa [marks] using ⟨canonical.visible, ih, ihElse⟩
  | loop canonical _states _formed ih => simpa [marks] using ⟨canonical.visible, ih⟩
  | @forLoop functions initializer condition increment statement first canonical last _states
      _formed ih =>
      have clauses : ∀ mark ∈ Clause.marks? initializer, mark.Visible := by
        cases initializer with
        | none => simp [Clause.marks?]
        | some only => exact Clause.visible (first only rfl)
      simpa [marks] using ⟨clauses, Expr.visible? canonical, Expr.visible? last, ih⟩

/-- One way to write the program. -/
def rendering (statements : List Surface) : List Token :=
  (marksAll statements).map Mark.written

end Surface

/-- Parsing undoes rendering and leaves what the program stands for. -/
theorem parseProgram_rendering (program : List Surface)
    (holds : Surface.Program maxNesting program) :
    parseProgram (Surface.rendering program) = .ok (Surface.desugarAll program) := by
  have spells : Spells (Surface.rendering program) (Surface.marksAll program) :=
    spells_written (Surface.marksAll program)
  have visible := spells.visible (Surface.visible_all fun statement member =>
    (holds statement member).1.visible)
  have none : ∀ token ∈ ([] : List Token).head?, token.kind = .endOfInput := by simp
  have whole := takeWhile_visible visible none
  rw [List.append_nil] at whole
  unfold parseProgram
  rw [parseProgramWithin_iff, whole]
  exact ⟨program, holds, spells, rfl⟩

end

end Lox
