import Lox.Proofs.Grammar.Spelling
set_option autoImplicit false

/-! The rules of statements and declarations read the formed surface trees whose levels are within the
limit. Each rule is entered behind a word, and the marks behind that word are those of the trees that
start with it. -/

namespace Lox

open Lox.Parser

section

variable {nesting functions room : Nat}

/-! ### Clauses -/

/-- The rest of a declaration of a variable, behind its first word. -/
def variableOutline (room : Nat) : Outline Clause := fun only marks _ =>
  only.Canonical ∧ only.levels ≤ room ∧ only.marks = .kind .varWord :: marks ∧
    ∃ name initializer, only = .variable name initializer

theorem variableClause_reads {inner : SurfaceInner}
    (good : inner.toInnerExpr.Good nesting room) :
    Reads (SurfaceGrammar.variableClause inner) nesting functions
      (.spelled (variableOutline room)) := by
  have missing : ∀ name : Token, Reads (do
      let initializer ← pure none
      let _ ← expect .semicolon .variableEnd
      return Clause.variable name initializer) nesting functions _ := fun name =>
    expectKind_spelled .semicolon .variableEnd (pure_spelled (Clause.variable name none))
  have present : ∀ name : Token, Reads (do
      let initializer ← some <$> inner.expression
      let _ ← expect .semicolon .variableEnd
      return Clause.variable name initializer) nesting functions
      (.spelled fun only marks _ => ∃ value more, (value.Canonical ∧ value.levels < room) ∧
        marks = value.marks ++ .kind .semicolon :: more ∧
        only = .variable name (some value) ∧ more = []) := by
    intro name
    rw [bind_map_left]
    exact expression_spelled good rfl .variableEnd fun value =>
      pure_spelled (Clause.variable name (some value))
  have reads : Reads (SurfaceGrammar.variableClause inner) nesting functions _ :=
    expect_spelled .variableName fun name =>
      accept_spelled (fun _equals => present name) (missing name) (by
        intro only used rest spelled
        obtain ⟨_, spells, more, rfl, rfl, rfl⟩ := spelled
        obtain ⟨token, rfl, isKind⟩ := spells_singleton.mp spells
        have same : token.kind = .semicolon := isKind
        simp [same])
  apply respelled reads
  intro only marks rest
  constructor
  · intro holds
    obtain ⟨name, _, named, rfl, found⟩ := holds
    rcases found with ⟨_, rfl, value, _, ⟨canonical, shallow⟩, rfl, rfl, rfl⟩ |
      ⟨_, rfl, rfl, rfl⟩
    · refine ⟨⟨named, ?_⟩, shallow, rfl, name, some value, rfl⟩
      intro given member
      cases member
      exact canonical
    · refine ⟨⟨named, ?_⟩, Nat.zero_le room, rfl, name, none, rfl⟩
      intro given member
      cases member
  · intro holds
    obtain ⟨canonical, shallow, same, name, initializer, rfl⟩ := holds
    obtain ⟨named, canonical⟩ := canonical
    cases same
    refine ⟨name, _, named, rfl, ?_⟩
    cases initializer with
    | none => exact Or.inr ⟨[], rfl, rfl, rfl⟩
    | some value => exact Or.inl ⟨_, rfl, value, [], ⟨canonical value rfl, shallow⟩, rfl, rfl, rfl⟩

def expressionOutline (room : Nat) : Outline Clause := fun only marks _ =>
  only.Canonical ∧ only.levels ≤ room ∧ marks = only.marks ∧ ∃ value, only = .expression value

theorem expressionClause_reads {inner : SurfaceInner}
    (good : inner.toInnerExpr.Good nesting room) :
    Reads (SurfaceGrammar.expressionClause inner) nesting functions
      (.spelled (expressionOutline room)) := by
  have reads : Reads (SurfaceGrammar.expressionClause inner) nesting functions _ :=
    expression_spelled good rfl .expressionEnd fun value => pure_spelled (Clause.expression value)
  apply respelled reads
  intro only marks rest
  constructor
  · intro holds
    obtain ⟨value, _, ⟨canonical, shallow⟩, rfl, rfl, rfl⟩ := holds
    exact ⟨canonical, shallow, rfl, value, rfl⟩
  · intro holds
    obtain ⟨canonical, shallow, rfl, value, rfl⟩ := holds
    exact ⟨value, [], ⟨canonical, shallow⟩, rfl, rfl, rfl⟩

theorem expressionOutline_starts {room : Nat} {only : Clause} {used rest : List Token}
    (spelled : Phrase.spelled (expressionOutline room) only used rest) :
    begins startsExpression used = true := by
  obtain ⟨_, spells, canonical, _shallow, rfl, value, rfl⟩ := spelled
  exact starts_append (Expr.Canonical.starts canonical) spells

/-- What stands in front of the condition of a `for` loop. -/
def initializerOutline (room : Nat) : Outline (Option Clause) := fun given marks _ =>
  (∀ only ∈ given, only.Canonical) ∧ (given.map Clause.levels).getD 0 ≤ room ∧
    marks = Clause.marks? given

theorem forInitializer_reads {inner : SurfaceInner}
    (good : inner.toInnerExpr.Good nesting room) :
    Reads (SurfaceGrammar.forInitializer inner) nesting functions
      (.spelled (initializerOutline room)) := by
  have reads : Reads (SurfaceGrammar.forInitializer inner) nesting functions _ :=
    accept_spelled (fun _semicolon => pure_spelled none)
      (accept_spelled (fun _word => map_spelled some (variableClause_reads good))
        (map_spelled some (expressionClause_reads good)) (by
        intro given used rest spelled
        obtain ⟨marks, spells, only, holds, rfl⟩ := spelled
        exact begins_ne rfl (expressionOutline_starts ⟨marks, spells, holds⟩)))
      (by
        intro given used rest spelled
        obtain ⟨_, spells, holds⟩ := spelled
        rcases holds with ⟨_, rfl, _behind⟩ | ⟨only, holds, rfl⟩
        · obtain ⟨token, back, rfl, isKind, _others⟩ := spells_cons.mp spells
          have same : token.kind = .varWord := isKind
          simp [same]
        · exact begins_ne rfl (expressionOutline_starts ⟨_, spells, holds⟩))
  apply respelled reads
  intro given marks rest
  constructor
  · intro holds
    rcases holds with ⟨_, rfl, rfl, rfl⟩ | ⟨_, rfl, only, holds, rfl⟩ | ⟨only, holds, rfl⟩
    · refine ⟨?_, Nat.zero_le room, rfl⟩
      intro only member
      cases member
    · obtain ⟨canonical, shallow, same, _variable⟩ := holds
      refine ⟨?_, shallow, same.symm⟩
      intro other member
      cases member
      exact canonical
    · obtain ⟨canonical, shallow, rfl, _expression⟩ := holds
      refine ⟨?_, shallow, rfl⟩
      intro other member
      cases member
      exact canonical
  · intro holds
    obtain ⟨canonical, shallow, rfl⟩ := holds
    cases given with
    | none => exact Or.inl ⟨[], rfl, rfl, rfl⟩
    | some only =>
        have here := canonical only rfl
        cases only with
        | «variable» name initializer =>
            exact Or.inr (Or.inl ⟨_, rfl, _, ⟨here, shallow, rfl, name, initializer, rfl⟩, rfl⟩)
        | expression value =>
            exact Or.inr (Or.inr ⟨_, ⟨here, shallow, rfl, value, rfl⟩, rfl⟩)

end

/-! ### First words -/

namespace Surface

/-- The word or the brace by which the grammar tells a tree, if it has one. -/
def opening : Surface → Option TokenKind
  | clause (.variable _ _) => some .varWord
  | clause (.expression _) => none
  | print _ => some .printWord
  | returning _ _ => some .returnWord
  | function _ _ _ => some .funWord
  | block _ => some .leftBrace
  | branch _ _ => some .ifWord
  | choice _ _ _ => some .ifWord
  | loop _ _ => some .whileWord
  | forLoop _ _ _ _ => some .forWord

/-- The token `return` is the only first word that is kept. -/
theorem marks_of_opening {statement : Surface} {word : TokenKind}
    (opens : statement.opening = some word) (other : word ≠ .returnWord) :
    ∃ more, statement.marks = .kind word :: more := by
  cases statement with
  | clause only =>
      cases only with
      | «variable» =>
          cases opens
          exact ⟨_, by rw [marks, Clause.marks]⟩
      | expression => cases opens
  | returning =>
      cases opens
      exact absurd rfl other
  | print | function | block | branch | choice | loop | forLoop =>
      cases opens
      exact ⟨_, by rw [marks]⟩

namespace Formed

variable {functions : Nat} {statement : Surface} {tokens : List Token}

theorem opens (formed : statement.Formed functions) (spells : Spells tokens statement.marks)
    {word : TokenKind} (opens : statement.opening = some word) :
    ∃ token back, tokens = token :: back ∧ token.kind = word := by
  by_cases isReturn : word = .returnWord
  · subst isReturn
    cases formed with
    | returning inside returns =>
        rw [marks] at spells
        obtain ⟨_, back, rfl, rfl, _others⟩ := spells_cons.mp spells
        exact ⟨_, back, rfl, returns⟩
    | @clause _ only => cases only <;> cases opens
    | print | function | block | branch | choice | loop | forLoop => cases opens
  · obtain ⟨more, same⟩ := marks_of_opening opens isReturn
    rw [same] at spells
    obtain ⟨token, back, rfl, isWord, _others⟩ := spells_cons.mp spells
    exact ⟨token, back, rfl, isWord⟩

theorem starts_expression (formed : statement.Formed functions)
    (spells : Spells tokens statement.marks) (opens : statement.opening = none) :
    begins startsExpression tokens = true := by
  cases formed with
  | @clause _ only canonical =>
      cases only with
      | «variable» => cases opens
      | expression value =>
          rw [marks] at spells
          exact starts_append (Expr.Canonical.starts canonical) spells
  | print | returning | function | block | branch | choice | loop | forLoop => cases opens

/-- A word that is not the first one of the tree, and starts no expression, is not next. -/
theorem starts_other (formed : statement.Formed functions)
    (spells : Spells tokens statement.marks) {word : TokenKind}
    (free : startsExpression word = false) (other : statement.opening ≠ some word) :
    begins (· != word) tokens = true := by
  cases opens : statement.opening with
  | none => exact begins_ne free (formed.starts_expression spells opens)
  | some own =>
      obtain ⟨token, back, rfl, isOwn⟩ := formed.opens spells opens
      apply bne_iff_ne.mpr
      intro same
      rw [opens, ← isOwn, same] at other
      exact other rfl

end Formed

/-- An `else` behind the tree would be taken for its own. -/
def Ends (statement : Surface) (rest : List Token) : Prop :=
  statement.opensElse = true → begins (· == .elseWord) rest = false

theorem ends_congr {statement other : Surface} {rest : List Token}
    (same : statement.opensElse = other.opensElse) :
    statement.Ends rest ↔ other.Ends rest := by
  unfold Ends
  rw [same]

/-- What the rule for statements may read in front of the rest. -/
structure Fills (functions room : Nat) (statement : Surface) (rest : List Token) : Prop where
  formed : statement.Formed functions
  states : statement.isStatement = true
  shallow : statement.levels < room
  ends : statement.Ends rest

/-- What the rule for declarations may read in front of the rest. -/
structure Declares (functions room : Nat) (statement : Surface) (rest : List Token) : Prop where
  formed : statement.Formed functions
  shallow : statement.declared < room
  ends : statement.Ends rest

/-- The trees that a rule may read, without those that start with certain words. -/
def among (reading : Surface → List Token → Prop) (words : List TokenKind) : Phrase Surface :=
  fun statement used rest =>
    reading statement rest ∧ (∀ word ∈ words, statement.opening ≠ some word) ∧
      Spells used statement.marks

/-- The trees that start with a certain word, told by the marks behind it. -/
def behindWord (reading : Surface → List Token → Prop) (word : TokenKind) : Outline Surface :=
  fun statement marks rest =>
    reading statement rest ∧ statement.opening = some word ∧
      statement.marks = .kind word :: marks

section

variable {reading : Surface → List Token → Prop} {word : TokenKind}

theorem behindWord_iff (other : word ≠ .returnWord) {token : Token} (isWord : token.kind = word)
    (statement : Surface) (back rest : List Token) :
    Phrase.spelled (behindWord reading word) statement back rest ↔
      reading statement rest ∧ statement.opening = some word ∧
        Spells (token :: back) statement.marks := by
  constructor
  · intro spelled
    obtain ⟨marks, spells, holds, opens, same⟩ := spelled
    refine ⟨holds, opens, ?_⟩
    rw [same]
    exact .cons isWord spells
  · intro whole
    obtain ⟨holds, opens, spells⟩ := whole
    obtain ⟨more, same⟩ := marks_of_opening opens other
    rw [same] at spells
    obtain ⟨_, _, split, _isWord, spellsMore⟩ := spells_cons.mp spells
    cases split
    exact ⟨more, spellsMore, holds, opens, same⟩

/-- Trying a word behind which a rule reads what starts with it, and else the other trees. -/
theorem either_opening {words : List TokenKind} {behind : Token → Phrase Surface}
    (formed : ∀ statement rest, reading statement rest → ∃ functions, statement.Formed functions)
    (free : startsExpression word = false) (fresh : word ∉ words)
    (enters : ∀ token, token.kind = word → ∀ statement back rest,
      (behind token statement back rest ↔ reading statement rest ∧
        statement.opening = some word ∧ Spells (token :: back) statement.marks)) :
    Phrase.either (· == word) behind (among reading (word :: words)) = among reading words := by
  funext statement used rest
  apply propext
  constructor
  · intro either
    rcases either with ⟨token, back, rfl, isWord, holds⟩ | ⟨_left, holds, others, spells⟩
    · obtain ⟨holds, opens, spells⟩ :=
        (enters token (beq_iff_eq.mp isWord) statement back rest).mp holds
      refine ⟨holds, ?_, spells⟩
      intro other member same
      rw [opens] at same
      cases same
      exact fresh member
    · exact ⟨holds, (List.forall_mem_cons.mp others).2, spells⟩
  · intro whole
    obtain ⟨holds, others, spells⟩ := whole
    obtain ⟨_functions, formed⟩ := formed statement rest holds
    by_cases opens : statement.opening = some word
    · obtain ⟨token, back, rfl, isWord⟩ := formed.opens spells opens
      exact Or.inl ⟨token, back, rfl, beq_iff_eq.mpr isWord,
        (enters token isWord statement back rest).mpr ⟨holds, opens, spells⟩⟩
    · have apart := begins_append_of_ne rest (formed.starts_other spells free opens)
      exact Or.inr ⟨apart, holds, List.forall_mem_cons.mpr ⟨opens, others⟩, spells⟩

end

/-! ### Declarations in a row -/

/-- What a declaration starts with, and what goes on or ends something else. -/
def startsDeclared (kind : TokenKind) : Bool :=
  kind != .rightBrace && kind != .elseWord

theorem startsDeclared_of_opening {statement : Surface} {word : TokenKind}
    (opens : statement.opening = some word) : startsDeclared word = true := by
  cases statement with
  | clause only =>
      cases only with
      | «variable» =>
          cases opens
          rfl
      | expression => cases opens
  | print | returning | function | block | branch | choice | loop | forLoop =>
      cases opens
      rfl

theorem Formed.starts_declared {functions : Nat} {statement : Surface} {tokens : List Token}
    (formed : statement.Formed functions) (spells : Spells tokens statement.marks) :
    begins startsDeclared tokens = true := by
  have never : ∀ word, startsDeclared word = false → statement.opening ≠ some word := by
    intro word apart opens
    rw [startsDeclared_of_opening opens] at apart
    cases apart
  have notBrace := formed.starts_other spells rfl (never .rightBrace rfl)
  have notElse := formed.starts_other spells rfl (never .elseWord rfl)
  cases tokens with
  | nil => cases notBrace
  | cons token tokens => simpa [startsDeclared] using And.intro notBrace notElse

def declarations (functions room : Nat) : Phrase Surface := fun statement used rest =>
  statement.Declares functions room rest ∧ Spells used statement.marks

theorem starts_all {functions room : Nat} {statements : List Surface} {tokens : List Token}
    (formed : ∀ statement ∈ statements, statement.Formed functions ∧ statement.declared < room)
    (spells : Spells tokens (marksAll statements)) :
    tokens = [] ∨ begins startsDeclared tokens = true := by
  cases statements with
  | nil =>
      rw [marksAll] at spells
      exact Or.inl (spells_nil.mp spells)
  | cons first others =>
      rw [marksAll] at spells
      have here := (formed first List.mem_cons_self).1
      exact Or.inr (starts_append (fun _tokens => here.starts_declared) spells)

theorem items_iff {item : Phrase (Option Surface)} (ended : List Token → Prop)
    {functions room : Nat}
    (last : ∀ used rest, item none used rest ↔ used = [] ∧ ended rest)
    (each : ∀ statement used rest, item (some statement) used rest ↔
      ¬ ended (used ++ rest) ∧ declarations functions room statement used rest)
    (going : ∀ tokens, begins startsDeclared tokens = true → ¬ ended tokens)
    (statements : List Surface) (used rest : List Token) (done : ended rest)
    (apart : begins (· == .elseWord) rest = false) :
    Phrase.Items item statements used rest ↔
      (∀ statement ∈ statements, statement.Formed functions ∧ statement.declared < room) ∧
        Spells used (marksAll statements) := by
  constructor
  · intro items
    induction items with
    | stop => simp [marksAll, spells_nil]
    | more first others ih =>
        obtain ⟨_going, declares, spells⟩ := (each _ _ _).mp first
        obtain ⟨formed, spellsOthers⟩ := ih done apart
        refine ⟨List.forall_mem_cons.mpr ⟨⟨declares.formed, declares.shallow⟩, formed⟩, ?_⟩
        rw [marksAll]
        exact spells_append.mpr ⟨_, _, rfl, spells, spellsOthers⟩
  · intro whole
    obtain ⟨formed, spells⟩ := whole
    induction statements generalizing used with
    | nil =>
        rw [marksAll] at spells
        rw [spells_nil.mp spells]
        exact .stop ((last [] rest).mpr ⟨rfl, done⟩)
    | cons first statements ih =>
        rw [marksAll] at spells
        obtain ⟨front, back, rfl, spellsFirst, spellsOthers⟩ := spells_append.mp spells
        obtain ⟨⟨here, shallow⟩, others⟩ := List.forall_mem_cons.mp formed
        have starting := here.starts_declared spellsFirst
        have goesOn : ¬ ended (front ++ (back ++ rest)) := by
          apply going
          cases front with
          | nil => cases starting
          | cons token front => exact starting
        have free : begins (· == .elseWord) (back ++ rest) = false := by
          rcases starts_all others spellsOthers with rfl | starting
          · exact apart
          · exact begins_append_of_ne rest (begins_ne rfl starting)
        have declares : first.Declares functions room (back ++ rest) :=
          ⟨here, shallow, fun _opens => free⟩
        exact .more ((each first front (back ++ rest)).mpr ⟨goesOn, declares, spellsFirst⟩)
          (ih back others spellsOthers)

theorem declarations_ne_nil {functions room : Nat} {statement : Surface} {used rest : List Token}
    (declared : declarations functions room statement used rest) : used ≠ [] := by
  have starting := declared.1.formed.starts_declared declared.2
  intro none
  rw [none] at starting
  cases starting

/-- A declaration where no closing brace is next. -/
def blockItem (functions room : Nat) : Phrase (Option Surface) :=
  .ahead (· != .rightBrace)
    (fun given used rest =>
      ∃ statement, declarations functions room statement used rest ∧ given = some statement)
    fun given used _ => given = none ∧ used = []

theorem blockItems_iff {functions room : Nat} {brace : Token} (closes : brace.kind = .rightBrace)
    (statements : List Surface) (used rest : List Token) :
    Phrase.Items (blockItem functions room) statements used (brace :: rest) ↔
      ((∀ statement ∈ statements, statement.Formed functions) ∧ levelsAll statements ≤ room) ∧
        Spells used (marksAll statements) := by
  have going : ∀ tokens, begins startsDeclared tokens = true →
      ¬ begins (· != .rightBrace) tokens = false := by
    intro tokens starting
    rw [begins_ne rfl starting]
    exact fun same => nomatch same
  rw [levelsAll_le_iff, ← forall₂_and]
  apply items_iff (fun tokens => begins (· != .rightBrace) tokens = false) ?_ ?_ going
  · simp [closes]
  · simp [closes]
  · intro used rest
    simp only [blockItem, Phrase.ahead, reduceCtorEq, and_false, exists_false, true_and, false_or]
    constructor
    · intro stopped
      obtain ⟨ended, rfl⟩ := stopped
      exact ⟨rfl, ended⟩
    · intro stopped
      obtain ⟨rfl, ended⟩ := stopped
      exact ⟨ended, rfl⟩
  · intro statement used rest
    simp [blockItem, Phrase.ahead]

end Surface

/-- What the rules one level deeper read. -/
structure SurfaceInner.Good (inner : SurfaceInner) (nesting room : Nat) : Prop where
  expressions : inner.toInnerExpr.Good nesting room
  statement : ∀ functions, Reads inner.statement nesting functions
    (Surface.among (Surface.Fills functions room) [])
  declaration : ∀ functions, Reads inner.declaration nesting functions
    (Surface.declarations functions room)

namespace Surface

open Lox.SurfaceGrammar

section

variable {inner : SurfaceInner} {nesting functions room : Nat}

/-- Declarations and the brace that closes them. -/
def blockOutline (functions room : Nat) : Outline (List Surface) := fun statements marks _ =>
  (∀ statement ∈ statements, statement.Formed functions) ∧ levelsAll statements ≤ room ∧
    marks = marksAll statements ++ [.kind .rightBrace]

theorem block_reads (good : inner.Good nesting room) :
    Reads (SurfaceGrammar.block inner) nesting functions
      (.spelled (blockOutline functions room)) := by
  have item : Reads (do
      if ← nextIs (· != .rightBrace) then some <$> inner.declaration else return none) nesting
      functions (blockItem functions room) :=
    nextIs_bind_reads (map_reads some (good.declaration functions)) (pure_reads none)
  have items := many_reads item (Or.inr ⟨rfl, rfl, rfl⟩)
    (by
      intro used rest stopped
      rcases stopped with ⟨_next, statement, _declared, same⟩ | stopped
      · cases same
      · exact stopped.2.2)
    (by
      intro statement used rest given
      rcases given with ⟨_next, statement, declared, _same⟩ | stopped
      · exact declarations_ne_nil declared
      · cases stopped.2.1)
  have reads : Reads (SurfaceGrammar.block inner) nesting functions _ :=
    closed_spelled items (fun _brace closes => blockItems_iff closes) .blockClose pure_spelled
  apply respelled reads
  intro statements marks rest
  constructor
  · intro holds
    obtain ⟨_, _, ⟨formed, shallow⟩, rfl, rfl, rfl⟩ := holds
    exact ⟨formed, shallow, rfl⟩
  · intro holds
    obtain ⟨formed, shallow, rfl⟩ := holds
    exact ⟨statements, [], ⟨formed, shallow⟩, rfl, rfl, rfl⟩

/-! ### Statements -/

theorem printStatement_reads (good : inner.Good nesting room) :
    Reads (SurfaceGrammar.printStatement inner) nesting functions
      (.spelled (behindWord (Fills functions (room + 1)) .printWord)) := by
  have reads : Reads (SurfaceGrammar.printStatement inner) nesting functions _ :=
    expression_spelled good.expressions rfl .valueEnd fun value => pure_spelled (print value)
  apply respelled reads
  intro statement marks rest
  constructor
  · intro holds
    obtain ⟨value, _, ⟨canonical, shallow⟩, rfl, rfl, rfl⟩ := holds
    refine ⟨⟨.print canonical, rfl, ?_, fun opens => nomatch opens⟩, rfl, ?_⟩
    · rw [levels]
      exact Nat.succ_lt_succ shallow
    · rw [Surface.marks]
  · intro holds
    obtain ⟨⟨formed, _states, shallow, _ends⟩, opens, same⟩ := holds
    cases formed with
    | print canonical =>
        rw [levels] at shallow
        rw [Surface.marks] at same
        cases same
        exact ⟨_, [], ⟨canonical, Nat.lt_of_succ_lt_succ shallow⟩, rfl, rfl, rfl⟩
    | @clause _ only => cases only <;> cases opens
    | returning | function | block | branch | choice | loop | forLoop => cases opens

def returnOutline (functions room : Nat) (keyword : Token) : Outline Surface :=
  fun statement marks _ =>
    0 < functions ∧ ∃ value more,
      ((∀ given ∈ value, given.Canonical) ∧ Expr.levels? value ≤ room) ∧
      marks = Expr.marks? value ++ .kind .semicolon :: more ∧
      statement = .returning keyword value ∧ more = []

theorem returnStatement_reads (good : inner.Good nesting room) (keyword : Token) :
    Reads (SurfaceGrammar.returnStatement keyword inner) nesting functions
      (.spelled (returnOutline functions room keyword)) := by
  let unnoted : Parser Surface := do
    let value ← Grammar.optionalBefore .semicolon inner.desugared
    let _ ← expect .semicolon .returnEnd
    return .returning keyword value
  have inside : Reads unnoted nesting functions _ :=
    optional_spelled good.expressions rfl rfl .returnEnd fun value =>
      pure_spelled (returning keyword value)
  have noted : Reads (note ⟨keyword, .returnOutsideFunction⟩ >>= fun _ => unnoted) nesting
      functions fun _ _ _ => False := note_bind_reads _ inside
  have reads : Reads ((do return (← get).functionDepth) >>= fun depth =>
      if depth = 0 then note ⟨keyword, .returnOutsideFunction⟩ >>= fun _ => unnoted else unnoted)
      nesting functions (.spelled (returnOutline functions room keyword)) := by
    apply look_bind_reads
    · intro depth
      split
      · exact noted.grows
      · exact inside.grows
    · intro state _atNesting atFunctions
      rw [atFunctions]
      by_cases outside : functions = 0
      · rw [if_pos outside]
        refine ⟨_, noted, ?_⟩
        intro statement used rest _split
        simp [Phrase.spelled, returnOutline, outside]
      · rw [if_neg outside]
        refine ⟨_, inside, ?_⟩
        intro statement used rest _split
        refine exists_congr fun marks => and_congr_right fun _spells => ?_
        exact (and_iff_right (Nat.pos_of_ne_zero outside)).symm
  exact reads

/-- Behind `return`, a return statement is told from the others by its word. -/
theorem returnOutline_iff {keyword : Token} (isReturn : keyword.kind = .returnWord)
    (statement : Surface) (back rest : List Token) :
    Phrase.spelled (returnOutline functions room keyword) statement back rest ↔
      Fills functions (room + 1) statement rest ∧ statement.opening = some .returnWord ∧
        Spells (keyword :: back) statement.marks := by
  constructor
  · intro spelled
    obtain ⟨_, spells, inside, value, _, ⟨canonical, shallow⟩, rfl, rfl, rfl⟩ := spelled
    refine ⟨⟨.returning inside isReturn canonical, rfl, ?_, fun opens => nomatch opens⟩, rfl, ?_⟩
    · rw [levels]
      exact Nat.lt_succ_of_le shallow
    · rw [Surface.marks]
      exact .cons rfl spells
  · intro whole
    obtain ⟨⟨formed, _states, shallow, _ends⟩, opens, spells⟩ := whole
    cases formed with
    | returning inside _returns canonical =>
        rw [levels] at shallow
        rw [Surface.marks] at spells
        obtain ⟨_, _, split, same, spellsMore⟩ := spells_cons.mp spells
        cases split
        cases same
        exact ⟨_, spellsMore, inside, _, [], ⟨canonical, Nat.le_of_lt_succ shallow⟩, rfl, rfl, rfl⟩
    | @clause _ only => cases only <;> cases opens
    | print | function | block | branch | choice | loop | forLoop => cases opens

theorem trailing_reads (next : Surface → Surface) (good : inner.Good nesting room) :
    Reads (do return next (← inner.statement)) nesting functions
      (.spelled fun result marks rest => ∃ statement, Fills functions room statement rest ∧
        marks = statement.marks ∧ result = next statement) := by
  apply (map_reads next (good.statement functions)).congr
  intro result used rest
  constructor
  · intro mapped
    obtain ⟨statement, ⟨fills, _words, spells⟩, rfl⟩ := mapped
    exact ⟨_, spells, statement, fills, rfl, rfl⟩
  · intro spelled
    obtain ⟨_, spells, statement, fills, rfl, rfl⟩ := spelled
    exact ⟨statement, ⟨fills, fun _word member => (List.not_mem_nil member).elim, spells⟩, rfl⟩

theorem whileStatement_reads (good : inner.Good nesting room) :
    Reads (SurfaceGrammar.whileStatement inner) nesting functions
      (.spelled (behindWord (Fills functions (room + 1)) .whileWord)) := by
  have reads : Reads (SurfaceGrammar.whileStatement inner) nesting functions _ :=
    expectKind_spelled .leftParen .whileOpen <|
      expression_spelled good.expressions rfl .whileClose fun condition =>
        trailing_reads (loop condition) good
  apply respelled reads
  intro result marks rest
  constructor
  · intro holds
    obtain ⟨_, rfl, condition, _, ⟨canonical, shallow⟩, rfl, statement, fills, rfl, rfl⟩ := holds
    refine ⟨⟨.loop canonical fills.states fills.formed, rfl, ?_, ?_⟩, rfl, ?_⟩
    · rw [levels]
      have inside := fills.shallow
      omega
    · exact (ends_congr (by rw [opensElse])).mpr fills.ends
    · rw [Surface.marks]
  · intro holds
    obtain ⟨⟨formed, _states, shallow, ends⟩, opens, same⟩ := holds
    cases formed with
    | @loop _ condition statement canonical states formed =>
        rw [levels] at shallow
        rw [Surface.marks] at same
        cases same
        have shallowOnes : condition.levels < room ∧ statement.levels < room := by omega
        have fills : Fills functions room statement rest :=
          ⟨formed, states, shallowOnes.2, (ends_congr (by rw [opensElse])).mp ends⟩
        exact ⟨_, rfl, condition, _, ⟨canonical, shallowOnes.1⟩, rfl, statement, fills, rfl, rfl⟩
    | @clause _ only => cases only <;> cases opens
    | print | returning | function | block | branch | choice | forLoop => cases opens

/-- A then branch, and an else branch where the word for it is next. -/
def branchesOutline (functions room : Nat) (condition : Expr) : Outline Surface :=
  fun result marks rest => ∃ thenBranch : Surface, thenBranch.Formed functions ∧
    thenBranch.isStatement = true ∧ thenBranch.levels < room ∧
    (result = .branch condition thenBranch ∧ marks = thenBranch.marks ∧
        begins (· == .elseWord) rest = false ∨
      ∃ elseBranch, Fills functions room elseBranch rest ∧ thenBranch.opensElse = false ∧
        result = .choice condition thenBranch elseBranch ∧
        marks = thenBranch.marks ++ .kind .elseWord :: elseBranch.marks)

theorem branches_reads (good : inner.Good nesting room) (condition : Expr) :
    Reads (do
      let thenBranch ← inner.statement
      match ← accept (· == .elseWord) with
      | none => return Surface.branch condition thenBranch
      | some _ => return Surface.choice condition thenBranch (← inner.statement)) nesting functions
      (.spelled (branchesOutline functions room condition)) := by
  have reads : Reads (do
      let thenBranch ← inner.statement
      match ← accept (· == .elseWord) with
      | none => return Surface.branch condition thenBranch
      | some _ => return Surface.choice condition thenBranch (← inner.statement)) nesting functions
      (.andThen (among (Fills functions room) []) fun thenBranch =>
        .either (· == .elseWord)
          (fun _ => .spelled fun result marks rest => ∃ elseBranch,
            Fills functions room elseBranch rest ∧ marks = elseBranch.marks ∧
            result = .choice condition thenBranch elseBranch)
          fun result used _ => result = .branch condition thenBranch ∧ used = []) :=
    (good.statement functions).bind fun thenBranch =>
      accept_bind_reads (fun _word => trailing_reads (choice condition thenBranch) good)
        (pure_reads (branch condition thenBranch))
  apply reads.congr
  intro result used rest
  constructor
  · intro whole
    obtain ⟨thenBranch, front, _, rfl, ⟨fills, _words, spells⟩, behind⟩ := whole
    rcases behind with ⟨word, back, rfl, isElse, behind⟩ | ⟨apart, rfl, rfl⟩
    · obtain ⟨_, spellsElse, elseBranch, fillsElse, rfl, rfl⟩ := behind
      have next : begins (· == .elseWord) (word :: back ++ rest) = true := isElse
      have closed : thenBranch.opensElse = false := by
        apply Bool.eq_false_iff.mpr
        intro opens
        rw [fills.ends opens] at next
        cases next
      refine ⟨_, spells_append.mpr ⟨front, _, rfl, spells, .cons ?_ spellsElse⟩, thenBranch,
        fills.formed, fills.states, fills.shallow, Or.inr ⟨elseBranch, fillsElse, closed, rfl, rfl⟩⟩
      exact beq_iff_eq.mp isElse
    · rw [List.append_nil]
      exact ⟨_, spells, thenBranch, fills.formed, fills.states, fills.shallow,
        Or.inl ⟨rfl, rfl, apart⟩⟩
  · intro spelled
    obtain ⟨_, spells, thenBranch, formed, states, shallow, behind⟩ := spelled
    rcases behind with ⟨rfl, rfl, apart⟩ | ⟨elseBranch, fills, closed, rfl, rfl⟩
    · have here : among (Fills functions room) [] thenBranch used ([] ++ rest) :=
        ⟨⟨formed, states, shallow, fun _opens => apart⟩, List.forall_mem_nil _, spells⟩
      exact ⟨thenBranch, used, [], (List.append_nil used).symm, here, Or.inr ⟨apart, rfl, rfl⟩⟩
    · obtain ⟨front, _, rfl, spellsThen, spells⟩ := spells_append.mp spells
      obtain ⟨word, back, rfl, isElse, spellsElse⟩ := spells_cons.mp spells
      have here : among (Fills functions room) [] thenBranch front (word :: back ++ rest) := by
        refine ⟨⟨formed, states, shallow, ?_⟩, List.forall_mem_nil _, spellsThen⟩
        intro opens
        rw [closed] at opens
        cases opens
      exact ⟨thenBranch, front, word :: back, rfl, here, Or.inl ⟨word, back, rfl,
        beq_iff_eq.mpr isElse, _, spellsElse, elseBranch, fills, rfl, rfl⟩⟩

theorem ifStatement_reads (good : inner.Good nesting room) :
    Reads (SurfaceGrammar.ifStatement inner) nesting functions
      (.spelled (behindWord (Fills functions (room + 1)) .ifWord)) := by
  have reads : Reads (SurfaceGrammar.ifStatement inner) nesting functions _ :=
    expectKind_spelled .leftParen .ifOpen <|
      expression_spelled good.expressions rfl .ifClose fun condition =>
        branches_reads good condition
  apply respelled reads
  intro result marks rest
  constructor
  · intro holds
    obtain ⟨_, rfl, condition, _, ⟨canonical, shallow⟩, rfl, thenBranch, formed, states, inside,
      branches⟩ := holds
    rcases branches with ⟨rfl, rfl, apart⟩ | ⟨elseBranch, fills, closed, rfl, rfl⟩
    · refine ⟨⟨.branch canonical states formed, rfl, ?_, fun _opens => apart⟩, rfl, ?_⟩
      · rw [levels]
        omega
      · rw [Surface.marks]
    · have insideElse := fills.shallow
      refine ⟨⟨.choice canonical states closed formed fills.states fills.formed, rfl, ?_, ?_⟩, rfl,
        ?_⟩
      · rw [levels]
        omega
      · exact (ends_congr (by rw [opensElse])).mpr fills.ends
      · rw [Surface.marks]
  · intro holds
    obtain ⟨⟨formed, _states, shallow, ends⟩, opens, same⟩ := holds
    cases formed with
    | @branch _ condition thenBranch canonical states formed =>
        rw [levels] at shallow
        rw [Surface.marks] at same
        cases same
        have apart := ends (by rw [opensElse])
        exact ⟨_, rfl, condition, _, ⟨canonical, by omega⟩, rfl, thenBranch, formed, states, by omega,
          Or.inl ⟨rfl, rfl, apart⟩⟩
    | @choice _ condition thenBranch elseBranch canonical states closed formed statesElse
        formedElse =>
        rw [levels] at shallow
        rw [Surface.marks] at same
        cases same
        have fills : Fills functions room elseBranch rest :=
          ⟨formedElse, statesElse, by omega, (ends_congr (by rw [opensElse])).mp ends⟩
        exact ⟨_, rfl, condition, _, ⟨canonical, by omega⟩, rfl, thenBranch, formed, states, by omega,
          Or.inr ⟨elseBranch, fills, closed, rfl, rfl⟩⟩
    | @clause _ only => cases only <;> cases opens
    | print | returning | function | block | loop | forLoop => cases opens

theorem forStatement_reads (good : inner.Good nesting room) :
    Reads (SurfaceGrammar.forStatement inner) nesting functions
      (.spelled (behindWord (Fills functions (room + 1)) .forWord)) := by
  have reads : Reads (SurfaceGrammar.forStatement inner) nesting functions _ :=
    expectKind_spelled .leftParen .forOpen <|
      bind_spelled (forInitializer_reads good.expressions) fun initializer =>
        optional_spelled good.expressions rfl rfl .loopConditionEnd fun condition =>
          optional_spelled good.expressions rfl rfl .forClose fun increment =>
            trailing_reads (forLoop initializer condition increment) good
  apply respelled reads
  intro result marks rest
  constructor
  · intro holds
    obtain ⟨_, rfl, initializer, _, _, ⟨first, shallowFirst, rfl⟩, rfl, condition, _,
      ⟨canonical, shallow⟩, rfl, increment, _, ⟨last, shallowLast⟩, rfl, statement, fills, rfl,
      rfl⟩ := holds
    have inside := fills.shallow
    refine ⟨⟨.forLoop first canonical last fills.states fills.formed, rfl, ?_, ?_⟩, rfl, ?_⟩
    · rw [levels]
      omega
    · exact (ends_congr (by rw [opensElse])).mpr fills.ends
    · rw [Surface.marks]
  · intro holds
    obtain ⟨⟨formed, _states, shallow, ends⟩, opens, same⟩ := holds
    cases formed with
    | @forLoop _ initializer condition increment statement first canonical last states formed =>
        rw [levels] at shallow
        rw [Surface.marks] at same
        cases same
        have fills : Fills functions room statement rest :=
          ⟨formed, states, by omega, (ends_congr (by rw [opensElse])).mp ends⟩
        exact ⟨_, rfl, initializer, _, _, ⟨first, by omega, rfl⟩, rfl, condition, _,
          ⟨canonical, by omega⟩, rfl, increment, _, ⟨last, by omega⟩, rfl, statement, fills, rfl,
          rfl⟩
    | @clause _ only => cases only <;> cases opens
    | print | returning | function | block | branch | choice | loop => cases opens

theorem blockStatement_reads (good : inner.Good nesting room) :
    Reads (do return Surface.block (← SurfaceGrammar.block inner)) nesting functions
      (.spelled (behindWord (Fills functions (room + 1)) .leftBrace)) := by
  apply respelled (map_spelled Surface.block (block_reads good))
  intro result marks rest
  constructor
  · intro holds
    obtain ⟨statements, ⟨formed, shallow, rfl⟩, rfl⟩ := holds
    refine ⟨⟨.block formed, rfl, ?_, fun opens => nomatch opens⟩, rfl, ?_⟩
    · rw [levels]
      omega
    · rw [Surface.marks]
  · intro holds
    obtain ⟨⟨formed, _states, shallow, _ends⟩, opens, same⟩ := holds
    cases formed with
    | @block _ statements formed =>
        rw [levels] at shallow
        rw [Surface.marks] at same
        cases same
        exact ⟨statements, ⟨formed, by omega, rfl⟩, rfl⟩
    | @clause _ only => cases only <;> cases opens
    | print | returning | function | branch | choice | loop | forLoop => cases opens

/-- What starts with no word of its own is an expression and its semicolon. -/
theorem expressionStatement_reads (good : inner.Good nesting room) :
    Reads (do return Surface.clause (← SurfaceGrammar.expressionClause inner)) nesting functions
      (among (Fills functions (room + 1))
        [.leftBrace, .whileWord, .returnWord, .printWord, .ifWord, .forWord]) := by
  apply (map_spelled Surface.clause (expressionClause_reads good.expressions)).congr
  intro result used rest
  constructor
  · intro spelled
    obtain ⟨_, spells, only, ⟨canonical, shallow, rfl, value, rfl⟩, rfl⟩ := spelled
    refine ⟨⟨.clause canonical, rfl, ?_, fun opens => nomatch opens⟩, ?_, ?_⟩
    · rw [levels]
      omega
    · intro word _member opens
      cases opens
    · rw [Surface.marks]
      exact spells
  · intro whole
    obtain ⟨⟨formed, states, shallow, _ends⟩, others, spells⟩ := whole
    cases formed with
    | @clause _ only canonical =>
        cases only with
        | «variable» => cases states
        | expression value =>
            rw [levels] at shallow
            rw [Surface.marks] at spells
            exact ⟨_, spells, _, ⟨canonical, by omega, rfl, value, rfl⟩, rfl⟩
    | function => cases states
    | print | returning | block | branch | choice | loop | forLoop => simp [opening] at others

theorem statement_reads (good : inner.Good nesting room) :
    Reads (SurfaceGrammar.statement inner) nesting functions
      (among (Fills functions (room + 1)) []) := by
  have formed : ∀ statement rest, Fills functions (room + 1) statement rest →
      ∃ functions, statement.Formed functions := fun _statement _rest fills => ⟨_, fills.formed⟩
  have reads : Reads (SurfaceGrammar.statement inner) nesting functions _ :=
    accept_bind_reads (fun _ => forStatement_reads good) <|
    accept_bind_reads (fun _ => ifStatement_reads good) <|
    accept_bind_reads (fun _ => printStatement_reads good) <|
    accept_bind_reads (fun keyword => returnStatement_reads good keyword) <|
    accept_bind_reads (fun _ => whileStatement_reads good) <|
    accept_bind_reads (fun _ => blockStatement_reads good) <|
    expressionStatement_reads good
  rw [either_opening formed rfl (by decide) fun _ isWord => behindWord_iff (by decide) isWord,
    either_opening formed rfl (by decide) fun _ isWord => behindWord_iff (by decide) isWord,
    either_opening formed rfl (by decide) fun _ isWord => returnOutline_iff isWord,
    either_opening formed rfl (by decide) fun _ isWord => behindWord_iff (by decide) isWord,
    either_opening formed rfl (by decide) fun _ isWord => behindWord_iff (by decide) isWord,
    either_opening formed rfl (by decide) fun _ isWord => behindWord_iff (by decide) isWord] at reads
  exact reads

/-! ### Declarations -/

theorem functionDeclaration_reads (good : inner.Good nesting room) :
    Reads (SurfaceGrammar.functionDeclaration inner) nesting functions
      (.spelled (behindWord (Declares functions (room + 1)) .funWord)) := by
  have body : ∀ name items, Reads (do
      return Surface.function name items (← insideFunction (SurfaceGrammar.block inner))) nesting
      functions _ := fun name items =>
    map_spelled (function name items) (insideFunction_reads (block_reads good))
  have reads : Reads (SurfaceGrammar.functionDeclaration inner) nesting functions _ :=
    expect_spelled .functionName fun name =>
      expectKind_spelled .leftParen .functionOpen <|
        parameters_spelled .parametersClose fun items =>
          expectKind_spelled .leftBrace .bodyOpen (body name items)
  apply respelled reads
  intro result marks rest
  constructor
  · intro holds
    obtain ⟨name, _, named, rfl, _, rfl, items, _, ⟨few, allNamed⟩, rfl, _, rfl, statements,
      ⟨formed, shallow, rfl⟩, rfl⟩ := holds
    refine ⟨⟨.function named few allNamed formed, ?_, fun opens => nomatch opens⟩, rfl, ?_⟩
    · change levels _ < room + 1
      rw [levels]
      omega
    · rw [Surface.marks]
  · intro holds
    obtain ⟨⟨formed, shallow, _ends⟩, opens, same⟩ := holds
    cases formed with
    | @function _ name items statements named few allNamed formed =>
        change levels _ < room + 1 at shallow
        rw [levels] at shallow
        rw [Surface.marks] at same
        cases same
        exact ⟨name, _, named, rfl, _, rfl, items, _, ⟨few, allNamed⟩, rfl, _, rfl, statements,
          ⟨formed, by omega, rfl⟩, rfl⟩
    | @clause _ only => cases only <;> cases opens
    | print | returning | block | branch | choice | loop | forLoop => cases opens

theorem variableDeclaration_reads (good : inner.Good nesting room) :
    Reads (do return Surface.clause (← SurfaceGrammar.variableClause inner)) nesting functions
      (.spelled (behindWord (Declares functions (room + 1)) .varWord)) := by
  apply respelled (map_spelled Surface.clause (variableClause_reads good.expressions))
  intro result marks rest
  constructor
  · intro holds
    obtain ⟨_, ⟨canonical, shallow, same, name, initializer, rfl⟩, rfl⟩ := holds
    refine ⟨⟨.clause canonical, ?_, fun opens => nomatch opens⟩, rfl, ?_⟩
    · change levels _ < room + 1
      rw [levels]
      omega
    · rw [Surface.marks, same]
  · intro holds
    obtain ⟨⟨formed, shallow, _ends⟩, opens, same⟩ := holds
    cases formed with
    | @clause _ only canonical =>
        cases only with
        | «variable» name initializer =>
            change levels _ < room + 1 at shallow
            rw [levels] at shallow
            rw [Surface.marks] at same
            exact ⟨_, ⟨canonical, by omega, same, name, initializer, rfl⟩, rfl⟩
        | expression => cases opens
    | print | returning | function | block | branch | choice | loop | forLoop => cases opens

/-- The statements are the declarations that start with neither word, one level deeper. -/
theorem fills_iff {statement : Surface} {rest : List Token} :
    statement.Fills functions room rest ↔ statement.Declares functions (room + 1) rest ∧
      ∀ word ∈ [TokenKind.varWord, .funWord], statement.opening ≠ some word := by
  have kinds : statement.isStatement = true ↔
      ∀ word ∈ [TokenKind.varWord, .funWord], statement.opening ≠ some word := by
    cases statement with
    | clause only => cases only <;> simp [isStatement, opening]
    | _ => simp [isStatement, opening]
  rw [← kinds]
  constructor
  · intro fills
    refine ⟨⟨fills.formed, ?_, fills.ends⟩, fills.states⟩
    rw [declared, if_pos fills.states]
    exact Nat.succ_lt_succ fills.shallow
  · intro whole
    obtain ⟨declares, states⟩ := whole
    have shallow := declares.shallow
    rw [declared, if_pos states] at shallow
    exact ⟨declares.formed, states, Nat.lt_of_succ_lt_succ shallow, declares.ends⟩

theorem declaration_reads (good : inner.Good nesting room) :
    Reads (SurfaceGrammar.declaration inner) nesting functions
      (declarations functions (room + 1)) := by
  have formed : ∀ statement rest, Declares functions (room + 1) statement rest →
      ∃ functions, statement.Formed functions :=
    fun _statement _rest declares => ⟨_, declares.formed⟩
  have statements : Reads inner.statement nesting functions
      (among (Declares functions (room + 1)) [.varWord, .funWord]) := by
    apply (good.statement functions).congr
    intro statement used rest
    simp only [among, fills_iff, List.not_mem_nil, false_imp_iff, implies_true, true_and, and_assoc]
  have reads : Reads (SurfaceGrammar.declaration inner) nesting functions _ :=
    accept_bind_reads (fun _ => functionDeclaration_reads good) <|
    accept_bind_reads (fun _ => variableDeclaration_reads good) statements
  rw [either_opening formed rfl (by decide) fun _ isWord => behindWord_iff (by decide) isWord,
    either_opening formed rfl (by decide) fun _ isWord => behindWord_iff (by decide) isWord] at reads
  apply reads.congr
  intro statement used rest
  simp only [among, declarations, List.not_mem_nil, false_imp_iff, implies_true, true_and]

end

end Surface

/-- Like `rules_good`, by induction on the levels that are left. -/
theorem surfaceRules_good (limit : Nat) {nesting room : Nat} (levels : nesting + room = limit) :
    (SurfaceGrammar.rules limit room).Good nesting room := by
  have expressions : (SurfaceGrammar.rules limit room).toInnerExpr.Good nesting room := by
    have good := rules_good limit levels
    cases room <;> exact good
  induction room generalizing nesting with
  | zero =>
      refine ⟨expressions, fun functions => ?_, fun functions => ?_⟩
      · apply (failHere_reads .tooMuchNesting).congr
        intro statement used rest
        constructor
        · exact False.elim
        · exact fun reading => absurd reading.1.shallow (Nat.not_lt_zero _)
      · apply (failHere_reads .tooMuchNesting).congr
        intro statement used rest
        constructor
        · exact False.elim
        · exact fun declared => absurd declared.1.shallow (Nat.not_lt_zero _)
  | succ room ih =>
      have deeper : (SurfaceGrammar.rules limit room).Good (nesting + 1) room := by
        have good : (Grammar.rules limit room).toInnerExpr.Good (nesting + 1) room :=
          rules_good limit (by omega)
        apply ih (by omega)
        cases room <;> exact good
      have open' : nesting < limit := by omega
      exact ⟨expressions, fun _ => nested_reads open' (Surface.statement_reads deeper),
        fun _ => nested_reads open' (Surface.declaration_reads deeper)⟩

end Lox
