import Lox.Proofs.Grammar.Program
import Lox.Proofs.Grammar.Segments
import Lox.Proofs.Run.Course
set_option autoImplicit false

/-! How high the trees of accepted inputs are. In a chain every operator or call has the one before
it as its left operand or its callee. Chains are read in loops that open no level, so they are as long
as an input makes them, and a tree is higher than its longest chain is long. The levels that may be
open bound all else: a tree is no higher than its longest chain and the limit of nesting make it. -/

namespace Lox

namespace Expr

mutual

/-- How many nodes stand on the longest way down. -/
def height : Expr → Nat
  | literal _ | «variable» _ => 1
  | assign _ value => value.height + 1
  | unary _ operand => operand.height + 1
  | binary left _ right | logical left _ right => max left.height right.height + 1
  | conditional condition _ thenBranch elseBranch =>
    max condition.height (max thenBranch.height elseBranch.height) + 1
  | call callee _ arguments => max callee.height (Expr.heightAll arguments) + 1
  | grouping inner => inner.height + 1

def heightAll : List Expr → Nat
  | [] => 0
  | first :: others => max first.height (Expr.heightAll others)

end

/-- How many operators and calls form the chain that ends in the node. -/
def links : Expr → Nat
  | binary left _ _ | logical left _ _ => left.links + 1
  | call callee _ _ => callee.links + 1
  | _ => 0

mutual

/-- How many operators and calls form the longest chain. -/
def longestChain : Expr → Nat
  | literal _ | «variable» _ => 0
  | assign _ value => value.longestChain
  | unary _ operand => operand.longestChain
  | binary left _ right | logical left _ right =>
    max (left.links + 1) (max left.longestChain right.longestChain)
  | conditional condition _ thenBranch elseBranch =>
    max condition.longestChain (max thenBranch.longestChain elseBranch.longestChain)
  | call callee _ arguments =>
    max (callee.links + 1) (max callee.longestChain (Expr.longestChainAll arguments))
  | grouping inner => inner.longestChain

def longestChainAll : List Expr → Nat
  | [] => 0
  | first :: others => max first.longestChain (Expr.longestChainAll others)

end

def height? : Option Expr → Nat
  | none => 0
  | some value => value.height

def longestChain? : Option Expr → Nat
  | none => 0
  | some value => value.longestChain

theorem heightAll_lt {items : List Expr} {bound : Nat} (positive : 0 < bound)
    (each : ∀ item ∈ items, item.height < bound) : heightAll items < bound := by
  induction items with
  | nil => exact positive
  | cons first others ih =>
      obtain ⟨here, there⟩ := List.forall_mem_cons.mp each
      exact Nat.max_lt.mpr ⟨here, ih there⟩

theorem longestChainAll_le_iff {items : List Expr} {bound : Nat} :
    longestChainAll items ≤ bound ↔ ∀ item ∈ items, item.longestChain ≤ bound := by
  induction items with
  | nil => simp [longestChainAll]
  | cons first others ih => rw [longestChainAll, Nat.max_le, ih, List.forall_mem_cons]

theorem links_le_longestChain (expression : Expr) :
    expression.links ≤ expression.longestChain := by
  cases expression <;> simp only [links, longestChain] <;> omega

theorem links_lt_height (expression : Expr) : expression.links < expression.height := by
  cases expression with
  | binary left operator right | logical left operator right =>
      have before := links_lt_height left
      rw [links, height]
      omega
  | call callee paren arguments =>
      have before := links_lt_height callee
      rw [links, height]
      omega
  | literal | «variable» => exact Nat.one_pos
  | assign | unary | conditional | grouping => exact Nat.succ_pos _

mutual

theorem longestChain_lt_height (expression : Expr) :
    expression.longestChain < expression.height := by
  cases expression with
  | literal | «variable» => exact Nat.one_pos
  | assign _ part | unary _ part | grouping part =>
      have below := longestChain_lt_height part
      rw [longestChain, height]
      omega
  | binary left operator right | logical left operator right =>
      have before := links_lt_height left
      have first := longestChain_lt_height left
      have second := longestChain_lt_height right
      rw [longestChain, height]
      omega
  | conditional condition question thenBranch elseBranch =>
      have decides := longestChain_lt_height condition
      have first := longestChain_lt_height thenBranch
      have second := longestChain_lt_height elseBranch
      rw [longestChain, height]
      omega
  | call callee paren arguments =>
      have before := links_lt_height callee
      have first := longestChain_lt_height callee
      have others := longestChainAll_le_heightAll arguments
      rw [longestChain, height]
      omega

theorem longestChainAll_le_heightAll (items : List Expr) :
    longestChainAll items ≤ heightAll items := by
  cases items with
  | nil => simp [longestChainAll, heightAll]
  | cons first others =>
      have here := longestChain_lt_height first
      have there := longestChainAll_le_heightAll others
      rw [longestChainAll, heightAll]
      omega

end

end Expr

namespace Stmt

mutual

/-- How many nodes stand on the longest way down, in the bodies of its declarations too. -/
def height : Stmt → Nat
  | expression value | print value => value.height + 1
  | returning _ value | «variable» _ value => Expr.height? value + 1
  | function _ _ _ body => Stmt.heightAll body + 1
  | block statements => Stmt.heightAll statements + 1
  | branch condition thenBranch none => max condition.height thenBranch.height + 1
  | branch condition thenBranch (some elseBranch) =>
    max condition.height (max thenBranch.height elseBranch.height) + 1
  | loop condition body => max condition.height body.height + 1

def heightAll : List Stmt → Nat
  | [] => 0
  | first :: others => max first.height (Stmt.heightAll others)

end

mutual

/-- The length of the longest chain in its expressions. -/
def longestChain : Stmt → Nat
  | expression value | print value => value.longestChain
  | returning _ value | «variable» _ value => Expr.longestChain? value
  | function _ _ _ body => Stmt.longestChainAll body
  | block statements => Stmt.longestChainAll statements
  | branch condition thenBranch none => max condition.longestChain thenBranch.longestChain
  | branch condition thenBranch (some elseBranch) =>
    max condition.longestChain (max thenBranch.longestChain elseBranch.longestChain)
  | loop condition body => max condition.longestChain body.longestChain

def longestChainAll : List Stmt → Nat
  | [] => 0
  | first :: others => max first.longestChain (Stmt.longestChainAll others)

end

theorem heightAll_lt {statements : List Stmt} {bound : Nat} (positive : 0 < bound)
    (each : ∀ statement ∈ statements, statement.height < bound) : heightAll statements < bound := by
  induction statements with
  | nil => exact positive
  | cons first others ih =>
      obtain ⟨here, there⟩ := List.forall_mem_cons.mp each
      exact Nat.max_lt.mpr ⟨here, ih there⟩

theorem longestChainAll_le_iff {statements : List Stmt} {bound : Nat} :
    longestChainAll statements ≤ bound ↔
      ∀ statement ∈ statements, statement.longestChain ≤ bound := by
  induction statements with
  | nil => simp [longestChainAll]
  | cons first others ih => rw [longestChainAll, Nat.max_le, ih, List.forall_mem_cons]

theorem longestChain?_le_height? (value : Option Expr) :
    Expr.longestChain? value ≤ Expr.height? value := by
  cases value with
  | none => exact Nat.le_refl 0
  | some value => exact Nat.le_of_lt value.longestChain_lt_height

mutual

theorem longestChain_lt_height (statement : Stmt) :
    statement.longestChain < statement.height := by
  cases statement with
  | expression value | print value =>
      exact Nat.lt_succ_of_lt value.longestChain_lt_height
  | returning _ value | «variable» _ value => exact Nat.lt_succ_of_le (longestChain?_le_height? value)
  | function _ _ _ statements | block statements =>
      have inside := longestChainAll_le_heightAll statements
      rw [longestChain, height]
      omega
  | branch condition thenBranch elseBranch =>
      have decides := condition.longestChain_lt_height
      have first := longestChain_lt_height thenBranch
      cases elseBranch with
      | none =>
          rw [longestChain, height]
          omega
      | some elseBranch =>
          have second := longestChain_lt_height elseBranch
          rw [longestChain, height]
          omega
  | loop condition body =>
      have decides := condition.longestChain_lt_height
      have repeated := longestChain_lt_height body
      rw [longestChain, height]
      omega

theorem longestChainAll_le_heightAll (statements : List Stmt) :
    longestChainAll statements ≤ heightAll statements := by
  cases statements with
  | nil => exact Nat.le_refl 0
  | cons first others =>
      have here := longestChain_lt_height first
      have there := longestChainAll_le_heightAll others
      rw [longestChainAll, heightAll]
      omega

end

end Stmt

/-! ### What the levels bound -/

/-- No tree with chains of a length and with so many levels is higher: on a way down every level is
gone through once for each of the eleven levels of precedence, and there along a chain. -/
def ceiling (chain levels : Nat) : Nat :=
  11 * (chain + 1) * levels

theorem ceiling_mono (chain : Nat) {few many : Nat} (fewer : few ≤ many) :
    ceiling chain few ≤ ceiling chain many :=
  Nat.mul_le_mul_left _ fewer

theorem ceiling_lt (chain : Nat) {few many : Nat} (fewer : few < many) :
    ceiling chain few + 11 ≤ ceiling chain many := by
  have one : ceiling chain few + 11 * (chain + 1) = ceiling chain (few + 1) := rfl
  have more := ceiling_mono chain (Nat.succ_le_of_lt fewer)
  rw [Nat.succ_eq_add_one] at more
  omega

namespace Expr

/-- How many chains there may be on the way down, one of each level of precedence that is not looser
than the expression itself, and one of each in every level inside of it. -/
def chains (expression : Expr) : Nat :=
  (10 - expression.level) + 11 * expression.levels

/-- What the height of an expression is bounded by if no chain is longer. -/
def highest (bound : Nat) (expression : Expr) : Nat :=
  expression.links + 1 + (bound + 1) * expression.chains

section

variable {part whole : Expr} {bound : Nat}

/-- The operand in front goes on with the chain. -/
theorem height_in_front (below : part.height ≤ part.highest bound)
    (linked : part.links + 1 = whole.links) (fewer : part.chains ≤ whole.chains) :
    part.height < whole.highest bound := by
  have more := Nat.mul_le_mul_left (bound + 1) fewer
  unfold highest at below ⊢
  omega

/-- Any other part begins a chain of its own. -/
theorem height_inside (below : part.height ≤ part.highest bound)
    (within : part.longestChain ≤ bound) (fewer : part.chains < whole.chains) :
    part.height < whole.highest bound := by
  have short := part.links_le_longestChain
  have more := Nat.mul_le_mul_left (bound + 1) (Nat.succ_le_of_lt fewer)
  rw [Nat.mul_succ] at more
  unfold highest at below ⊢
  omega

/-- Levels that are opened inside make up for any loss of precedence. -/
theorem chains_lt_of_levels (deeper : part.levels < whole.levels) : part.chains < whole.chains := by
  unfold chains
  omega

theorem chains_le_of_level (tight : whole.level ≤ part.level) (levels : part.levels ≤ whole.levels) :
    part.chains ≤ whole.chains := by
  unfold chains
  omega

theorem chains_lt_of_level (loose : whole.level < 10) (tight : whole.level < part.level)
    (levels : part.levels ≤ whole.levels) : part.chains < whole.chains := by
  unfold chains
  omega

end

theorem Canonical.height_le_highest {expression : Expr} (canonical : expression.Canonical)
    {bound : Nat} : expression.longestChain ≤ bound →
      expression.height ≤ expression.highest bound := by
  induction canonical with
  | literal | «variable» =>
      intro _within
      exact Nat.le_add_right 1 _
  | grouping _ ih | assign _ _ ih | unary _ _ _ ih =>
      intro within
      exact height_inside (ih within) within (chains_lt_of_levels (Nat.lt_succ_self _))
  | @binary left right operator level operates _ highest _ leftTight _ rightTight ih second
  | @logical left right operator level operates _ highest _ leftTight _ rightTight _ ih second =>
      intro within
      obtain ⟨_long, withinLeft, withinRight⟩ :
          left.links + 1 ≤ bound ∧ left.longestChain ≤ bound ∧ right.longestChain ≤ bound := by
        simpa only [longestChain, Nat.max_le] using within
      have own : operator.kind.grip?.getD 0 = level := by
        rw [operates]
        rfl
      rw [← own] at highest leftTight rightTight
      refine Nat.succ_le_of_lt (Nat.max_lt.mpr ⟨?_, ?_⟩)
      · exact height_in_front (ih withinLeft) rfl
          (chains_le_of_level leftTight (Nat.le_max_left _ _))
      · exact height_inside (second withinRight) withinRight
          (chains_lt_of_level (Nat.lt_of_le_of_lt highest (by decide)) rightTight
            (Nat.le_max_right _ _))
  | @conditional condition thenBranch elseBranch question _ _ tight _ _ ih first second =>
      intro within
      obtain ⟨withinCondition, withinThen, withinElse⟩ : condition.longestChain ≤ bound ∧
          thenBranch.longestChain ≤ bound ∧ elseBranch.longestChain ≤ bound := by
        simpa only [longestChain, Nat.max_le] using within
      refine Nat.succ_le_of_lt (Nat.max_lt.mpr ⟨?_, Nat.max_lt.mpr ⟨?_, ?_⟩⟩)
      · exact height_inside (ih withinCondition) withinCondition
          (chains_lt_of_level (by rw [level]; decide) tight (Nat.le_max_left _ _))
      · refine height_inside (first withinThen) withinThen (chains_lt_of_levels ?_)
        rw [levels]
        omega
      · refine height_inside (second withinElse) withinElse (chains_lt_of_levels ?_)
        rw [levels]
        omega
  | @call callee paren arguments _ tight _ _ _ ih each =>
      intro within
      obtain ⟨_long, withinCallee, withinArguments⟩ : callee.links + 1 ≤ bound ∧
          callee.longestChain ≤ bound ∧ longestChainAll arguments ≤ bound := by
        simpa only [longestChain, Nat.max_le] using within
      refine Nat.succ_le_of_lt (Nat.max_lt.mpr ⟨?_, ?_⟩)
      · exact height_in_front (ih withinCallee) rfl
          (chains_le_of_level tight (Nat.le_max_left _ _))
      · refine heightAll_lt (Nat.add_pos_left (Nat.succ_pos _) _) fun argument given => ?_
        have shallow := levelsAll_le_iff.mp (Nat.le_refl (levelsAll arguments)) argument given
        have short := longestChainAll_le_iff.mp withinArguments argument given
        exact height_inside (each argument given short) short
          (chains_lt_of_levels (Nat.lt_of_lt_of_le shallow (Nat.le_max_right _ _)))

/-- An expression stands in a level of its own. -/
theorem Canonical.height_le {expression : Expr} (canonical : expression.Canonical)
    {bound levels : Nat} (within : expression.longestChain ≤ bound)
    (shallow : expression.levels < levels) : expression.height ≤ ceiling bound levels := by
  have below := canonical.height_le_highest within
  have short := Nat.le_trans expression.links_le_longestChain within
  have most : expression.chains + 1 ≤ 11 * levels := by
    unfold chains
    omega
  have more := Nat.mul_le_mul_left (bound + 1) most
  rw [Nat.mul_succ] at more
  unfold highest at below
  unfold ceiling
  rw [Nat.mul_comm 11, Nat.mul_assoc]
  omega

end Expr

theorem Expr.height?_le {value : Option Expr} {bound levels : Nat}
    (canonical : ∀ given ∈ value, given.Canonical) (within : longestChain? value ≤ bound)
    (shallow : levels? value ≤ levels) : height? value ≤ ceiling bound levels := by
  cases value with
  | none => exact Nat.zero_le _
  | some value => exact (canonical value rfl).height_le within shallow

theorem Clause.height_le {only : Clause} {bound levels : Nat} (canonical : only.Canonical)
    (within : only.desugar.longestChain ≤ bound) (shallow : only.levels ≤ levels) :
    only.desugar.height ≤ ceiling bound levels + 1 := by
  cases only with
  | «variable» name initializer =>
      exact Nat.succ_le_succ (Expr.height?_le canonical.2 within shallow)
  | expression value => exact Nat.succ_le_succ (Expr.Canonical.height_le canonical within shallow)

namespace Stmt

variable {initializer : Option Stmt} {condition increment : Option Expr} {body : Stmt} {bound : Nat}

/-- Around the body of a `for` loop stand up to three nodes, and up to four around its increment. -/
theorem height_forLoop_le (first : ∀ only ∈ initializer, only.height + 1 ≤ bound)
    (decides : Expr.height? condition + 3 ≤ bound) (last : Expr.height? increment + 4 ≤ bound)
    (repeated : body.height + 3 ≤ bound) :
    (forLoop initializer condition increment body).height ≤ bound := by
  have decided : (condition.getD (.literal (.bool true))).height + 2 ≤ bound := by
    cases condition with
    | none => exact decides
    | some value => exact Nat.le_of_succ_le decides
  have round : (body.withIncrement increment).height + 2 ≤ bound := by
    cases increment with
    | none => exact Nat.le_of_succ_le repeated
    | some value =>
        rw [Expr.height?] at last
        rw [withIncrement, height, heightAll, heightAll, heightAll, height]
        omega
  cases initializer with
  | none =>
      rw [forLoop, withInitializer, height]
      omega
  | some only =>
      have before := first only rfl
      rw [forLoop, withInitializer, height, heightAll, heightAll, heightAll, height]
      omega

theorem longestChain_forLoop_le :
    (forLoop initializer condition increment body).longestChain ≤ bound ↔
      (∀ only ∈ initializer, only.longestChain ≤ bound) ∧ Expr.longestChain? condition ≤ bound ∧
        Expr.longestChain? increment ≤ bound ∧ body.longestChain ≤ bound := by
  cases initializer <;> cases condition <;> cases increment <;>
    simp only [forLoop, withIncrement, withInitializer, Option.getD, longestChain, longestChainAll,
      Expr.longestChain, Expr.longestChain?, Option.mem_def, Option.some.injEq, reduceCtorEq,
      forall_eq', false_implies, implies_true, Nat.max_le, Nat.zero_le] <;>
    tauto

end Stmt

namespace Surface

theorem heightAll_desugarAll_lt {statements : List Surface} {bound levels : Nat}
    (each : ∀ statement ∈ statements, ∀ {levels}, statement.levels ≤ levels →
      statement.desugar.longestChain ≤ bound → statement.desugar.height ≤ ceiling bound levels + 4)
    (shallow : levelsAll statements ≤ levels)
    (within : Stmt.longestChainAll (desugarAll statements) ≤ bound) :
    Stmt.heightAll (desugarAll statements) < ceiling bound levels + 4 := by
  rw [desugarAll_eq_map] at within ⊢
  refine Stmt.heightAll_lt (Nat.succ_pos _) fun lowered member => ?_
  obtain ⟨statement, given, rfl⟩ := List.mem_map.mp member
  have declares := levelsAll_le_iff.mp shallow statement given
  have below := each statement given (Nat.le_refl _) (Stmt.longestChainAll_le_iff.mp within _ member)
  have deeper : statement.levels < levels := by
    unfold declared at declares
    split at declares <;> omega
  have room := ceiling_lt bound deeper
  omega

/-- What stands inside a statement is a level deeper, and a level more leaves room for the nodes
around it. -/
theorem Formed.height_le {functions : Nat} {statement : Surface}
    (formed : statement.Formed functions) {bound levels : Nat} :
    statement.levels ≤ levels → statement.desugar.longestChain ≤ bound →
      statement.desugar.height ≤ ceiling bound levels + 4 := by
  induction formed generalizing levels with
  | clause canonical =>
      intro shallow within
      have below := Clause.height_le canonical within shallow
      exact Nat.le_trans below (Nat.add_le_add_left (by decide) _)
  | print canonical =>
      intro shallow within
      have below := canonical.height_le within shallow
      rw [desugar, Stmt.height]
      omega
  | returning _ _ canonical =>
      intro shallow within
      have below := Expr.height?_le canonical within shallow
      rw [desugar, Stmt.height]
      omega
  | function _ _ _ _ ih | block _ ih =>
      intro shallow within
      have below := heightAll_desugarAll_lt (fun _ given _ => ih _ given) shallow within
      rw [desugar, Stmt.height]
      omega
  | branch canonical _ _ ih | loop canonical _ _ ih =>
      intro shallow within
      obtain ⟨deeperCondition, deeper⟩ := Nat.max_le.mp shallow
      obtain ⟨withinCondition, within⟩ := Nat.max_le.mp within
      have decides := canonical.height_le withinCondition deeperCondition
      have inside := ih (Nat.le_refl _) within
      have room := ceiling_lt bound deeper
      rw [desugar, Stmt.height]
      omega
  | choice canonical _ _ _ _ _ ih second =>
      intro shallow within
      obtain ⟨deeperCondition, deeper⟩ := Nat.max_le.mp shallow
      obtain ⟨deeperThen, deeperElse⟩ := Nat.max_le.mp deeper
      obtain ⟨withinCondition, within⟩ := Nat.max_le.mp within
      obtain ⟨withinThen, withinElse⟩ := Nat.max_le.mp within
      have decides := canonical.height_le withinCondition deeperCondition
      have inside := ih (Nat.le_refl _) withinThen
      have other := second (Nat.le_refl _) withinElse
      have room := ceiling_lt bound deeperThen
      have roomElse := ceiling_lt bound deeperElse
      rw [desugar, Stmt.height]
      omega
  | forLoop first canonical last _ _ ih =>
      intro shallow within
      obtain ⟨shallowFirst, shallow⟩ := Nat.max_le.mp shallow
      obtain ⟨shallowCondition, shallow⟩ := Nat.max_le.mp shallow
      obtain ⟨shallowLast, deeper⟩ := Nat.max_le.mp shallow
      obtain ⟨withinFirst, withinCondition, withinLast, withinBody⟩ :=
        Stmt.longestChain_forLoop_le.mp within
      have decides := Expr.height?_le canonical withinCondition shallowCondition
      have steps := Expr.height?_le last withinLast shallowLast
      have repeated := ih (Nat.le_refl _) withinBody
      have room := ceiling_lt bound deeper
      refine Stmt.height_forLoop_le ?_ (by omega) (by omega) (by omega)
      intro lowered given
      obtain ⟨only, rfl, rfl⟩ := Option.map_eq_some_iff.mp given
      have begins := Clause.height_le (first only rfl) (withinFirst _ rfl) shallowFirst
      omega

end Surface

theorem parseExpression_rendered {expression : Expr} (canonical : expression.Canonical)
    (shallow : expression.levels < maxNesting) :
    parseExpression expression.rendering = .ok expression := by
  have spells : Spells expression.rendering expression.marks := spells_written expression.marks
  have stands : Expr.Stands 0 0 maxNesting expression expression.rendering [] :=
    stands_of_free canonical shallow spells rfl
  have none : ∀ token ∈ ([] : List Token).head?, token.kind = .endOfInput := by simp
  have whole := takeWhile_visible (spells.visible canonical.visible) none
  rw [List.append_nil] at whole
  unfold parseExpression
  rw [parseExpressionWithin_iff, whole]
  exact ⟨expression, _, [], (List.append_nil _).symm, stands, .stop (Or.inr ⟨rfl, rfl, rfl⟩)⟩

/-! ### Chains of any length -/

/-- Evaluation comes to an operand or a callee at the front before anything is called, with so many
others pending. -/
def Expr.Descends (settings : Settings) (scope : ScopeId) (expression : Expr) (links : Nat) : Prop :=
  ∀ frames machine, ∃ front pending, pending.length = links ∧ .call ∉ pending ∧
    Moment.Reaches settings ⟨.evaluate scope expression, frames, machine⟩
      ⟨.evaluate scope front, pending ++ frames, machine⟩

section

variable {settings : Settings} {scope : ScopeId} {expression part : Expr} {links : Nat}

theorem Expr.Descends.link (descends : part.Descends settings scope links) (link : Frame)
    (other : link ≠ .call)
    (enters : ∀ frames machine,
      Moment.next settings ⟨.evaluate scope expression, frames, machine⟩
        = some ⟨.evaluate scope part, link :: frames, machine⟩) :
    expression.Descends settings scope (links + 1) := by
  intro frames machine
  obtain ⟨front, pending, length, free, reached⟩ := descends (link :: frames) machine
  refine ⟨front, pending ++ [link], by simp [length], by simp [free, Ne.symm other], ?_⟩
  rw [List.append_assoc]
  exact .step (enters frames machine) reached

theorem Expr.descends (settings : Settings) (scope : ScopeId) (expression : Expr) :
    expression.Descends settings scope expression.links := by
  induction expression using Expr.links.induct with
  | case1 left operator right ih =>
      exact ih.link (.binaryLeft scope operator right) nofun fun _ _ => rfl
  | case2 left operator right ih =>
      exact ih.link (.logical scope operator right) nofun fun _ _ => rfl
  | case3 callee paren arguments ih =>
      exact ih.link (.callee scope paren arguments) nofun fun _ _ => rfl
  | case4 expression notBinary notLogical notCall =>
      intro frames machine
      refine ⟨expression, [], ?_, List.not_mem_nil, .refl _⟩
      rw [links] <;> first | rfl | assumption

end

/-- `1 + 1 + … + 1`. -/
def onesSummed : (additions : Nat) → Expr
  | 0 => .literal (.number 1)
  | additions + 1 => .binary (onesSummed additions) ⟨.plus, "+", .nil, 1⟩ (.literal (.number 1))

namespace onesSummed

theorem canonical (additions : Nat) : (onesSummed additions).Canonical := by
  induction additions with
  | zero => exact .literal _
  | succ additions ih =>
      refine .binary rfl (by decide) (by decide) ih ?_ (.literal _) (by simp [Expr.level])
      cases additions <;> simp [onesSummed, Expr.level, TokenKind.grip?]

theorem levels (additions : Nat) : (onesSummed additions).levels = 0 := by
  induction additions with
  | zero => rfl
  | succ additions ih => rw [onesSummed, Expr.levels, ih, Expr.levels, Nat.max_self]

theorem links (additions : Nat) : (onesSummed additions).links = additions := by
  induction additions with
  | zero => rfl
  | succ additions ih => rw [onesSummed, Expr.links, ih]

theorem longestChain (additions : Nat) : (onesSummed additions).longestChain = additions := by
  induction additions with
  | zero => rfl
  | succ additions ih =>
      rw [onesSummed, Expr.longestChain, links, ih, Expr.longestChain]
      omega

theorem parses (additions : Nat) :
    parseExpression (onesSummed additions).rendering = .ok (onesSummed additions) :=
  parseExpression_rendered (canonical additions) (by rw [levels]; decide)

/-- As a statement. -/
def stated (additions : Nat) : Surface :=
  .clause (.expression (onesSummed additions))

theorem parses_stated (additions : Nat) :
    parseProgram (Surface.rendering [stated additions])
      = .ok [.expression (onesSummed additions)] := by
  refine parseProgram_rendering [stated additions] fun statement member => ?_
  rw [List.mem_singleton.mp member]
  refine ⟨.clause (canonical additions), ?_⟩
  simp [Surface.declared, stated, Surface.isStatement, Surface.levels, Clause.levels, levels,
    maxNesting]

end onesSummed

/-- Trees grow with their longest chains and with nothing else. An accepted expression or statement is
higher than its longest chain is long, and no higher than that chain and the limit of nesting make it;
so the heights over any inputs are bounded exactly where the chains are. Evaluation descends along the
whole of a chain before anything is called. -/
theorem height_follows_chains (tokens : List Token) :
    (∀ expression, parseExpression tokens = .ok expression →
      expression.longestChain < expression.height ∧
        expression.height ≤ ceiling expression.longestChain maxNesting ∧
        ∀ settings scope, expression.Descends settings scope expression.links) ∧
    ∀ statements, parseProgram tokens = .ok statements → ∀ statement ∈ statements,
      statement.longestChain < statement.height ∧
        statement.height ≤ ceiling statement.longestChain maxNesting := by
  refine ⟨?_, ?_⟩
  · intro expression accepted
    refine ⟨expression.longestChain_lt_height, ?_,
      fun settings scope => expression.descends settings scope⟩
    unfold parseExpression at accepted
    rw [parseExpressionWithin_iff] at accepted
    obtain ⟨first, front, back, _whole, stands, rounds⟩ := accepted
    obtain ⟨dropped, fine, _spelled⟩ := divides_of_rounds rounds rfl front stands
    obtain ⟨canonical, shallow⟩ := fine expression (by simp)
    exact canonical.height_le (Nat.le_refl _) shallow
  · intro statements accepted statement member
    refine ⟨statement.longestChain_lt_height, ?_⟩
    obtain ⟨program, formed, _spells, rfl⟩ := (parseProgramWithin_iff _ _ _).mp accepted
    rw [Surface.desugarAll_eq_map] at member
    obtain ⟨surface, given, rfl⟩ := List.mem_map.mp member
    obtain ⟨formed, declares⟩ := formed surface given
    have shallow : surface.levels < maxNesting := by
      unfold Surface.declared at declares
      split at declares <;> omega
    have below := formed.height_le (Nat.le_refl _) (Nat.le_refl _)
    have room := ceiling_lt surface.desugar.longestChain shallow
    omega

/-- No bound holds of the heights of all accepted expressions, none of all accepted statements, and
none of how many operands evaluation descends to at once. -/
theorem heights_unbounded :
    (¬ ∃ bound, ∀ tokens expression, parseExpression tokens = .ok expression →
      expression.height ≤ bound) ∧
    (¬ ∃ bound, ∀ tokens statements, parseProgram tokens = .ok statements →
      ∀ statement ∈ statements, statement.height ≤ bound) ∧
    ¬ ∃ bound, ∀ tokens expression, parseExpression tokens = .ok expression →
      ∀ links, expression.Descends {} Arena.globalScope links → links ≤ bound := by
  have higher (bound : Nat) : bound < (onesSummed bound).height := by
    have high := (onesSummed bound).longestChain_lt_height
    rw [onesSummed.longestChain] at high
    exact high
  refine ⟨?_, ?_, ?_⟩
  · intro bounded
    obtain ⟨bound, each⟩ := bounded
    exact Nat.not_le_of_lt (higher bound) (each _ _ (onesSummed.parses bound))
  · intro bounded
    obtain ⟨bound, each⟩ := bounded
    have within := each _ _ (onesSummed.parses_stated bound) _ (List.mem_singleton_self _)
    rw [Stmt.height] at within
    have high := higher bound
    omega
  · intro bounded
    obtain ⟨bound, each⟩ := bounded
    have descends := (onesSummed (bound + 1)).descends {} Arena.globalScope
    have within := each _ _ (onesSummed.parses (bound + 1)) _ descends
    rw [onesSummed.links] at within
    omega

end Lox
