import Mathlib.Data.List.Forall2
import Lox.Proofs.Grammar.Reading
set_option autoImplicit false

/-! Expressions as they can be written down. In a canonical expression every operand stands at the
level of precedence that the grammar gives it; its marks are what its tokens have to be, in the
order in which they are written. -/

namespace Lox

/-- The level of what a token does behind an expression, from the loosest, which is 0. No token
does anything at level 8, that of the unary operators. -/
def TokenKind.grip? : TokenKind → Option Nat
  | equal => some 0
  | orWord => some 1
  | andWord => some 2
  | question => some 3
  | bangEqual | equalEqual => some 4
  | greater | greaterEqual | less | lessEqual => some 5
  | minus | plus => some 6
  | slash | star => some 7
  | leftParen => some 9
  | _ => none

namespace Expr

/-- The level of the rule that an expression takes. -/
def level : Expr → Nat
  | assign _ _ => 0
  | logical _ operator _ => operator.kind.grip?.getD 0
  | conditional _ _ _ _ => 3
  | binary _ operator _ => operator.kind.grip?.getD 0
  | unary _ _ => 8
  | call _ _ _ => 9
  | literal _ => 10
  | «variable» _ => 10
  | grouping _ => 10

/-- Whether a conditional stands on the right edge, among the right operands of logical operators
outside of parentheses. -/
def conditionalEdge : Expr → Bool
  | conditional _ _ _ _ => true
  | logical _ _ right => right.conditionalEdge
  | _ => false

/-- Every operand stands at its level. The else branch of a conditional goes on as far as it can, so
there is none on the right edge of what stands in front of a logical operator. -/
inductive Canonical : Expr → Prop
  | literal (value : Literal) : Canonical (.literal value)
  | variable {name : Token} (named : name.kind = .identifier) : Canonical (.variable name)
  | grouping {inner : Expr} (canonical : Canonical inner) : Canonical (.grouping inner)
  | call {callee : Expr} {paren : Token} {arguments : List Expr} (calls : Canonical callee)
      (tight : 9 ≤ callee.level) (closes : paren.kind = .rightParen)
      (few : arguments.length ≤ Grammar.maxItems)
      (given : ∀ argument ∈ arguments, Canonical argument) :
      Canonical (.call callee paren arguments)
  | unary {operator : Token} {operand : Expr} (operates : Grammar.isUnary operator.kind = true)
      (canonical : Canonical operand) (tight : 8 ≤ operand.level) :
      Canonical (.unary operator operand)
  | binary {left right : Expr} {operator : Token} {level : Nat}
      (operates : operator.kind.grip? = some level) (lowest : 4 ≤ level) (highest : level ≤ 7)
      (first : Canonical left) (leftTight : level ≤ left.level) (second : Canonical right)
      (rightTight : level < right.level) : Canonical (.binary left operator right)
  | conditional {condition thenBranch elseBranch : Expr} {question : Token}
      (asks : question.kind = .question) (decides : Canonical condition)
      (tight : 4 ≤ condition.level) (first : Canonical thenBranch)
      (second : Canonical elseBranch) :
      Canonical (.conditional condition question thenBranch elseBranch)
  | logical {left right : Expr} {operator : Token} {level : Nat}
      (operates : operator.kind.grip? = some level) (lowest : 1 ≤ level) (highest : level ≤ 2)
      (first : Canonical left) (leftTight : level ≤ left.level) (second : Canonical right)
      (rightTight : level < right.level) (edge : left.conditionalEdge = false) :
      Canonical (.logical left operator right)
  | assign {name : Token} {value : Expr} (named : name.kind = .identifier)
      (canonical : Canonical value) : Canonical (.assign name value)

mutual

/-- How many nesting levels are opened inside of the rule that reads the expression. -/
def levels : Expr → Nat
  | literal _ => 0
  | «variable» _ => 0
  | grouping inner => inner.levels + 1
  | assign _ value => value.levels + 1
  | unary _ operand => operand.levels + 1
  | binary left _ right => max left.levels right.levels
  | logical left _ right => max left.levels right.levels
  | conditional condition _ thenBranch elseBranch =>
    max condition.levels (max thenBranch.levels elseBranch.levels + 1)
  | call callee _ arguments => max callee.levels (Expr.levelsAll arguments)

def levelsAll : List Expr → Nat
  | [] => 0
  | first :: others => max (first.levels + 1) (Expr.levelsAll others)

end

end Expr

/-! ### Written expressions -/

/-- What a token has to be. -/
inductive Mark where
  | token (token : Token)
  | kind (kind : TokenKind)
  | literal (value : Literal)

/-- The word for a literal that is not written with characters of its own. -/
def Literal.word? : Literal → Option TokenKind
  | nil => some .nilWord
  | bool true => some .trueWord
  | bool false => some .falseWord
  | _ => none

def Token.Fits (token : Token) : Mark → Prop
  | .token other => token = other
  | .kind kind => token.kind = kind
  | .literal value =>
    Grammar.isLiteral token.kind = true ∧ token.literal = value ∨
      value.word? = some token.kind

namespace Mark

/-- A token that fits. -/
def written : Mark → Token
  | token exact => exact
  | kind wanted => ⟨wanted, "", .nil, 1⟩
  | literal (.number value) => ⟨.number, "", .number value, 1⟩
  | literal (.string value) => ⟨.string, "", .string value, 1⟩
  | literal value => ⟨value.word?.getD .nilWord, "", .nil, 1⟩

theorem written_fits (mark : Mark) : mark.written.Fits mark := by
  cases mark with
  | token exact => rfl
  | kind wanted => rfl
  | literal value =>
      cases value with
      | nil => exact Or.inr rfl
      | bool truth => cases truth <;> exact Or.inr rfl
      | number value => exact Or.inl ⟨rfl, rfl⟩
      | string value => exact Or.inl ⟨rfl, rfl⟩

end Mark

namespace Expr

mutual

def marks : Expr → List Mark
  | literal value => [.literal value]
  | «variable» name => [.token name]
  | grouping inner => .kind .leftParen :: (inner.marks ++ [.kind .rightParen])
  | assign name value => .token name :: .kind .equal :: value.marks
  | unary operator operand => .token operator :: operand.marks
  | binary left operator right => left.marks ++ .token operator :: right.marks
  | logical left operator right => left.marks ++ .token operator :: right.marks
  | conditional condition question thenBranch elseBranch =>
    condition.marks ++ .token question :: (thenBranch.marks ++ .kind .colon :: elseBranch.marks)
  | call callee paren arguments =>
    callee.marks ++ .kind .leftParen :: (Expr.marksAll arguments ++ [.token paren])

def marksAll : List Expr → List Mark
  | [] => []
  | [last] => last.marks
  | first :: second :: others =>
    first.marks ++ .kind .comma :: Expr.marksAll (second :: others)

end

/-- One way to write the expression. -/
def rendering (expression : Expr) : List Token :=
  expression.marks.map Mark.written

end Expr

/-- The tokens are one by one what they have to be. -/
def Spells (tokens : List Token) (marks : List Mark) : Prop :=
  List.Forall₂ Token.Fits tokens marks

theorem spells_nil {tokens : List Token} : Spells tokens [] ↔ tokens = [] :=
  List.forall₂_nil_right_iff

theorem spells_cons {tokens : List Token} {mark : Mark} {marks : List Mark} :
    Spells tokens (mark :: marks) ↔
      ∃ token rest, tokens = token :: rest ∧ token.Fits mark ∧ Spells rest marks := by
  unfold Spells
  rw [List.forall₂_cons_right_iff]
  constructor
  · intro holds
    rcases holds with ⟨token, rest, fits, spells, same⟩
    exact ⟨token, rest, same, fits, spells⟩
  · intro whole
    rcases whole with ⟨token, rest, same, fits, spells⟩
    exact ⟨token, rest, fits, spells, same⟩

theorem spells_singleton {tokens : List Token} {mark : Mark} :
    Spells tokens [mark] ↔ ∃ token, tokens = [token] ∧ token.Fits mark := by
  rw [spells_cons]
  constructor
  · intro holds
    rcases holds with ⟨token, rest, rfl, fits, spells⟩
    rw [spells_nil.mp spells]
    exact ⟨token, rfl, fits⟩
  · intro whole
    rcases whole with ⟨token, rfl, fits⟩
    exact ⟨token, [], rfl, fits, spells_nil.mpr rfl⟩

theorem spells_append {tokens : List Token} {first second : List Mark} :
    Spells tokens (first ++ second) ↔
      ∃ front back, tokens = front ++ back ∧ Spells front first ∧ Spells back second := by
  constructor
  · intro spells
    exact ⟨_, _, (List.take_append_drop first.length tokens).symm,
      List.forall₂_take_append tokens first second spells,
      List.forall₂_drop_append tokens first second spells⟩
  · intro holds
    rcases holds with ⟨front, back, rfl, spells, others⟩
    exact List.rel_append spells others

theorem starts_append {wanted : TokenKind → Bool} {first second : List Mark}
    (starts : ∀ tokens, Spells tokens first → begins wanted tokens = true) {tokens : List Token}
    (spells : Spells tokens (first ++ second)) : begins wanted tokens = true := by
  obtain ⟨front, back, rfl, spellsFront, _spellsBack⟩ := spells_append.mp spells
  have starting := starts front spellsFront
  cases front with
  | nil => cases starting
  | cons token front => exact starting

theorem spells_written (marks : List Mark) : Spells (marks.map Mark.written) marks := by
  induction marks with
  | nil => exact .nil
  | cons mark marks ih => exact .cons mark.written_fits ih

/-- What an expression starts with that is no unary one. -/
def startsPrimary (kind : TokenKind) : Bool :=
  kind == .falseWord || kind == .trueWord || kind == .nilWord || Grammar.isLiteral kind
    || kind == .identifier || kind == .leftParen

def startsExpression (kind : TokenKind) : Bool :=
  startsPrimary kind || Grammar.isUnary kind

theorem startsExpression_of_primary {kind : TokenKind} (starts : startsPrimary kind = true) :
    startsExpression kind = true := by
  rw [startsExpression, starts, Bool.true_or]

theorem Literal.starts {value : Literal} {token : Token} (fits : token.Fits (.literal value)) :
    startsPrimary token.kind = true := by
  rcases fits with ⟨isLiteral, _same⟩ | word
  · simp [startsPrimary, isLiteral]
  · cases value with
    | nil =>
        rw [← Option.some.inj word]
        rfl
    | bool truth => cases truth <;> simp [← Option.some.inj word, startsPrimary]
    | number | string => cases word

namespace Expr

theorem Canonical.starts_primary {expression : Expr} (canonical : expression.Canonical) :
    9 ≤ expression.level → ∀ tokens, Spells tokens expression.marks →
      begins startsPrimary tokens = true := by
  induction canonical with
  | literal value =>
      intro _tight tokens spells
      rw [marks] at spells
      obtain ⟨token, rfl, fits⟩ := spells_singleton.mp spells
      exact Literal.starts fits
  | «variable» named =>
      intro _tight tokens spells
      rw [marks] at spells
      obtain ⟨token, rfl, rfl⟩ := spells_singleton.mp spells
      simp [startsPrimary, named]
  | grouping =>
      intro _tight tokens spells
      rw [marks] at spells
      obtain ⟨token, back, rfl, opens, _others⟩ := spells_cons.mp spells
      have isOpen : token.kind = .leftParen := opens
      simp [startsPrimary, isOpen]
  | call _ calleeTight _ _ _ ih =>
      intro _tight tokens spells
      rw [marks] at spells
      exact starts_append (ih calleeTight) spells
  | binary operates | logical operates =>
      intro tight
      rw [level, operates, Option.getD_some] at tight
      omega
  | unary | conditional | assign =>
      intro tight
      rw [level] at tight
      omega

theorem Canonical.starts {expression : Expr} (canonical : expression.Canonical) :
    ∀ tokens, Spells tokens expression.marks → begins startsExpression tokens = true := by
  induction canonical with
  | literal value =>
      intro tokens spells
      rw [marks] at spells
      obtain ⟨token, rfl, fits⟩ := spells_singleton.mp spells
      exact startsExpression_of_primary (Literal.starts fits)
  | «variable» named =>
      intro tokens spells
      rw [marks] at spells
      obtain ⟨token, rfl, rfl⟩ := spells_singleton.mp spells
      simp [startsExpression, startsPrimary, named]
  | assign named =>
      intro tokens spells
      rw [marks] at spells
      obtain ⟨token, back, rfl, rfl, _others⟩ := spells_cons.mp spells
      simp [startsExpression, startsPrimary, named]
  | grouping =>
      intro tokens spells
      rw [marks] at spells
      obtain ⟨token, back, rfl, opens, _others⟩ := spells_cons.mp spells
      have isOpen : token.kind = .leftParen := opens
      simp [startsExpression, startsPrimary, isOpen]
  | unary operates =>
      intro tokens spells
      rw [marks] at spells
      obtain ⟨token, back, rfl, rfl, _others⟩ := spells_cons.mp spells
      simp [startsExpression, operates]
  | call _ _ _ _ _ ih | binary _ _ _ _ _ _ _ ih | conditional _ _ _ _ _ ih
  | logical _ _ _ _ _ _ _ _ ih =>
      intro tokens spells
      rw [marks] at spells
      exact starts_append ih spells

end Expr

/-! ### Lists in parentheses -/

theorem begins_ne {wanted : TokenKind → Bool} {kind : TokenKind} {tokens : List Token}
    (apart : wanted kind = false) (starts : begins wanted tokens = true) :
    begins (· != kind) tokens = true := by
  cases tokens with
  | nil => cases starts
  | cons token tokens =>
      apply bne_iff_ne.mpr
      intro same
      rw [begins_cons, same, apart] at starts
      cases starts

theorem begins_append_of_ne {kind : TokenKind} {used : List Token} (rest : List Token)
    (other : begins (· != kind) used = true) : begins (· == kind) (used ++ rest) = false := by
  cases used with
  | nil => cases other
  | cons token used => simpa using other

/-- Items with commas between them. -/
def divided : List (List Mark) → List Mark
  | [] => []
  | [last] => last
  | first :: second :: others => first ++ .kind .comma :: divided (second :: others)

theorem Expr.marksAll_eq (items : List Expr) :
    Expr.marksAll items = divided (items.map Expr.marks) := by
  induction items with
  | nil => simp [marksAll, divided]
  | cons first items ih =>
      cases items with
      | nil => simp [marksAll, divided]
      | cons second items => simp [marksAll, divided, ih]

theorem Expr.levelsAll_le_iff {items : List Expr} {room : Nat} :
    Expr.levelsAll items ≤ room ↔ ∀ item ∈ items, item.levels < room := by
  induction items with
  | nil => simp [levelsAll]
  | cons first items ih =>
      rw [levelsAll, Nat.max_le, ih, List.forall_mem_cons, Nat.succ_le_iff]

def endsItem (kind : TokenKind) : Bool :=
  kind == .comma || kind == .rightParen

section

variable {α : Type} {phrase : Phrase α} {good : α → Prop} {marks : α → List Mark}

theorem separated_iff
    (exact : ∀ value used rest, begins endsItem rest = true →
      (phrase value used rest ↔ good value ∧ Spells used (marks value)))
    {closing : Token} (closes : closing.kind = .rightParen) (items : List α)
    (used rest : List Token) :
    Phrase.Separated phrase items used (closing :: rest) ↔
      items ≠ [] ∧ (∀ item ∈ items, good item) ∧ Spells used (divided (items.map marks)) := by
  have last : begins endsItem (closing :: rest) = true := by simp [endsItem, closes]
  have comma_ends : ∀ comma : Token, ∀ tokens, comma.kind = .comma →
      begins endsItem (comma :: tokens) = true := by
    intro comma tokens divides
    simp [endsItem, divides]
  constructor
  · intro separated
    generalize behind : closing :: rest = remaining at separated
    induction separated with
    | @last item used remaining only ends =>
        rw [← behind] at only
        obtain ⟨fine, spells⟩ := (exact item used _ last).mp only
        simp [divided, fine, spells]
    | @more item items comma front back remaining first divides others ih =>
        obtain ⟨some, fine, spells⟩ := ih behind
        obtain ⟨fineFirst, spellsFirst⟩ :=
          (exact item front _ (comma_ends comma _ divides)).mp first
        refine ⟨List.cons_ne_nil _ _, List.forall_mem_cons.mpr ⟨fineFirst, fine⟩, ?_⟩
        cases items with
        | nil => exact absurd rfl some
        | cons second items =>
            exact spells_append.mpr ⟨front, comma :: back, rfl, spellsFirst,
              spells_cons.mpr ⟨comma, back, rfl, divides, spells⟩⟩
  · intro whole
    obtain ⟨some, fine, spells⟩ := whole
    induction items generalizing used with
    | nil => exact absurd rfl some
    | cons item items ih =>
        obtain ⟨fineFirst, fineOthers⟩ := List.forall_mem_cons.mp fine
        cases items with
        | nil =>
            refine .last ((exact item used _ last).mpr ⟨fineFirst, spells⟩) ?_
            simp [closes]
        | cons second items =>
            obtain ⟨front, behind, rfl, spellsFirst, spellsOthers⟩ := spells_append.mp spells
            obtain ⟨comma, back, rfl, isComma, spellsBack⟩ := spells_cons.mp spellsOthers
            have first := (exact item front (comma :: (back ++ closing :: rest))
              (comma_ends comma _ isComma)).mpr ⟨fineFirst, spellsFirst⟩
            exact .more first isComma
              (ih back (List.cons_ne_nil second items) fineOthers spellsBack)

/-- No items where the closing parenthesis is next, or some, but not too many. -/
def Phrase.listed (item : Phrase α) : Phrase (List α) :=
  .ahead (· == .rightParen) (fun items used _ => items = [] ∧ used = []) fun items used rest =>
    items.length ≤ Grammar.maxItems ∧ Phrase.Separated item items used rest

theorem listed_iff
    (exact : ∀ value used rest, begins endsItem rest = true →
      (phrase value used rest ↔ good value ∧ Spells used (marks value)))
    (starts : ∀ value tokens, good value → Spells tokens (marks value) →
      begins (· != .rightParen) tokens = true)
    {closing : Token} (closes : closing.kind = .rightParen) (items : List α)
    (used rest : List Token) :
    phrase.listed items used (closing :: rest) ↔
      items.length ≤ Grammar.maxItems ∧ (∀ item ∈ items, good item) ∧
        Spells used (divided (items.map marks)) := by
  have separated := separated_iff exact closes items used rest
  constructor
  · intro listed
    rcases listed with ⟨_next, rfl, rfl⟩ | ⟨_left, few, some⟩
    · simp [divided, spells_nil]
    · exact ⟨few, (separated.mp some).2⟩
  · intro whole
    obtain ⟨few, fine, spells⟩ := whole
    cases items with
    | nil =>
        rw [spells_nil.mp spells]
        exact Or.inl ⟨beq_iff_eq.mpr closes, rfl, rfl⟩
    | cons item items =>
        have some := separated.mpr ⟨List.cons_ne_nil item items, fine, spells⟩
        obtain ⟨fineFirst, _fineOthers⟩ := List.forall_mem_cons.mp fine
        have starting : begins (· != .rightParen) used = true := by
          cases items with
          | nil => exact starts item used fineFirst spells
          | cons second items =>
              exact starts_append (fun tokens => starts item tokens fineFirst) spells
        exact Or.inr ⟨begins_append_of_ne _ starting, few, some⟩

end

/-! ### The end of input -/

/-- No token that fits is the end of input. -/
def Mark.Visible : Mark → Prop
  | token exact => exact.kind ≠ .endOfInput
  | kind wanted => wanted ≠ .endOfInput
  | literal _ => True

theorem Token.Fits.visible {token : Token} {mark : Mark} (fits : token.Fits mark)
    (visible : mark.Visible) : token.kind ≠ .endOfInput := by
  cases mark with
  | token exact =>
      cases fits
      exact visible
  | kind wanted =>
      cases fits
      exact visible
  | literal value =>
      have starts := Literal.starts fits
      intro ends
      rw [ends] at starts
      cases starts

theorem Spells.visible {tokens : List Token} {marks : List Mark} (spells : Spells tokens marks)
    (visible : ∀ mark ∈ marks, mark.Visible) : ∀ token ∈ tokens, token.kind ≠ .endOfInput := by
  induction spells with
  | nil => exact fun token member => nomatch member
  | cons fits _others ih =>
      intro token member
      rcases List.mem_cons.mp member with rfl | member
      · exact fits.visible (visible _ List.mem_cons_self)
      · exact ih (fun mark inside => visible mark (List.mem_cons_of_mem _ inside)) token member

namespace Expr

theorem visible_all {items : List Expr}
    (visible : ∀ item ∈ items, ∀ mark ∈ item.marks, mark.Visible) :
    ∀ mark ∈ marksAll items, mark.Visible := by
  induction items with
  | nil =>
      rw [marksAll]
      exact fun mark member => nomatch member
  | cons first items ih =>
      have here := visible first List.mem_cons_self
      have others := ih fun item member => visible item (List.mem_cons_of_mem _ member)
      cases items with
      | nil =>
          rw [marksAll]
          exact here
      | cons second items =>
          rw [marksAll]
          simp only [List.mem_append, List.mem_cons]
          intro mark member
          rcases member with member | rfl | member
          · exact here mark member
          · exact TokenKind.noConfusion
          · exact others mark member

theorem Canonical.visible {expression : Expr} (canonical : expression.Canonical) :
    ∀ mark ∈ expression.marks, mark.Visible := by
  have operator_visible : ∀ {operator : Token} {level : Nat},
      operator.kind.grip? = some level → (Mark.token operator).Visible := by
    intro operator level operates ends
    rw [ends] at operates
    cases operates
  induction canonical with
  | literal value => simp [marks, Mark.Visible]
  | «variable» named => simp [marks, Mark.Visible, named]
  | grouping _ ih => simpa [marks, Mark.Visible, or_imp, forall_and] using ih
  | assign named _ ih => simpa [marks, Mark.Visible, or_imp, forall_and, named] using ih
  | @unary operator operand operates _ _ ih =>
      have visible : operator.kind ≠ .endOfInput := by
        intro ends
        rw [ends] at operates
        cases operates
      simpa [marks, Mark.Visible, or_imp, forall_and, visible] using ih
  | call _ _ closes _ _ ih others =>
      have arguments := visible_all others
      simpa [marks, Mark.Visible, or_imp, forall_and, closes] using ⟨ih, arguments⟩
  | conditional asks _ _ _ _ ih first second =>
      simpa [marks, Mark.Visible, or_imp, forall_and, asks] using ⟨ih, first, second⟩
  | binary operates _ _ _ _ _ _ ih second | logical operates _ _ _ _ _ _ _ ih second =>
      have visible := operator_visible operates
      simpa [marks, or_imp, forall_and] using ⟨ih, visible, second⟩

end Expr

/-! ### Edges -/

namespace Expr

theorem Canonical.level_le {expression : Expr} (canonical : expression.Canonical)
    (edge : expression.conditionalEdge = true) : expression.level ≤ 3 := by
  cases canonical with
  | conditional => exact Nat.le_refl 3
  | @logical left right operator own operates lowest highest =>
      rw [level, operates]
      exact Nat.le_succ_of_le highest
  | literal | «variable» | grouping | call | unary | binary | assign => cases edge

end Expr

/-- What the next token does behind an expression. -/
def nextGrip? (rest : List Token) : Option Nat :=
  rest.head?.bind (·.kind.grip?)

/-- Read by a rule of some level, the expression ends here: the next token does nothing that the
rule, or the whole expression on the right edge, would still take in. -/
def Expr.Ends (level : Nat) (expression : Expr) (rest : List Token) : Prop :=
  ∀ grip, nextGrip? rest = some grip → grip < if expression.conditionalEdge then 0 else level

namespace Expr

variable {expression : Expr} {level : Nat} {rest : List Token}

theorem ends_of_none (free : nextGrip? rest = none) : Ends level expression rest := by
  intro grip next
  rw [free] at next
  cases next

/-- A looser rule takes in what the tighter one does, and what stands at its own level. -/
theorem ends_iff_succ :
    Ends level expression rest ↔
      Ends (level + 1) expression rest ∧ nextGrip? rest ≠ some level := by
  unfold Ends
  cases expression.conditionalEdge with
  | true =>
      constructor
      · intro ends
        exact ⟨ends, fun next => absurd (ends level next) (Nat.not_lt_zero level)⟩
      · exact fun ends => ends.1
  | false =>
      constructor
      · intro ends
        refine ⟨fun grip next => Nat.lt_succ_of_lt (ends grip next), ?_⟩
        exact fun next => Nat.lt_irrefl level (ends level next)
      · intro holds grip next
        rcases holds with ⟨ends, other⟩
        have bounded : grip < level + 1 := ends grip next
        have different : grip ≠ level := fun same => other (same ▸ next)
        exact Nat.lt_of_le_of_ne (Nat.le_of_lt_succ bounded) different

/-- Nothing of its own level or a tighter one follows on an expression without a conditional edge. -/
theorem edge_of_ends (grip : Nat) (ends : Ends level expression rest)
    (next : nextGrip? rest = some grip) : expression.conditionalEdge = false := by
  have bounded := ends grip next
  cases edge : expression.conditionalEdge with
  | false => rfl
  | true =>
      rw [edge] at bounded
      exact absurd bounded (Nat.not_lt_zero grip)

theorem ends_of_lt (grip : Nat) (edge : expression.conditionalEdge = false)
    (next : nextGrip? rest = some grip) (loose : grip < level) : Ends level expression rest := by
  intro other same
  rw [edge]
  rw [next] at same
  cases same
  exact loose

theorem ends_congr {other : Expr} (same : expression.conditionalEdge = other.conditionalEdge) :
    Ends level expression rest ↔ Ends level other rest := by
  unfold Ends
  rw [same]

end Expr

end Lox
