import Lox.Proofs.Grammar.Canonical
set_option autoImplicit false

/-! The rules of expressions read the canonical expressions of their levels. Each rule is taken apart
by what its parts read, and the phrase that comes out is shown to be that of the next looser level.
The rules nest, so the proof for all of them is one induction on the levels left. -/

namespace Lox

open Lox.Parser

namespace Expr

/-- A canonical expression of some level at least, spelled by its tokens and ended by those behind;
it ends with respect to a level that may be another one. -/
structure Stands (level bound room : Nat) (expression : Expr) (used rest : List Token) : Prop where
  canonical : expression.Canonical
  tight : level ≤ expression.level
  shallow : expression.levels < room
  spells : Spells used expression.marks
  ends : Ends bound expression rest

theorem Stands.loosen {level looser bound room : Nat} {expression : Expr} {used rest : List Token}
    (stands : Stands level bound room expression used rest) (loose : looser ≤ level) :
    Stands looser bound room expression used rest :=
  ⟨stands.canonical, Nat.le_trans loose stands.tight, stands.shallow, stands.spells, stands.ends⟩

end Expr

/-- What the rules one level deeper read. -/
structure InnerExpr.Good (inner : InnerExpr) (nesting room : Nat) : Prop where
  expression : ∀ functions, Reads inner.expression nesting functions (Expr.Stands 0 0 room)
  operand : ∀ functions, Reads inner.operand nesting functions (Expr.Stands 8 8 room)

/-! ### Chains -/

/-- How an expression of a level is made by something behind another one. -/
structure Chains (level room : Nat) (wanted : TokenKind → Bool)
    (added : Expr → Token → Phrase Expr) : Prop where
  grips : ∀ kind, wanted kind = true ↔ kind.grip? = some level
  sound : ∀ left token expression front back rest, wanted token.kind = true →
    added left token expression back rest →
    Expr.Stands level (level + 1) room left front (token :: (back ++ rest)) →
    Expr.Stands level (level + 1) room expression (front ++ token :: back) rest
  complete : ∀ expression used rest, Expr.Stands level (level + 1) room expression used rest →
    expression.level = level →
    ∃ left token front back, used = front ++ token :: back ∧ wanted token.kind = true ∧
      added left token expression back rest ∧
      Expr.Stands level (level + 1) room left front (token :: (back ++ rest))

def chainStep (wanted : TokenKind → Bool) (added : Expr → Token → Phrase Expr) (left : Expr) :
    Phrase (Option Expr) :=
  .either wanted
    (fun token given used rest =>
      ∃ expression, added left token expression used rest ∧ given = some expression)
    fun given used _ => given = none ∧ used = []

theorem begins_false_iff {level : Nat} {wanted : TokenKind → Bool}
    (grips : ∀ kind, wanted kind = true ↔ kind.grip? = some level) (rest : List Token) :
    begins wanted rest = false ↔ nextGrip? rest ≠ some level := by
  rw [← Bool.not_eq_true]
  apply not_congr
  cases rest with
  | nil =>
      constructor
      · exact fun impossible => nomatch impossible
      · exact fun impossible => nomatch impossible
  | cons token rest => exact grips token.kind

namespace Chains

variable {level room : Nat} {wanted : TokenKind → Bool}
variable {added : Expr → Token → Phrase Expr}

theorem stands_of_rounds (chains : Chains level room wanted added) {first last : Expr}
    {back rest : List Token} (rounds : Phrase.Rounds (chainStep wanted added) first last back rest) :
    ∀ front, Expr.Stands level (level + 1) room first front (back ++ rest) →
      Expr.Stands level level room last (front ++ back) rest := by
  induction rounds with
  | @stop last rest stopped =>
      intro front stands
      rcases stopped with ⟨_token, _back, split, _wanted, _added⟩ | ⟨ended, _none⟩
      · cases split
      · rw [List.append_nil]
        have apart := (begins_false_iff chains.grips rest).mp ended
        exact ⟨stands.canonical, stands.tight, stands.shallow, stands.spells,
          Expr.ends_iff_succ.mpr ⟨stands.ends, apart⟩⟩
  | @more first middle last taken back rest stepped others ih =>
      intro front stands
      rcases stepped with ⟨token, own, rfl, isWanted, expression, holds, same⟩ | ⟨_ended, same, _none⟩
      · cases same
        have here : Expr.Stands level (level + 1) room first front
            (token :: (own ++ (back ++ rest))) := by
          rw [List.append_assoc] at stands
          exact stands
        have whole := ih (front ++ token :: own)
          (chains.sound first token middle front own (back ++ rest) isWanted holds here)
        rw [List.append_assoc] at whole
        exact whole
      · cases same

/-- The induction is on the tokens of the expression: what stands in front of its last operator has
fewer. -/
theorem rounds_of_stands (chains : Chains level room wanted added) (length : Nat) :
    ∀ expression last used back rest, used.length < length →
      Expr.Stands level (level + 1) room expression used (back ++ rest) →
      Phrase.Rounds (chainStep wanted added) expression last back rest →
      ∃ first front behind, used ++ back = front ++ behind ∧
        Expr.Stands (level + 1) (level + 1) room first front (behind ++ rest) ∧
        Phrase.Rounds (chainStep wanted added) first last behind rest := by
  induction length with
  | zero => exact fun _ _ used _ _ short => absurd short (Nat.not_lt_zero _)
  | succ length ih =>
      intro expression last used back rest short stands rounds
      by_cases own : expression.level = level
      · obtain ⟨left, token, front, behind, rfl, isWanted, holds, standsLeft⟩ :=
          chains.complete expression used (back ++ rest) stands own
        have shorter : front.length < length := by
          rw [List.length_append, List.length_cons] at short
          omega
        have whole : Phrase.Rounds (chainStep wanted added) left last (token :: behind ++ back)
            rest := .more (Or.inl ⟨token, behind, rfl, isWanted, expression, holds, rfl⟩) rounds
        have standsHere : Expr.Stands level (level + 1) room left front
            (token :: behind ++ back ++ rest) := by
          rw [List.append_assoc]
          exact standsLeft
        obtain ⟨first, begin, others, same, standsFirst, all⟩ :=
          ih left last front (token :: behind ++ back) rest shorter standsHere whole
        rw [List.append_assoc]
        exact ⟨first, begin, others, same, standsFirst, all⟩
      · have tighter : level + 1 ≤ expression.level :=
          Nat.lt_of_le_of_ne stands.tight (Ne.symm own)
        exact ⟨expression, used, back, rfl,
          ⟨stands.canonical, tighter, stands.shallow, stands.spells, stands.ends⟩, rounds⟩

theorem phrase_iff (chains : Chains level room wanted added) (expression : Expr)
    (used rest : List Token) :
    Phrase.andThen (Expr.Stands (level + 1) (level + 1) room)
        (Phrase.Rounds (chainStep wanted added)) expression used rest ↔
      Expr.Stands level level room expression used rest := by
  constructor
  · intro holds
    rcases holds with ⟨first, front, back, rfl, stands, rounds⟩
    exact chains.stands_of_rounds rounds front (stands.loosen (Nat.le_succ level))
  · intro stands
    obtain ⟨ends, apart⟩ := Expr.ends_iff_succ.mp stands.ends
    have ended := (begins_false_iff chains.grips rest).mpr apart
    have here : Expr.Stands level (level + 1) room expression used ([] ++ rest) :=
      ⟨stands.canonical, stands.tight, stands.shallow, stands.spells, ends⟩
    obtain ⟨first, front, behind, same, standsFirst, rounds⟩ :=
      chains.rounds_of_stands (used.length + 1) expression expression used [] rest
        (Nat.lt_succ_self _) here (.stop (Or.inr ⟨ended, rfl, rfl⟩))
    rw [List.append_nil] at same
    exact ⟨first, front, behind, same, standsFirst, rounds⟩

variable {nesting functions : Nat}

theorem reads (chains : Chains level room wanted added) {operand : Parser Expr}
    {step : Expr → Parser (Option Expr)}
    (first : Reads operand nesting functions (Expr.Stands (level + 1) (level + 1) room))
    (others : ∀ left, Reads (step left) nesting functions (chainStep wanted added left)) :
    Reads (do repeating step (← operand)) nesting functions (Expr.Stands level level room) := by
  have rounds := repeating_reads others
    (fun _left => Or.inr ⟨rfl, rfl, rfl⟩)
    (fun left used rest => by
      intro holds
      rcases holds with ⟨token, back, rfl, _isWanted, expression, _holds, same⟩ |
        ⟨_ended, _same, none⟩
      · cases same
      · exact none)
    (fun left middle used rest => by
      intro whole
      rcases whole with ⟨token, back, rfl, _isWanted, _holds⟩ | ⟨_ended, same, _none⟩
      · exact List.cons_ne_nil _ _
      · cases same)
  exact (first.bind rounds).congr chains.phrase_iff

end Chains

/-! ### Operators between two operands -/

/-- A kind of node that stands at a level between a left operand of that level and a right one of a
tighter level. -/
structure Joins (level : Nat) (node : Expr → Token → Expr → Expr) : Prop where
  canonical : ∀ left operator right, operator.kind.grip? = some level →
    ((node left operator right).Canonical ↔
      left.Canonical ∧ level ≤ left.level ∧ left.conditionalEdge = false ∧
        right.Canonical ∧ level < right.level)
  level_eq : ∀ left operator right, operator.kind.grip? = some level →
    (node left operator right).level = level
  levels_eq : ∀ left operator right,
    (node left operator right).levels = max left.levels right.levels
  marks_eq : ∀ left operator right,
    (node left operator right).marks = left.marks ++ .token operator :: right.marks
  edge_eq : ∀ left operator right, operator.kind.grip? = some level → right.Canonical →
    level < right.level →
    (node left operator right).conditionalEdge = right.conditionalEdge
  shape : ∀ expression : Expr, expression.Canonical → expression.level = level →
    ∃ left operator right, expression = node left operator right ∧
      operator.kind.grip? = some level

theorem Expr.Canonical.edge_eq_false {expression : Expr} (canonical : expression.Canonical)
    (tight : 3 < expression.level) : expression.conditionalEdge = false := by
  cases edge : expression.conditionalEdge with
  | false => rfl
  | true => exact absurd (canonical.level_le edge) (Nat.not_le_of_lt tight)

theorem joins_binary {level : Nat} (lowest : 4 ≤ level) (highest : level ≤ 7) :
    Joins level Expr.binary where
  canonical := by
    intro left operator right operates
    constructor
    · intro canonical
      cases canonical with
      | @binary _ _ _ own operatesOwn _ _ first leftTight second rightTight =>
          rw [operates] at operatesOwn
          cases operatesOwn
          have tight : 3 < left.level := Nat.le_trans lowest leftTight
          exact ⟨first, leftTight, first.edge_eq_false tight, second, rightTight⟩
    · intro holds
      rcases holds with ⟨first, leftTight, _edge, second, rightTight⟩
      exact .binary operates lowest highest first leftTight second rightTight
  level_eq := by
    intro left operator right operates
    rw [Expr.level, operates]
    rfl
  levels_eq := fun left operator right => by rw [Expr.levels]
  marks_eq := fun left operator right => by rw [Expr.marks]
  edge_eq := by
    intro left operator right operates second rightTight
    have tight : 3 < right.level := Nat.lt_trans lowest rightTight
    exact (second.edge_eq_false tight).symm
  shape := by
    intro expression canonical own
    cases canonical with
    | @binary left right operator found operates _ _ =>
        rw [Expr.level, operates] at own
        exact ⟨left, operator, right, rfl, operates.trans (congrArg some own)⟩
    | @logical left right operator found operates _ lowFound =>
        rw [Expr.level, operates, Option.getD_some] at own
        omega
    | literal | «variable» | grouping | call | unary | conditional | assign =>
        rw [Expr.level] at own
        omega

theorem joins_logical {level : Nat} (lowest : 1 ≤ level) (highest : level ≤ 2) :
    Joins level Expr.logical where
  canonical := by
    intro left operator right operates
    constructor
    · intro canonical
      cases canonical with
      | @logical _ _ _ own operatesOwn _ _ first leftTight second rightTight edge =>
          rw [operates] at operatesOwn
          cases operatesOwn
          exact ⟨first, leftTight, edge, second, rightTight⟩
    · intro holds
      rcases holds with ⟨first, leftTight, edge, second, rightTight⟩
      exact .logical operates lowest highest first leftTight second rightTight edge
  level_eq := by
    intro left operator right operates
    rw [Expr.level, operates]
    rfl
  levels_eq := fun left operator right => by rw [Expr.levels]
  marks_eq := fun left operator right => by rw [Expr.marks]
  edge_eq := fun left operator right _operates _second _rightTight => by rw [Expr.conditionalEdge]
  shape := by
    intro expression canonical own
    cases canonical with
    | @logical left right operator found operates _ _ =>
        rw [Expr.level, operates] at own
        exact ⟨left, operator, right, rfl, operates.trans (congrArg some own)⟩
    | @binary left right operator found operates lowFound _ =>
        rw [Expr.level, operates, Option.getD_some] at own
        omega
    | literal | «variable» | grouping | call | unary | conditional | assign =>
        rw [Expr.level] at own
        omega

def joined (level room : Nat) (node : Expr → Token → Expr → Expr) (left : Expr) (operator : Token) :
    Phrase Expr := fun expression used rest =>
  ∃ right, Expr.Stands (level + 1) (level + 1) room right used rest ∧
    expression = node left operator right

theorem Joins.chains {level : Nat} {node : Expr → Token → Expr → Expr} (joins : Joins level node)
    {wanted : TokenKind → Bool}
    (grips : ∀ kind, wanted kind = true ↔ kind.grip? = some level) (room : Nat) :
    Chains level room wanted (joined level room node) where
  grips
  sound := by
    intro left operator expression front back rest isWanted holds standsLeft
    rcases holds with ⟨right, standsRight, rfl⟩
    have operates := (grips operator.kind).mp isWanted
    have edge := Expr.edge_of_ends level standsLeft.ends operates
    have tight : level < right.level := standsRight.tight
    refine ⟨?_, Nat.le_of_eq (joins.level_eq left operator right operates).symm, ?_, ?_, ?_⟩
    · exact (joins.canonical left operator right operates).mpr
        ⟨standsLeft.canonical, standsLeft.tight, edge, standsRight.canonical, tight⟩
    · rw [joins.levels_eq]
      exact Nat.max_lt.mpr ⟨standsLeft.shallow, standsRight.shallow⟩
    · rw [joins.marks_eq, spells_append]
      exact ⟨front, operator :: back, rfl, standsLeft.spells,
        spells_cons.mpr ⟨operator, back, rfl, rfl, standsRight.spells⟩⟩
    · have same := joins.edge_eq left operator right operates standsRight.canonical tight
      exact (Expr.ends_congr same).mpr standsRight.ends
  complete := by
    intro expression used rest stands own
    obtain ⟨left, operator, right, rfl, operates⟩ := joins.shape expression stands.canonical own
    obtain ⟨first, leftTight, edge, second, rightTight⟩ :=
      (joins.canonical left operator right operates).mp stands.canonical
    have shallow := stands.shallow
    rw [joins.levels_eq] at shallow
    obtain ⟨leftShallow, rightShallow⟩ := Nat.max_lt.mp shallow
    have spells := stands.spells
    rw [joins.marks_eq] at spells
    obtain ⟨front, others, rfl, spellsLeft, spellsOthers⟩ := spells_append.mp spells
    obtain ⟨token, back, rfl, rfl, spellsRight⟩ := spells_cons.mp spellsOthers
    refine ⟨left, token, front, back, rfl, (grips _).mpr operates, ⟨right, ?_, rfl⟩, ?_⟩
    · refine ⟨second, rightTight, rightShallow, spellsRight, ?_⟩
      have same := joins.edge_eq left token right operates second rightTight
      exact (Expr.ends_congr same).mp stands.ends
    · exact ⟨first, leftTight, leftShallow, spellsLeft,
        Expr.ends_of_lt level edge operates (Nat.lt_succ_self level)⟩

section

variable {nesting functions room : Nat}

theorem leftChain_reads {level : Nat} {node : Expr → Token → Expr → Expr}
    (joins : Joins level node) {wanted : TokenKind → Bool}
    (grips : ∀ kind, wanted kind = true ↔ kind.grip? = some level) {operand : Parser Expr}
    (reads : Reads operand nesting functions (Expr.Stands (level + 1) (level + 1) room)) :
    Reads (Grammar.leftChain operand wanted node) nesting functions
      (Expr.Stands level level room) := by
  apply (joins.chains grips room).reads reads
  intro left
  apply accept_bind_reads
  · intro operator
    apply (map_reads (fun right => some (node left operator right)) reads).congr
    intro given used rest
    constructor
    · intro holds
      rcases holds with ⟨right, stands, rfl⟩
      exact ⟨_, ⟨right, stands, rfl⟩, rfl⟩
    · intro whole
      rcases whole with ⟨_expression, ⟨right, stands, rfl⟩, rfl⟩
      exact ⟨right, stands, rfl⟩
  · exact pure_reads none

/-! ### Primaries and calls -/

theorem TokenKind.grip?_lt {kind : TokenKind} {grip : Nat} (grips : kind.grip? = some grip) :
    grip < 10 := by
  cases kind <;> cases grips <;> decide

theorem Expr.ends_primary {expression : Expr} (edge : expression.conditionalEdge = false)
    (rest : List Token) : Expr.Ends 10 expression rest := by
  intro grip next
  rw [edge]
  obtain ⟨token, _first, grips⟩ := Option.bind_eq_some_iff.mp next
  exact TokenKind.grip?_lt grips

theorem literal_kind {kind : TokenKind} (isLiteral : Grammar.isLiteral kind = true) :
    kind = .number ∨ kind = .string := by
  unfold Grammar.isLiteral at isLiteral
  rw [Bool.or_eq_true, beq_iff_eq, beq_iff_eq] at isLiteral
  exact isLiteral

/-- What the rule for primaries reads, as it is written. -/
def primaryPhrase (room : Nat) : Phrase Expr :=
  .either (· == .falseWord) (fun _ value used _ => value = .literal (.bool false) ∧ used = []) <|
  .either (· == .trueWord) (fun _ value used _ => value = .literal (.bool true) ∧ used = []) <|
  .either (· == .nilWord) (fun _ value used _ => value = .literal .nil ∧ used = []) <|
  .either Grammar.isLiteral (fun token value used _ => value = .literal token.literal ∧ used = []) <|
  .either (· == .identifier) (fun token value used _ => value = .variable token ∧ used = []) <|
  .either (· == .leftParen)
    (fun _ => .andThen (Expr.Stands 0 0 room) fun inner =>
      .sign (· == .rightParen) fun _ value used _ => value = .grouping inner ∧ used = [])
    fun _ _ _ => False

theorem Expr.stands_of_atom {room : Nat} {token : Token} {expression : Expr} {rest : List Token}
    (canonical : expression.Canonical) (primary : expression.level = 10)
    (flat : expression.levels = 0) (spells : Spells [token] expression.marks) :
    Expr.Stands 10 10 (room + 1) expression [token] rest := by
  have edge := canonical.edge_eq_false (by rw [primary]; decide)
  refine ⟨canonical, Nat.le_of_eq primary.symm, ?_, spells, Expr.ends_primary edge rest⟩
  rw [flat]
  exact Nat.succ_pos room

theorem primaryPhrase_iff (room : Nat) (expression : Expr) (used rest : List Token) :
    primaryPhrase room expression used rest ↔
      Expr.Stands 10 10 (room + 1) expression used rest := by
  have word : ∀ (token : Token) (value : Literal), value.word? = some token.kind →
      Expr.Stands 10 10 (room + 1) (.literal value) [token] rest := by
    intro token value isWord
    exact Expr.stands_of_atom (.literal value) rfl (by rw [Expr.levels])
      (by rw [Expr.marks]; exact spells_singleton.mpr ⟨token, rfl, Or.inr isWord⟩)
  constructor
  · intro holds
    rcases holds with ⟨token, _, rfl, isWord, rfl, rfl⟩ |
      ⟨_, ⟨token, _, rfl, isWord, rfl, rfl⟩ | ⟨_, ⟨token, _, rfl, isWord, rfl, rfl⟩ |
      ⟨_, ⟨token, _, rfl, isLiteral, rfl, rfl⟩ | ⟨_, ⟨token, _, rfl, isName, rfl, rfl⟩ |
      ⟨_, ⟨opening, _, rfl, opens, inner, front, _, rfl, stands, closing, _, rfl, closes, rfl,
        rfl⟩ | ⟨_, impossible⟩⟩⟩⟩⟩⟩
    · exact word token _ (congrArg some (beq_iff_eq.mp isWord).symm)
    · exact word token _ (congrArg some (beq_iff_eq.mp isWord).symm)
    · exact word token _ (congrArg some (beq_iff_eq.mp isWord).symm)
    · exact Expr.stands_of_atom (.literal _) rfl (by rw [Expr.levels])
        (by rw [Expr.marks]; exact spells_singleton.mpr ⟨token, rfl, Or.inl ⟨isLiteral, rfl⟩⟩)
    · exact Expr.stands_of_atom (.variable (beq_iff_eq.mp isName)) rfl (by rw [Expr.levels])
        (by rw [Expr.marks]; exact spells_singleton.mpr ⟨token, rfl, rfl⟩)
    · refine ⟨.grouping stands.canonical, Nat.le_refl 10, ?_, ?_, Expr.ends_primary rfl rest⟩
      · rw [Expr.levels]
        exact Nat.succ_lt_succ stands.shallow
      · rw [Expr.marks]
        refine spells_cons.mpr ⟨opening, _, rfl, beq_iff_eq.mp opens, spells_append.mpr ?_⟩
        exact ⟨front, [closing], rfl, stands.spells,
          spells_singleton.mpr ⟨closing, rfl, beq_iff_eq.mp closes⟩⟩
    · exact impossible.elim
  · intro whole
    rcases whole with ⟨canonical, primary, shallow, spells, _ends⟩
    unfold primaryPhrase
    cases canonical with
    | literal value =>
        rw [Expr.marks] at spells
        obtain ⟨token, rfl, fits⟩ := spells_singleton.mp spells
        rcases fits with ⟨isLiteral, rfl⟩ | isWord
        · rcases literal_kind isLiteral with kind | kind
          · simp [Phrase.either_cons, kind, Grammar.isLiteral]
          · simp [Phrase.either_cons, kind, Grammar.isLiteral]
        · cases value with
          | nil => simp [Phrase.either_cons, ← Option.some.inj isWord]
          | bool truth => cases truth <;> simp [Phrase.either_cons, ← Option.some.inj isWord]
          | number | string => cases isWord
    | @«variable» name named =>
        rw [Expr.marks] at spells
        obtain ⟨token, rfl, rfl⟩ := spells_singleton.mp spells
        simp [Phrase.either_cons, named, Grammar.isLiteral]
    | @grouping inner canonical =>
        rw [Expr.marks] at spells
        obtain ⟨opening, others, rfl, opens, spellsOthers⟩ := spells_cons.mp spells
        obtain ⟨front, back, rfl, spellsInner, spellsClose⟩ := spells_append.mp spellsOthers
        obtain ⟨closing, rfl, closes⟩ := spells_singleton.mp spellsClose
        have isOpen : opening.kind = .leftParen := opens
        have isClose : closing.kind = .rightParen := closes
        rw [Expr.levels] at shallow
        have stands : Expr.Stands 0 0 room inner front ([closing] ++ rest) := by
          refine ⟨canonical, Nat.zero_le _, Nat.lt_of_succ_lt_succ shallow, spellsInner, ?_⟩
          apply Expr.ends_of_none
          change closing.kind.grip? = none
          rw [isClose]
          rfl
        simp only [Phrase.either_cons, isOpen, Grammar.isLiteral]
        exact ⟨inner, front, [closing], rfl, stands, closing, [], rfl, beq_iff_eq.mpr isClose, rfl,
          rfl⟩
    | @logical left right operator own operates lowest highest =>
        rw [Expr.level, operates, Option.getD_some] at primary
        omega
    | @binary left right operator own operates lowest highest =>
        rw [Expr.level, operates, Option.getD_some] at primary
        omega
    | call | unary | conditional | assign =>
        rw [Expr.level] at primary
        omega

theorem primary_reads {inner : InnerExpr} (good : inner.Good nesting room) :
    Reads (Grammar.primary inner) nesting functions (Expr.Stands 10 10 (room + 1)) := by
  have reads : Reads (Grammar.primary inner) nesting functions (primaryPhrase room) :=
    accept_bind_reads (fun _ => pure_reads _) <|
    accept_bind_reads (fun _ => pure_reads _) <|
    accept_bind_reads (fun _ => pure_reads _) <|
    accept_bind_reads (fun _ => pure_reads _) <|
    accept_bind_reads (fun _ => pure_reads _) <|
    accept_bind_reads
      (fun _ => (good.expression functions).bind fun _ =>
        expect_bind_reads .groupClose fun _ => pure_reads _)
      (failHere_reads _)
  exact reads.congr (primaryPhrase_iff room)

/-- Where nothing next could go on with it, an expression is what its tokens spell. -/
theorem Expr.stands_iff_of_free {room : Nat} {expression : Expr} {used rest : List Token}
    (free : nextGrip? rest = none) :
    Expr.Stands 0 0 room expression used rest ↔
      (expression.Canonical ∧ expression.levels < room) ∧ Spells used expression.marks := by
  constructor
  · intro stands
    exact ⟨⟨stands.canonical, stands.shallow⟩, stands.spells⟩
  · intro whole
    obtain ⟨⟨canonical, shallow⟩, spells⟩ := whole
    exact ⟨canonical, Nat.zero_le _, shallow, spells, Expr.ends_of_none free⟩

theorem nextGrip?_of_endsItem {tokens : List Token} (ends : begins endsItem tokens = true) :
    nextGrip? tokens = none := by
  cases tokens with
  | nil => rfl
  | cons token tokens =>
      change token.kind.grip? = none
      cases kind : token.kind <;> simp [kind, endsItem] at ends <;> rfl

theorem arguments_iff {closing : Token} (closes : closing.kind = .rightParen) (room : Nat)
    (items : List Expr) (used rest : List Token) :
    Phrase.listed (Expr.Stands 0 0 room) items used (closing :: rest) ↔
      items.length ≤ Grammar.maxItems ∧ (∀ item ∈ items, item.Canonical) ∧
        Expr.levelsAll items ≤ room ∧ Spells used (Expr.marksAll items) := by
  have starts : ∀ (item : Expr) tokens, item.Canonical ∧ item.levels < room →
      Spells tokens item.marks → begins (· != .rightParen) tokens = true := by
    intro item tokens fine spells
    exact begins_ne rfl (fine.1.starts tokens spells)
  have exact : ∀ (item : Expr) used rest, begins endsItem rest = true →
      (Expr.Stands 0 0 room item used rest ↔
        (item.Canonical ∧ item.levels < room) ∧ Spells used item.marks) :=
    fun item used rest ends => Expr.stands_iff_of_free (nextGrip?_of_endsItem ends)
  rw [listed_iff exact starts closes, Expr.levelsAll_le_iff, Expr.marksAll_eq]
  simp only [forall_and, and_assoc]

theorem arguments_reads {inner : InnerExpr} (good : inner.Good nesting room) :
    Reads (Grammar.arguments inner) nesting functions (Phrase.listed (Expr.Stands 0 0 room)) :=
  nextIs_bind_reads (pure_reads _) (commaSeparated_reads _ (good.expression functions))

/-- Arguments and the parenthesis that closes them, behind the one that opens them. -/
def called (room : Nat) (callee : Expr) (_opening : Token) : Phrase Expr :=
  .andThen (Phrase.listed (Expr.Stands 0 0 room)) fun items =>
    .sign (· == .rightParen) fun paren value used _ => value = .call callee paren items ∧ used = []

theorem leftParen_grip (kind : TokenKind) :
    (kind == .leftParen) = true ↔ kind.grip? = some 9 := by
  cases kind <;> decide

theorem call_chains (room : Nat) : Chains 9 (room + 1) (· == .leftParen) (called room) where
  grips := leftParen_grip
  sound := by
    rintro callee opening expression front back rest opens
      ⟨items, between, _, rfl, holds, paren, _, rfl, isClose, rfl, rfl⟩ stands
    have closes := beq_iff_eq.mp isClose
    obtain ⟨few, canonical, shallow, spells⟩ :=
      (arguments_iff closes room items between rest).mp holds
    refine ⟨.call stands.canonical stands.tight closes few canonical, Nat.le_refl 9, ?_, ?_, ?_⟩
    · rw [Expr.levels]
      exact Nat.max_lt.mpr ⟨stands.shallow, Nat.lt_succ_of_le shallow⟩
    · rw [Expr.marks, spells_append]
      refine ⟨front, _, rfl, stands.spells, spells_cons.mpr ⟨opening, _, rfl, ?_, ?_⟩⟩
      · exact beq_iff_eq.mp opens
      · exact spells_append.mpr ⟨between, [paren], rfl, spells, spells_singleton.mpr ⟨paren, rfl, rfl⟩⟩
    · exact Expr.ends_primary rfl rest
  complete := by
    intro expression used rest stands own
    obtain ⟨canonical, _tight, shallow, spells, _ends⟩ := stands
    cases canonical with
    | @call callee paren items calls tight closes few given =>
        rw [Expr.levels] at shallow
        obtain ⟨calleeShallow, itemsShallow⟩ := Nat.max_lt.mp shallow
        rw [Expr.marks] at spells
        obtain ⟨front, others, rfl, spellsCallee, spellsOthers⟩ := spells_append.mp spells
        obtain ⟨opening, behind, rfl, opens, spellsBehind⟩ := spells_cons.mp spellsOthers
        obtain ⟨between, last, rfl, spellsItems, spellsLast⟩ := spells_append.mp spellsBehind
        obtain ⟨closing, rfl, rfl⟩ := spells_singleton.mp spellsLast
        have isOpen : (opening.kind == .leftParen) = true := beq_iff_eq.mpr opens
        refine ⟨callee, opening, front, between ++ [closing], rfl, isOpen, ?_, ?_⟩
        · refine ⟨items, between, [closing], rfl, ?_, closing, [], rfl, beq_iff_eq.mpr closes, rfl,
            rfl⟩
          exact (arguments_iff closes room items between rest).mpr
            ⟨few, given, Nat.le_of_lt_succ itemsShallow, spellsItems⟩
        · have edge := calls.edge_eq_false (Nat.lt_of_lt_of_le (by decide) tight)
          exact ⟨calls, tight, calleeShallow, spellsCallee, Expr.ends_primary edge _⟩
    | @logical left right operator found operates lowest highest =>
        rw [Expr.level, operates, Option.getD_some] at own
        omega
    | @binary left right operator found operates lowest highest =>
        rw [Expr.level, operates, Option.getD_some] at own
        omega
    | literal | «variable» | grouping | unary | conditional | assign =>
        rw [Expr.level] at own
        omega

theorem call_reads {inner : InnerExpr} (good : inner.Good nesting room) :
    Reads (Grammar.call inner) nesting functions (Expr.Stands 9 9 (room + 1)) := by
  apply (call_chains room).reads (primary_reads good)
  intro callee
  apply accept_bind_reads
  · intro opening
    have closing := fun items =>
      show Reads (do
        let paren ← expect .rightParen .argumentsClose
        return some (Expr.call callee paren items)) nesting functions _ from
      expect_bind_reads .argumentsClose fun paren => pure_reads _
    apply ((arguments_reads good).bind closing).congr
    intro given used rest
    constructor
    · intro whole
      rcases whole with ⟨items, front, back, rfl, holds, paren, behind, rfl, closes, rfl, rfl⟩
      exact ⟨_, ⟨items, front, _, rfl, holds, paren, _, rfl, closes, rfl, rfl⟩, rfl⟩
    · intro known
      rcases known with ⟨_, ⟨items, front, _, rfl, holds, paren, _, rfl, closes, rfl, rfl⟩, rfl⟩
      exact ⟨items, front, _, rfl, holds, paren, _, rfl, closes, rfl, rfl⟩
  · exact pure_reads none

/-! ### The looser rules -/

theorem nextGrip?_ne_unary (rest : List Token) : nextGrip? rest ≠ some 8 := by
  intro next
  obtain ⟨token, _first, grips⟩ := Option.bind_eq_some_iff.mp next
  cases kind : token.kind <;> rw [kind] at grips <;> cases grips

theorem primary_not_unary {kind : TokenKind} (starts : startsPrimary kind = true) :
    Grammar.isUnary kind = false := by
  cases kind <;> first | rfl | cases starts

theorem unary_reads {inner : InnerExpr} (good : inner.Good nesting room) :
    Reads (Grammar.unary inner) nesting functions (Expr.Stands 8 8 (room + 1)) := by
  have reads : Reads (Grammar.unary inner) nesting functions
      (.either Grammar.isUnary
        (fun operator value used rest =>
          ∃ operand, Expr.Stands 8 8 room operand used rest ∧ value = .unary operator operand)
        (Expr.Stands 9 9 (room + 1))) :=
    accept_bind_reads (fun operator => map_reads (Expr.unary operator) (good.operand functions))
      (call_reads good)
  apply reads.congr
  intro expression used rest
  constructor
  · intro holds
    rcases holds with ⟨operator, back, rfl, operates, operand, stands, rfl⟩ | ⟨_left, stands⟩
    · refine ⟨.unary operates stands.canonical stands.tight, Nat.le_refl 8, ?_, ?_, ?_⟩
      · rw [Expr.levels]
        exact Nat.succ_lt_succ stands.shallow
      · rw [Expr.marks]
        exact spells_cons.mpr ⟨operator, back, rfl, rfl, stands.spells⟩
      · have edge := stands.canonical.edge_eq_false (Nat.lt_of_lt_of_le (by decide) stands.tight)
        exact (Expr.ends_congr edge).mp stands.ends
    · exact ⟨stands.canonical, Nat.le_trans (by decide) stands.tight, stands.shallow, stands.spells,
        Expr.ends_iff_succ.mpr ⟨stands.ends, nextGrip?_ne_unary rest⟩⟩
  · intro stands
    by_cases own : 9 ≤ expression.level
    · have ends := (Expr.ends_iff_succ.mp stands.ends).1
      refine Or.inr ⟨?_, stands.canonical, own, stands.shallow, stands.spells, ends⟩
      have starting := stands.canonical.starts_primary own used stands.spells
      cases used with
      | nil => cases starting
      | cons token back => exact primary_not_unary starting
    · have exactly : expression.level = 8 :=
        Nat.le_antisymm (Nat.le_of_lt_succ (Nat.lt_of_not_le own)) stands.tight
      obtain ⟨canonical, _tight, shallow, spells, ends⟩ := stands
      cases canonical with
      | @unary operator operand operates canonical tight =>
          rw [Expr.levels] at shallow
          rw [Expr.marks] at spells
          obtain ⟨token, back, rfl, rfl, spellsOperand⟩ := spells_cons.mp spells
          refine Or.inl ⟨token, back, rfl, operates, operand, ?_, rfl⟩
          have edge := canonical.edge_eq_false (Nat.lt_of_lt_of_le (by decide) tight)
          exact ⟨canonical, tight, Nat.lt_of_succ_lt_succ shallow, spellsOperand,
            (Expr.ends_congr edge).mpr ends⟩
      | binary operates | logical operates =>
          rw [Expr.level, operates, Option.getD_some] at exactly
          omega
      | literal | «variable» | grouping | call | conditional | assign =>
          rw [Expr.level] at exactly
          omega

theorem equality_reads {inner : InnerExpr} (good : inner.Good nesting room) :
    Reads (Grammar.equality inner) nesting functions (Expr.Stands 4 4 (room + 1)) := by
  have factor : Reads (Grammar.factor inner) nesting functions (Expr.Stands 7 7 (room + 1)) :=
    leftChain_reads (joins_binary (by decide) (by decide))
      (fun kind => by cases kind <;> decide) (unary_reads good)
  have term : Reads (Grammar.term inner) nesting functions (Expr.Stands 6 6 (room + 1)) :=
    leftChain_reads (joins_binary (by decide) (by decide))
      (fun kind => by cases kind <;> decide) factor
  have comparison : Reads (Grammar.comparison inner) nesting functions
      (Expr.Stands 5 5 (room + 1)) :=
    leftChain_reads (joins_binary (by decide) (by decide))
      (fun kind => by cases kind <;> decide) term
  exact leftChain_reads (joins_binary (by decide) (by decide))
    (fun kind => by cases kind <;> decide) comparison

/-- Both branches of a conditional, behind its question mark. -/
def branches (room : Nat) (condition : Expr) (question : Token) : Phrase Expr :=
  .andThen (Expr.Stands 0 0 room) fun thenBranch =>
    .sign (· == .colon) fun _ value used rest =>
      ∃ elseBranch, Expr.Stands 0 0 room elseBranch used rest ∧
        value = .conditional condition question thenBranch elseBranch

theorem question_grip (kind : TokenKind) :
    (kind == .question) = true ↔ kind.grip? = some 3 := by
  cases kind <;> decide

theorem conditional_of_branches {condition expression : Expr} {question : Token}
    {front back rest : List Token} (asks : question.kind = .question)
    (stands : Expr.Stands 4 4 (room + 1) condition front (question :: (back ++ rest)))
    (both : branches room condition question expression back rest) :
    Expr.Stands 3 3 (room + 1) expression (front ++ question :: back) rest := by
  obtain ⟨thenBranch, first, _, rfl, standsThen, colon, second, rfl, divides, elseBranch,
    standsElse, rfl⟩ := both
  refine ⟨?_, Nat.le_refl 3, ?_, ?_, ?_⟩
  · exact .conditional asks stands.canonical stands.tight standsThen.canonical standsElse.canonical
  · rw [Expr.levels]
    have deeper := Nat.max_lt.mpr ⟨standsThen.shallow, standsElse.shallow⟩
    exact Nat.max_lt.mpr ⟨stands.shallow, Nat.succ_lt_succ deeper⟩
  · rw [Expr.marks, spells_append]
    refine ⟨front, _, rfl, stands.spells, spells_cons.mpr ⟨question, _, rfl, rfl, ?_⟩⟩
    refine spells_append.mpr ⟨first, colon :: second, rfl, standsThen.spells, ?_⟩
    exact spells_cons.mpr ⟨colon, second, rfl, beq_iff_eq.mp divides, standsElse.spells⟩
  · intro grip next
    have bounded := standsElse.ends grip next
    rw [ite_self] at bounded
    exact absurd bounded (Nat.not_lt_zero grip)

theorem branches_of_conditional {condition thenBranch elseBranch : Expr} {question : Token}
    {used rest : List Token}
    (stands : Expr.Stands 3 3 (room + 1)
      (.conditional condition question thenBranch elseBranch) used rest) :
    ∃ front back, used = front ++ question :: back ∧ question.kind = .question ∧
      Expr.Stands 4 4 (room + 1) condition front (question :: (back ++ rest)) ∧
      branches room condition question (.conditional condition question thenBranch elseBranch)
        back rest := by
  obtain ⟨canonical, _tight, shallow, spells, ends⟩ := stands
  cases canonical with
  | conditional asks decides tight first second =>
      rw [Expr.levels] at shallow
      obtain ⟨conditionShallow, deeper⟩ := Nat.max_lt.mp shallow
      obtain ⟨thenShallow, elseShallow⟩ := Nat.max_lt.mp (Nat.lt_of_succ_lt_succ deeper)
      rw [Expr.marks] at spells
      obtain ⟨front, others, rfl, spellsCondition, spellsOthers⟩ := spells_append.mp spells
      obtain ⟨token, back, rfl, rfl, spellsBranches⟩ := spells_cons.mp spellsOthers
      obtain ⟨between, last, rfl, spellsThen, spellsLast⟩ := spells_append.mp spellsBranches
      obtain ⟨colon, behind, rfl, divides, spellsElse⟩ := spells_cons.mp spellsLast
      have isColon : colon.kind = .colon := divides
      refine ⟨front, between ++ colon :: behind, rfl, asks, ?_, ?_⟩
      · have edge := decides.edge_eq_false (Nat.lt_of_lt_of_le (by decide) tight)
        exact ⟨decides, tight, conditionShallow, spellsCondition,
          Expr.ends_of_lt 3 edge ((question_grip _).mp (beq_iff_eq.mpr asks)) (by decide)⟩
      · refine ⟨thenBranch, between, colon :: behind, rfl, ?_, colon, behind, rfl,
          beq_iff_eq.mpr isColon, elseBranch, ?_, rfl⟩
        · refine ⟨first, Nat.zero_le _, thenShallow, spellsThen, Expr.ends_of_none ?_⟩
          change colon.kind.grip? = none
          rw [isColon]
          rfl
        · refine ⟨second, Nat.zero_le _, elseShallow, spellsElse, ?_⟩
          intro grip next
          exact absurd (ends grip next) (Nat.not_lt_zero grip)

theorem conditional_reads {inner : InnerExpr} (good : inner.Good nesting room) :
    Reads (Grammar.conditional inner) nesting functions (Expr.Stands 3 3 (room + 1)) := by
  have asking : ∀ condition question, Reads (do
      let thenBranch ← inner.expression
      let _ ← expect .colon .conditionalColon
      let elseBranch ← inner.expression
      return .conditional condition question thenBranch elseBranch) nesting functions
      (branches room condition question) := fun condition question =>
    (good.expression functions).bind fun _ => expect_bind_reads .conditionalColon fun _ =>
      map_reads _ (good.expression functions)
  have reads : Reads (Grammar.conditional inner) nesting functions
      (.andThen (Expr.Stands 4 4 (room + 1)) fun condition =>
        .either (· == .question) (branches room condition)
          fun value used _ => value = condition ∧ used = []) :=
    (equality_reads good).bind fun condition =>
      accept_bind_reads (asking condition) (pure_reads condition)
  apply reads.congr
  intro expression used rest
  constructor
  · intro holds
    rcases holds with ⟨condition, front, _, rfl, stands,
      ⟨question, back, rfl, asks, both⟩ | ⟨left, rfl, rfl⟩⟩
    · exact conditional_of_branches (beq_iff_eq.mp asks) stands both
    · rw [List.append_nil]
      have apart := (begins_false_iff question_grip rest).mp left
      exact ⟨stands.canonical, Nat.le_of_succ_le stands.tight, stands.shallow, stands.spells,
        Expr.ends_iff_succ.mpr ⟨stands.ends, apart⟩⟩
  · intro stands
    by_cases own : 4 ≤ expression.level
    · obtain ⟨ends, apart⟩ := Expr.ends_iff_succ.mp stands.ends
      have left := (begins_false_iff question_grip rest).mpr apart
      exact ⟨expression, used, [], (List.append_nil used).symm,
        ⟨stands.canonical, own, stands.shallow, stands.spells, ends⟩, Or.inr ⟨left, rfl, rfl⟩⟩
    · have exactly : expression.level = 3 :=
        Nat.le_antisymm (Nat.le_of_lt_succ (Nat.lt_of_not_le own)) stands.tight
      have canonical := stands.canonical
      cases canonical with
      | @conditional condition thenBranch elseBranch question =>
          obtain ⟨front, back, rfl, asks, standsCondition, both⟩ := branches_of_conditional stands
          exact ⟨condition, front, question :: back, rfl, standsCondition,
            Or.inl ⟨question, back, rfl, beq_iff_eq.mpr asks, both⟩⟩
      | binary operates | logical operates =>
          rw [Expr.level, operates, Option.getD_some] at exactly
          omega
      | literal | «variable» | grouping | call | unary | assign =>
          rw [Expr.level] at exactly
          omega

theorem disjunction_reads {inner : InnerExpr} (good : inner.Good nesting room) :
    Reads (Grammar.disjunction inner) nesting functions (Expr.Stands 1 1 (room + 1)) := by
  have conjunction : Reads (Grammar.conjunction inner) nesting functions
      (Expr.Stands 2 2 (room + 1)) :=
    leftChain_reads (joins_logical (by decide) (by decide))
      (fun kind => by cases kind <;> decide) (conditional_reads good)
  exact leftChain_reads (joins_logical (by decide) (by decide))
    (fun kind => by cases kind <;> decide) conjunction

/-- What is assigned to a name, behind the equals sign. -/
def assigned (room : Nat) (target : Expr) (_equals : Token) : Phrase Expr :=
  fun expression used rest =>
    ∃ name value, target = .variable name ∧ Expr.Stands 0 0 room value used rest ∧
      expression = .assign name value

theorem equal_grip (kind : TokenKind) : (kind == .equal) = true ↔ kind.grip? = some 0 := by
  cases kind <;> decide

/-- What the rule for assignments reads, as it is written. -/
def assignmentPhrase (room : Nat) : Phrase Expr :=
  .andThen (Expr.Stands 1 1 (room + 1)) fun target =>
    .either (· == .equal) (assigned room target) fun value used _ => value = target ∧ used = []

theorem assignmentPhrase_iff (expression : Expr) (used rest : List Token) :
    assignmentPhrase room expression used rest ↔
      Expr.Stands 0 0 (room + 1) expression used rest := by
  constructor
  · intro holds
    obtain ⟨target, front, _, rfl, stands, behind⟩ := holds
    rcases behind with ⟨equals, back, rfl, isEqual, name, value, rfl, standsValue, rfl⟩ | ended
    · have canonical := stands.canonical
      have spells := stands.spells
      rw [Expr.marks] at spells
      obtain ⟨token, rfl, rfl⟩ := spells_singleton.mp spells
      cases canonical with
      | «variable» named =>
          refine ⟨.assign named standsValue.canonical, Nat.le_refl 0, ?_, ?_, ?_⟩
          · rw [Expr.levels]
            exact Nat.succ_lt_succ standsValue.shallow
          · rw [Expr.marks]
            refine spells_cons.mpr ⟨token, equals :: back, rfl, rfl, ?_⟩
            exact spells_cons.mpr ⟨equals, back, rfl, beq_iff_eq.mp isEqual, standsValue.spells⟩
          · intro grip next
            have bounded := standsValue.ends grip next
            rw [ite_self] at bounded
            exact absurd bounded (Nat.not_lt_zero grip)
    · obtain ⟨left, rfl, rfl⟩ := ended
      rw [List.append_nil]
      have apart := (begins_false_iff equal_grip rest).mp left
      exact ⟨stands.canonical, Nat.zero_le _, stands.shallow, stands.spells,
        Expr.ends_iff_succ.mpr ⟨stands.ends, apart⟩⟩
  · intro stands
    obtain ⟨ends, apart⟩ := Expr.ends_iff_succ.mp stands.ends
    by_cases own : 1 ≤ expression.level
    · have left := (begins_false_iff equal_grip rest).mpr apart
      exact ⟨expression, used, [], (List.append_nil used).symm,
        ⟨stands.canonical, own, stands.shallow, stands.spells, ends⟩, Or.inr ⟨left, rfl, rfl⟩⟩
    · have exactly : expression.level = 0 := Nat.eq_zero_of_not_pos own
      obtain ⟨canonical, _tight, shallow, spells, ends⟩ := stands
      cases canonical with
      | @assign name value named canonical =>
          rw [Expr.levels] at shallow
          rw [Expr.marks] at spells
          obtain ⟨token, others, rfl, rfl, spellsOthers⟩ := spells_cons.mp spells
          obtain ⟨equals, back, rfl, isEqual, spellsValue⟩ := spells_cons.mp spellsOthers
          have isEqualSign : equals.kind = .equal := isEqual
          refine ⟨.variable token, [token], equals :: back, rfl, ?_, Or.inl ?_⟩
          · refine ⟨.variable named, ?_, ?_, ?_, ?_⟩
            · rw [Expr.level]
              decide
            · rw [Expr.levels]
              exact Nat.succ_pos room
            · rw [Expr.marks]
              exact spells_singleton.mpr ⟨token, rfl, rfl⟩
            · exact Expr.ends_of_lt 0 rfl ((equal_grip _).mp (beq_iff_eq.mpr isEqualSign))
                (by decide)
          · refine ⟨equals, back, rfl, beq_iff_eq.mpr isEqualSign, token, value, rfl, ?_, rfl⟩
            refine ⟨canonical, Nat.zero_le _, Nat.lt_of_succ_lt_succ shallow, spellsValue, ?_⟩
            intro grip next
            exact absurd (ends grip next) (Nat.not_lt_zero grip)
      | @binary left right operator found operates lowest =>
          rw [Expr.level, operates, Option.getD_some] at exactly
          omega
      | @logical left right operator found operates lowest =>
          rw [Expr.level, operates, Option.getD_some] at exactly
          omega
      | literal | «variable» | grouping | call | unary | conditional =>
          rw [Expr.level] at exactly
          omega

theorem refused_reads {inner : InnerExpr} (good : inner.Good nesting room) (target : Expr)
    (equals : Token) :
    Reads (do
      let _ ← inner.expression
      note ⟨equals, .invalidAssignmentTarget⟩
      return target) nesting functions fun _ _ _ => False := by
  have noted : Reads (do
      note ⟨equals, .invalidAssignmentTarget⟩
      return target) nesting functions _ := note_bind_reads _ (pure_reads target)
  apply ((good.expression functions).bind fun _ => noted).congr
  intro expression used rest
  constructor
  · intro holds
    obtain ⟨_value, _front, _back, _split, _stands, impossible⟩ := holds
    exact impossible
  · exact False.elim

theorem assignment_reads {inner : InnerExpr} (good : inner.Good nesting room) :
    Reads (Grammar.assignment inner) nesting functions (Expr.Stands 0 0 (room + 1)) := by
  have reads : Reads (Grammar.assignment inner) nesting functions
      (assignmentPhrase room) := by
    refine (disjunction_reads good).bind fun target =>
      accept_bind_reads (fun equals => ?_) (pure_reads target)
    cases target with
    | «variable» name =>
        apply (map_reads (Expr.assign name) (good.expression functions)).congr
        intro expression used rest
        constructor
        · intro holds
          obtain ⟨value, stands, rfl⟩ := holds
          exact ⟨name, value, rfl, stands, rfl⟩
        · intro holds
          obtain ⟨other, value, same, stands, rfl⟩ := holds
          cases same
          exact ⟨value, stands, rfl⟩
    | literal | assign | unary | binary | logical | conditional | call | grouping =>
        refine Reads.congr (refused_reads good _ equals) ?_
        intro expression used rest
        constructor
        · exact False.elim
        · intro holds
          obtain ⟨name, value, same, _stands, _rfl⟩ := holds
          cases same
  exact reads.congr assignmentPhrase_iff

end

/-- The rules read what they should as deep as the levels go. The induction is on the levels that
are left. -/
theorem rules_good (limit : Nat) {nesting room : Nat} (levels : nesting + room = limit) :
    (Grammar.rules limit room).toInnerExpr.Good nesting room := by
  induction room generalizing nesting with
  | zero =>
      have nothing : ∀ level functions,
          Reads (failHere .tooMuchNesting : Parser Expr) nesting functions
            (Expr.Stands level level 0) := by
        intro level functions
        apply (failHere_reads .tooMuchNesting).congr
        intro expression used rest
        constructor
        · exact False.elim
        · exact fun stands => absurd stands.shallow (Nat.not_lt_zero _)
      exact ⟨nothing 0, nothing 8⟩
  | succ room ih =>
      have deeper : (Grammar.rules limit room).toInnerExpr.Good (nesting + 1) room := by
        apply ih
        omega
      have open' : nesting < limit := by omega
      exact ⟨fun _ => nested_reads open' (assignment_reads deeper),
        fun _ => nested_reads open' (unary_reads deeper)⟩

/-! ### Whole expressions -/

/-- The last of some expressions with commas between them. -/
def lastOf (room : Nat) : Expr → Phrase Expr :=
  .Rounds fun _ => .either (· == .comma)
    (fun _ given used rest =>
      ∃ expression, Expr.Stands 0 0 room expression used rest ∧ given = some expression)
    fun given used _ => given = none ∧ used = []

theorem expressions_reads {inner : InnerExpr} {nesting functions room : Nat}
    (good : inner.Good nesting room) :
    Reads (Grammar.expressions inner) nesting functions
      (.andThen (Expr.Stands 0 0 room) fun first =>
        .andThen (lastOf room first) fun last value used rest =>
          used = [] ∧ rest = [] ∧ value = last) := by
  have reads : Reads (Grammar.expressions inner) nesting functions
      (.andThen (Expr.Stands 0 0 room) fun first =>
        .andThen (lastOf room first) fun last value used rest =>
          used ++ rest = [] ∧ value = last ∧ used = [] ∨ used ++ rest ≠ [] ∧ False) := by
    refine (good.expression functions).bind fun first =>
      (repeating_reads (fun _left => ?_) ?_ ?_ ?_ first).bind fun last =>
        atEnd_bind_reads (pure_reads last) (failHere_reads _)
    · exact accept_bind_reads (fun _ => map_reads some (good.expression functions))
        (pure_reads none)
    · exact fun _left => Or.inr ⟨rfl, rfl, rfl⟩
    · intro left used rest stopped
      rcases stopped with ⟨_comma, _back, _split, _divides, _expression, _stands, same⟩ | stopped
      · cases same
      · exact stopped.2.2
    · intro left middle used rest stepped
      rcases stepped with ⟨comma, back, rfl, _holds⟩ | stopped
      · exact List.cons_ne_nil comma back
      · cases stopped.2.1
  apply reads.congr
  intro value used rest
  apply exists_congr
  intro first
  refine exists_congr fun front => exists_congr fun back => and_congr_right fun _split =>
    and_congr_right fun _stands => exists_congr fun last => exists_congr fun middle =>
    exists_congr fun behind => and_congr_right fun _split => and_congr_right fun _rounds => ?_
  constructor
  · intro ends
    rcases ends with ⟨ended, rfl, rfl⟩ | ⟨_left, impossible⟩
    · exact ⟨rfl, ended, rfl⟩
    · exact impossible.elim
  · intro ends
    obtain ⟨rfl, rfl, rfl⟩ := ends
    exact Or.inl ⟨rfl, rfl, rfl⟩

/-- What parses as an expression is the last of some canonical ones, written with commas between
them. -/
theorem parseExpressionWithin_iff (limit : Nat) (tokens : List Token) (expression : Expr) :
    Grammar.parseExpressionWithin limit tokens = .ok expression ↔
      Phrase.andThen (Expr.Stands 0 0 limit) (lastOf limit) expression
        (tokens.takeWhile (·.kind != .endOfInput)) [] := by
  have good : (Grammar.rules limit limit).toInnerExpr.Good 0 limit :=
    rules_good limit (Nat.zero_add limit)
  have reads : Reads (Grammar.expressions (Grammar.rules limit limit).toInnerExpr) 0 0 _ :=
    expressions_reads good
  unfold Grammar.parseExpressionWithin
  rw [reads.conclude_iff]
  · refine exists_congr fun first => exists_congr fun front => exists_congr fun back =>
      and_congr_right fun _split => and_congr_right fun _stands => ?_
    constructor
    · intro ends
      obtain ⟨last, middle, behind, rfl, rounds, rfl, _ended, rfl⟩ := ends
      rw [List.append_nil]
      exact rounds
    · intro rounds
      exact ⟨expression, back, [], (List.append_nil back).symm, rounds, rfl, rfl, rfl⟩
  · intro value used rest holds
    obtain ⟨_first, _front, _back, _split, _stands, _last, _middle, _behind, _splitAgain, _rounds,
      _none, ended, _same⟩ := holds
    exact ended

theorem takeWhile_visible {tokens suffix : List Token}
    (visible : ∀ token ∈ tokens, token.kind ≠ .endOfInput)
    (ended : ∀ token ∈ suffix.head?, token.kind = .endOfInput) :
    (tokens ++ suffix).takeWhile (·.kind != .endOfInput) = tokens := by
  have all : ∀ token ∈ tokens, (token.kind != .endOfInput) = true :=
    fun token member => bne_iff_ne.mpr (visible token member)
  rw [List.takeWhile_append_of_pos all]
  cases suffix with
  | nil => simp
  | cons token suffix => simp [ended token rfl]

/-- Parsing undoes rendering. A canonical expression whose levels are within the limit is read back
from its tokens, whatever their lines and whatever follows on the end of input. -/
theorem parseExpression_spelled (expression : Expr) (canonical : expression.Canonical)
    (shallow : expression.levels + 1 ≤ maxNesting) :
    parseExpression expression.rendering = .ok expression ∧
      ∀ tokens suffix, Spells tokens expression.marks →
        (∀ token ∈ suffix.head?, token.kind = .endOfInput) →
        parseExpression (tokens ++ suffix) = .ok expression := by
  have spelled : ∀ tokens suffix, Spells tokens expression.marks →
      (∀ token ∈ suffix.head?, token.kind = .endOfInput) →
      parseExpression (tokens ++ suffix) = .ok expression := by
    intro tokens suffix spells ended
    unfold parseExpression
    rw [parseExpressionWithin_iff,
      takeWhile_visible (spells.visible canonical.visible) ended]
    have stands : Expr.Stands 0 0 maxNesting expression tokens ([] ++ []) :=
      ⟨canonical, Nat.zero_le _, shallow, spells, Expr.ends_of_none rfl⟩
    have ended : lastOf maxNesting expression expression [] [] := .stop (Or.inr ⟨rfl, rfl, rfl⟩)
    exact ⟨expression, tokens, [], (List.append_nil tokens).symm, stands, ended⟩
  refine ⟨?_, spelled⟩
  have whole := spelled expression.rendering [] (spells_written expression.marks)
    (fun token member => nomatch member)
  rw [List.append_nil] at whole
  exact whole

/-- `x = a or b ? -f("s", nil) : c`, in which the conditional is the right operand of `or`. -/
def choiceAssigned : Expr :=
  let name (text : String) : Token := ⟨.identifier, text, .nil, 1⟩
  let call : Expr :=
    .call (.variable (name "f")) ⟨.rightParen, ")", .nil, 1⟩
      [.literal (.string "s"), .literal .nil]
  .assign (name "x")
    (.logical (.variable (name "a")) ⟨.orWord, "or", .nil, 1⟩
      (.conditional (.variable (name "b")) ⟨.question, "?", .nil, 1⟩
        (.unary ⟨.minus, "-", .nil, 1⟩ call) (.variable (name "c"))))

theorem choiceAssigned_canonical : choiceAssigned.Canonical := by
  have items : ∀ item ∈ [Expr.literal (.string "s"), .literal .nil], item.Canonical := by
    intro item member
    rcases List.mem_pair.mp member with rfl | rfl
    · exact .literal _
    · exact .literal _
  unfold choiceAssigned
  refine .assign rfl (.logical rfl (by decide) (by decide) (.variable rfl) (by decide) ?_
    (by decide) rfl)
  refine .conditional rfl (.variable rfl) (by decide) (.unary rfl ?_ (by decide)) (.variable rfl)
  exact .call (.variable rfl) (by decide) rfl (by decide) items

theorem parseExpression_choiceAssigned :
    choiceAssigned.Canonical ∧ choiceAssigned.levels + 1 ≤ maxNesting ∧
      parseExpression choiceAssigned.rendering = .ok choiceAssigned := by
  have shallow : choiceAssigned.levels + 1 ≤ maxNesting := by decide
  exact ⟨choiceAssigned_canonical, shallow,
    (parseExpression_spelled choiceAssigned choiceAssigned_canonical shallow).1⟩

end Lox
