import Lox.Proofs.Grammar.Expression
import Lox.Proofs.Grammar.SurfaceRules
set_option autoImplicit false

/-! Phrases that are told by the marks of their tokens. Apart from an expression, which ends where no
operator goes on, what a rule reads depends on the tokens behind it at most in whether an `else` is
next; so most of a statement can be told by marks alone. -/

namespace Lox

open Lox.Parser

/-- A value, the marks of the tokens that it is read from, and the tokens behind. -/
abbrev Outline (α : Type) := α → List Mark → List Token → Prop

def Phrase.spelled {α : Type} (outline : Outline α) : Phrase α := fun value used rest =>
  ∃ marks, Spells used marks ∧ outline value marks rest

section

variable {α : Type} {nesting functions room : Nat}

theorem respelled {rule : Parser α} {outline other : Outline α}
    (reads : Reads rule nesting functions (.spelled outline))
    (same : ∀ value marks rest, outline value marks rest ↔ other value marks rest) :
    Reads rule nesting functions (.spelled other) := by
  apply reads.congr
  intro value used rest
  refine exists_congr fun marks => and_congr_right fun _spells => ?_
  exact same value marks rest

theorem pure_spelled (value : α) :
    Reads (pure value) nesting functions
      (.spelled fun given marks _ => given = value ∧ marks = []) := by
  apply (pure_reads value).congr
  intro given used rest
  constructor
  · intro read
    obtain ⟨rfl, rfl⟩ := read
    exact ⟨[], spells_nil.mpr rfl, rfl, rfl⟩
  · intro spelled
    obtain ⟨_, spells, rfl, rfl⟩ := spelled
    exact ⟨rfl, spells_nil.mp spells⟩

/-- A token that the value depends on. -/
theorem expect_spelled {next : Token → Parser α} {kind : TokenKind} {outline : Token → Outline α}
    (item : Expected)
    (reads : ∀ token, Reads (next token) nesting functions (.spelled (outline token))) :
    Reads (expect kind item >>= next) nesting functions
      (.spelled fun value marks rest => ∃ token more, token.kind = kind ∧
        marks = .token token :: more ∧ outline token value more rest) := by
  apply (expect_bind_reads item reads).congr
  intro value used rest
  constructor
  · intro signed
    obtain ⟨token, back, rfl, isKind, more, spells, holds⟩ := signed
    exact ⟨.token token :: more, .cons rfl spells, token, more, beq_iff_eq.mp isKind, rfl, holds⟩
  · intro spelled
    obtain ⟨_, spells, token, more, isKind, rfl, holds⟩ := spelled
    obtain ⟨_, back, rfl, rfl, spellsMore⟩ := spells_cons.mp spells
    exact ⟨_, back, rfl, beq_iff_eq.mpr isKind, more, spellsMore, holds⟩

/-- A token of which only the kind matters. -/
theorem expectKind_spelled {next : Parser α} {outline : Outline α} (kind : TokenKind)
    (item : Expected) (reads : Reads next nesting functions (.spelled outline)) :
    Reads (expect kind item >>= fun _ => next) nesting functions
      (.spelled fun value marks rest => ∃ more, marks = .kind kind :: more ∧
        outline value more rest) := by
  apply (expect_bind_reads item fun _ => reads).congr
  intro value used rest
  constructor
  · intro signed
    obtain ⟨token, back, rfl, isKind, more, spells, holds⟩ := signed
    exact ⟨.kind kind :: more, .cons (beq_iff_eq.mp isKind) spells, more, rfl, holds⟩
  · intro spelled
    obtain ⟨_, spells, more, rfl, holds⟩ := spelled
    obtain ⟨token, back, rfl, isKind, spells⟩ := spells_cons.mp spells
    exact ⟨token, back, rfl, beq_iff_eq.mpr isKind, more, spells, holds⟩

/-- What its own marks tell, up to a token of some kind. -/
theorem closed_spelled {β : Type} {rule : Parser β} {next : β → Parser α} {phrase : Phrase β}
    {good : β → Prop} {own : β → List Mark} {kind : TokenKind} {outline : β → Outline α}
    (first : Reads rule nesting functions phrase)
    (exact : ∀ token, token.kind = kind → ∀ value used rest,
      (phrase value used (token :: rest) ↔ good value ∧ Spells used (own value)))
    (item : Expected)
    (reads : ∀ value, Reads (next value) nesting functions (.spelled (outline value))) :
    Reads (rule >>= fun value => expect kind item >>= fun _ => next value) nesting functions
      (.spelled fun result marks rest => ∃ value more, good value ∧
        marks = own value ++ .kind kind :: more ∧ outline value result more rest) := by
  apply (first.bind fun value => expectKind_spelled kind item (reads value)).congr
  intro result used rest
  constructor
  · intro whole
    obtain ⟨value, front, _, rfl, reading, _, spells, more, rfl, holds⟩ := whole
    obtain ⟨token, back, rfl, isKind, _spellsMore⟩ := spells_cons.mp spells
    obtain ⟨fine, spellsOwn⟩ := (exact token isKind value front _).mp reading
    exact ⟨_, spells_append.mpr ⟨front, _, rfl, spellsOwn, spells⟩, value, more, fine, rfl, holds⟩
  · intro spelled
    obtain ⟨_, spells, value, more, fine, rfl, holds⟩ := spelled
    obtain ⟨front, _, rfl, spellsOwn, spells⟩ := spells_append.mp spells
    obtain ⟨token, back, rfl, isKind, spellsMore⟩ := spells_cons.mp spells
    have reading := (exact token isKind value front (back ++ rest)).mpr ⟨fine, spellsOwn⟩
    exact ⟨value, front, token :: back, rfl, reading, _, .cons isKind spellsMore, more, rfl, holds⟩

theorem nextGrip?_cons {token : Token} {kind : TokenKind} (free : kind.grip? = none)
    (isKind : token.kind = kind) (rest : List Token) : nextGrip? (token :: rest) = none := by
  change token.kind.grip? = none
  rw [isKind, free]

/-- An expression up to a token that does nothing behind one. -/
theorem expression_spelled {inner : InnerExpr} (good : inner.Good nesting room)
    {next : Expr → Parser α} {kind : TokenKind} {outline : Expr → Outline α}
    (free : kind.grip? = none) (item : Expected)
    (reads : ∀ value, Reads (next value) nesting functions (.spelled (outline value))) :
    Reads (inner.expression >>= fun value => expect kind item >>= fun _ => next value) nesting
      functions (.spelled fun result marks rest => ∃ value more,
        (value.Canonical ∧ value.levels < room) ∧ marks = value.marks ++ .kind kind :: more ∧
        outline value result more rest) := by
  apply closed_spelled (good.expression functions) ?_ item reads
  intro token isKind value used rest
  exact Expr.stands_iff_of_free (nextGrip?_cons free isKind rest)

/-- An expression that may be missing, up to a token that starts none. -/
theorem optional_spelled {inner : Inner} (good : inner.toInnerExpr.Good nesting room)
    {next : Option Expr → Parser α} {kind : TokenKind} {outline : Option Expr → Outline α}
    (free : kind.grip? = none) (apart : startsExpression kind = false) (item : Expected)
    (reads : ∀ given, Reads (next given) nesting functions (.spelled (outline given))) :
    Reads (Grammar.optionalBefore kind inner >>= fun given => expect kind item >>= fun _ =>
        next given) nesting functions
      (.spelled fun result marks rest => ∃ given more,
        ((∀ value ∈ given, value.Canonical) ∧ Expr.levels? given ≤ room) ∧
        marks = Expr.marks? given ++ .kind kind :: more ∧ outline given result more rest) := by
  have optional : Reads (Grammar.optionalBefore kind inner) nesting functions _ :=
    nextIs_bind_reads (pure_reads none) (map_reads some (good.expression functions))
  apply closed_spelled optional ?_ item reads
  intro token isKind given used rest
  have stands : ∀ value, Expr.Stands 0 0 room value used (token :: rest) ↔ _ := fun _value =>
    Expr.stands_iff_of_free (nextGrip?_cons free isKind rest)
  constructor
  · intro found
    rcases found with ⟨_next, rfl, rfl⟩ | ⟨_apart, value, standing, rfl⟩
    · simp [Expr.levels?, Expr.marks?, spells_nil]
    · obtain ⟨⟨canonical, shallow⟩, spells⟩ := (stands value).mp standing
      refine ⟨⟨?_, shallow⟩, spells⟩
      intro other member
      cases member
      exact canonical
  · intro whole
    obtain ⟨⟨canonical, shallow⟩, spells⟩ := whole
    cases given with
    | none =>
        obtain rfl := spells_nil.mp spells
        exact Or.inl ⟨beq_iff_eq.mpr isKind, rfl, rfl⟩
    | some value =>
        have here := canonical value rfl
        have starting := begins_ne apart (here.starts used spells)
        exact Or.inr ⟨begins_append_of_ne _ starting, value,
          (stands value).mpr ⟨⟨here, shallow⟩, spells⟩, rfl⟩

theorem map_spelled {β : Type} {rule : Parser α} {outline : Outline α} (transform : α → β)
    (reads : Reads rule nesting functions (.spelled outline)) :
    Reads (do return transform (← rule)) nesting functions
      (.spelled fun result marks rest =>
        ∃ value, outline value marks rest ∧ result = transform value) := by
  apply (map_reads transform reads).congr
  intro result used rest
  constructor
  · intro mapped
    obtain ⟨value, ⟨marks, spells, holds⟩, rfl⟩ := mapped
    exact ⟨marks, spells, value, holds, rfl⟩
  · intro spelled
    obtain ⟨marks, spells, value, holds, rfl⟩ := spelled
    exact ⟨value, ⟨marks, spells, holds⟩, rfl⟩

/-- What does not depend on the tokens behind it, in front of something else. -/
theorem bind_spelled {β : Type} {rule : Parser β} {next : β → Parser α}
    {plain : β → List Mark → Prop} {outline : β → Outline α}
    (first : Reads rule nesting functions (.spelled fun value marks _ => plain value marks))
    (reads : ∀ value, Reads (next value) nesting functions (.spelled (outline value))) :
    Reads (rule >>= next) nesting functions
      (.spelled fun result marks rest => ∃ value own more, plain value own ∧
        marks = own ++ more ∧ outline value result more rest) := by
  apply (first.bind reads).congr
  intro result used rest
  constructor
  · intro whole
    obtain ⟨value, front, back, rfl, ⟨own, spells, holds⟩, more, spellsMore, others⟩ := whole
    exact ⟨_, spells_append.mpr ⟨front, back, rfl, spells, spellsMore⟩, value, own, more, holds, rfl,
      others⟩
  · intro spelled
    obtain ⟨_, spells, value, own, more, holds, rfl, others⟩ := spelled
    obtain ⟨front, back, rfl, spellsOwn, spellsMore⟩ := spells_append.mp spells
    exact ⟨value, front, back, rfl, ⟨own, spellsOwn, holds⟩, more, spellsMore, others⟩

/-- A token of some kind and what stands behind it, or something that starts with another kind. -/
theorem accept_spelled {next : Option Token → Parser α} {kind : TokenKind}
    {taken other : Outline α}
    (some : ∀ token, Reads (next (some token)) nesting functions (.spelled taken))
    (none : Reads (next none) nesting functions (.spelled other))
    (apart : ∀ value used rest, Phrase.spelled other value used rest →
      begins (· != kind) used = true) :
    Reads (accept (· == kind) >>= next) nesting functions
      (.spelled fun value marks rest =>
        (∃ more, marks = .kind kind :: more ∧ taken value more rest) ∨
          other value marks rest) := by
  apply (accept_bind_reads some none).congr
  intro value used rest
  constructor
  · intro either
    rcases either with ⟨token, back, rfl, isKind, more, spells, holds⟩ | ⟨_apart, spelled⟩
    · exact ⟨.kind kind :: more, .cons (beq_iff_eq.mp isKind) spells, Or.inl ⟨more, rfl, holds⟩⟩
    · obtain ⟨marks, spells, holds⟩ := spelled
      exact ⟨marks, spells, Or.inr holds⟩
  · intro spelled
    obtain ⟨marks, spells, holds⟩ := spelled
    rcases holds with ⟨more, rfl, holds⟩ | holds
    · obtain ⟨token, back, rfl, isKind, spellsMore⟩ := spells_cons.mp spells
      exact Or.inl ⟨token, back, rfl, beq_iff_eq.mpr isKind, more, spellsMore, holds⟩
    · have starting := apart value used rest ⟨marks, spells, holds⟩
      exact Or.inr ⟨begins_append_of_ne rest starting, marks, spells, holds⟩

/-- Named parameters up to the parenthesis that closes them. -/
theorem parameters_spelled {next : List Token → Parser α} {outline : List Token → Outline α}
    (item : Expected)
    (reads : ∀ items, Reads (next items) nesting functions (.spelled (outline items))) :
    Reads (Grammar.parameters >>= fun items => expect .rightParen item >>= fun _ => next items)
      nesting functions
      (.spelled fun result marks rest => ∃ items more,
        (items.length ≤ Grammar.maxItems ∧ ∀ parameter ∈ items, parameter.kind = .identifier) ∧
        marks = divided (items.map ([.token ·])) ++ .kind .rightParen :: more ∧
        outline items result more rest) := by
  have parameters : Reads Grammar.parameters nesting functions (Phrase.listed _) :=
    nextIs_bind_reads (pure_reads [])
      (commaSeparated_reads .tooManyParameters (expect_reads .identifier .parameterName))
  have exact : ∀ (parameter : Token) (used rest : List Token), begins endsItem rest = true →
      ((used = [parameter] ∧ parameter.kind = .identifier) ↔
        parameter.kind = .identifier ∧ Spells used [.token parameter]) := by
    intro parameter used rest _ends
    simp [spells_singleton, Token.Fits, and_comm]
  have starts : ∀ (parameter : Token) tokens, parameter.kind = .identifier →
      Spells tokens [.token parameter] → begins (· != .rightParen) tokens = true := by
    intro parameter tokens named spells
    obtain ⟨_, rfl, rfl⟩ := spells_singleton.mp spells
    simp [named]
  apply closed_spelled parameters ?_ item reads
  intro closing closes items used rest
  rw [listed_iff exact starts closes, and_assoc]

end

end Lox
