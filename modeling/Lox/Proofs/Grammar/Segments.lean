import Lox.Proofs.Grammar.Expression
set_option autoImplicit false

/-! Comma sequences. The tokens of a canonical expression have no comma outside of all parentheses,
so the commas that stand there divide the tokens of a sequence into the writings of its parts. A
sequence parses just when each part is the writing of a canonical expression, and there is no other
way to read it. -/

namespace Lox

open Lox.Parser

namespace TokenKind

/-- How many parentheses are open behind a token, if so many are open in front of it. -/
def depthBehind (kind : TokenKind) (depth : Nat) : Nat :=
  match kind with
  | leftParen => depth + 1
  | rightParen => depth - 1
  | _ => depth

/-- Neither a comma nor a parenthesis. -/
def isPlain (kind : TokenKind) : Bool :=
  kind != comma && kind != leftParen && kind != rightParen

theorem depthBehind_of_plain {kind : TokenKind} (plain : kind.isPlain = true) (depth : Nat) :
    kind.depthBehind depth = depth := by
  cases kind <;> first | rfl | cases plain

theorem ne_comma_of_plain {kind : TokenKind} (plain : kind.isPlain = true) : kind ≠ comma := by
  intro same
  rw [same] at plain
  cases plain

theorem isPlain_of_grip? {kind : TokenKind} {level : Nat} (grips : kind.grip? = some level)
    (loose : level ≤ 7) : kind.isPlain = true := by
  cases kind <;> simp [grip?] at grips <;> first | rfl | omega

end TokenKind

/-- The parts into which the commas outside of all parentheses divide tokens, in front of which some
number of parentheses is open. -/
def segments : (depth : Nat) → List Token → List (List Token)
  | _, [] => [[]]
  | depth, token :: rest =>
    if token.kind = .comma ∧ depth = 0 then [] :: segments 0 rest
    else (segments (token.kind.depthBehind depth) rest).modifyHead (token :: ·)

theorem segments_ne_nil (depth : Nat) (tokens : List Token) : segments depth tokens ≠ [] := by
  induction tokens generalizing depth with
  | nil => simp [segments]
  | cons token rest ih =>
      rw [segments]
      split
      · simp
      · simpa using ih _

/-- The first part is all there is, or a comma and the other parts stand behind it. -/
theorem segments_eq_cons {depth : Nat} {tokens first : List Token} {others : List (List Token)}
    (divided : segments depth tokens = first :: others) :
    others = [] ∧ tokens = first ∨
      ∃ comma back, tokens = first ++ comma :: back ∧ comma.kind = .comma ∧
        others = segments 0 back := by
  induction tokens generalizing depth first with
  | nil =>
      cases divided
      exact Or.inl ⟨rfl, rfl⟩
  | cons token rest ih =>
      rw [segments] at divided
      by_cases divides : token.kind = .comma ∧ depth = 0
      · rw [if_pos divides] at divided
        cases divided
        exact Or.inr ⟨token, rest, rfl, divides.1, rfl⟩
      · rw [if_neg divides] at divided
        cases behind : segments (token.kind.depthBehind depth) rest with
        | nil =>
            rw [behind] at divided
            cases divided
        | cons part parts =>
            rw [behind] at divided
            cases divided
            rcases ih behind with ⟨none, whole⟩ | ⟨comma, back, whole, isComma, same⟩
            · exact Or.inl ⟨none, congrArg (token :: ·) whole⟩
            · exact Or.inr ⟨comma, back, congrArg (token :: ·) whole, isComma, same⟩

/-- Within at least so many open parentheses the tokens stay in one part, and leave as many open
behind them as in front. -/
def Together (least : Nat) (used : List Token) : Prop :=
  ∀ depth rest, least ≤ depth →
    segments depth (used ++ rest) = (segments depth rest).modifyHead (used ++ ·)

namespace Together

variable {least : Nat} {first second : List Token}

theorem nil : Together least [] := by
  intro depth rest _inside
  rw [List.nil_append]
  cases segments depth rest <;> rfl

theorem mono {more : Nat} (fewer : least ≤ more) (together : Together least first) :
    Together more first :=
  fun depth rest inside => together depth rest (Nat.le_trans fewer inside)

theorem append (left : Together least first) (right : Together least second) :
    Together least (first ++ second) := by
  intro depth rest inside
  rw [List.append_assoc, left depth _ inside, right depth rest inside, List.modifyHead_modifyHead]
  congr 1
  funext part
  exact (List.append_assoc _ _ _).symm

theorem plain {token : Token} (apart : token.kind.isPlain = true) : Together least [token] := by
  intro depth rest _inside
  have other : ¬ (token.kind = .comma ∧ depth = 0) :=
    fun divides => TokenKind.ne_comma_of_plain apart divides.1
  rw [List.singleton_append, segments, if_neg other, TokenKind.depthBehind_of_plain apart]
  rfl

theorem comma {token : Token} (divides : token.kind = .comma) : Together 1 [token] := by
  intro depth rest inside
  have other : ¬ (token.kind = .comma ∧ depth = 0) := by omega
  rw [List.singleton_append, segments, if_neg other, divides]
  rfl

theorem parenthesized {opening closing : Token} (opens : opening.kind = .leftParen)
    (closes : closing.kind = .rightParen) (inner : Together 1 first) :
    Together least (opening :: (first ++ [closing])) := by
  intro depth rest _inside
  have around : segments depth (opening :: (first ++ closing :: rest))
      = (segments (depth + 1) (first ++ closing :: rest)).modifyHead (opening :: ·) := by
    simp [segments, opens, TokenKind.depthBehind]
  have behind : segments (depth + 1) (closing :: rest)
      = (segments depth rest).modifyHead (closing :: ·) := by
    simp [segments, closes, TokenKind.depthBehind]
  have whole : opening :: (first ++ [closing]) ++ rest = opening :: (first ++ closing :: rest) := by
    simp
  rw [whole, around, inner _ _ (Nat.le_add_left 1 depth), behind, List.modifyHead_modifyHead,
    List.modifyHead_modifyHead]
  congr 1
  funext part
  simp

theorem divided {items : List (List Mark)} {tokens : List Token}
    (each : ∀ item ∈ items, ∀ used, Spells used item → Together 1 used)
    (spells : Spells tokens (divided items)) : Together 1 tokens := by
  induction items generalizing tokens with
  | nil =>
      rw [spells_nil.mp spells]
      exact nil
  | cons item items ih =>
      obtain ⟨here, there⟩ := List.forall_mem_cons.mp each
      cases items with
      | nil => exact here tokens spells
      | cons next items =>
          obtain ⟨front, behind, rfl, spellsFront, spellsBehind⟩ := spells_append.mp spells
          obtain ⟨divider, back, rfl, divides, spellsBack⟩ := spells_cons.mp spellsBehind
          exact (here front spellsFront).append ((comma divides).append (ih there spellsBack))

end Together

theorem Literal.isPlain {value : Literal} {token : Token} (fits : token.Fits (.literal value)) :
    token.kind.isPlain = true := by
  rcases fits with ⟨isLiteral, _same⟩ | word
  · rcases literal_kind isLiteral with kind | kind <;> simp [kind, TokenKind.isPlain]
  · cases value with
    | nil =>
        rw [← Option.some.inj word]
        rfl
    | bool truth => cases truth <;> simp [← Option.some.inj word, TokenKind.isPlain]
    | number | string => cases word

theorem Expr.Canonical.together {expression : Expr} (canonical : expression.Canonical) :
    ∀ used, Spells used expression.marks → Together 0 used := by
  induction canonical with
  | literal value =>
      intro used spells
      rw [marks] at spells
      obtain ⟨token, rfl, fits⟩ := spells_singleton.mp spells
      exact .plain (Literal.isPlain fits)
  | «variable» named =>
      intro used spells
      rw [marks] at spells
      obtain ⟨token, rfl, rfl⟩ := spells_singleton.mp spells
      exact .plain (by simp [named, TokenKind.isPlain])
  | grouping _ ih =>
      intro used spells
      rw [marks] at spells
      obtain ⟨opening, behind, rfl, opens, spellsBehind⟩ := spells_cons.mp spells
      obtain ⟨front, back, rfl, spellsInner, spellsBack⟩ := spells_append.mp spellsBehind
      obtain ⟨closing, rfl, closes⟩ := spells_singleton.mp spellsBack
      exact .parenthesized opens closes ((ih front spellsInner).mono (Nat.zero_le 1))
  | @call callee paren arguments _ _ closes _ _ ih each =>
      intro used spells
      rw [marks, marksAll_eq] at spells
      obtain ⟨front, behind, rfl, spellsCallee, spellsBehind⟩ := spells_append.mp spells
      obtain ⟨opening, others, rfl, opens, spellsOthers⟩ := spells_cons.mp spellsBehind
      obtain ⟨inner, back, rfl, spellsInner, spellsBack⟩ := spells_append.mp spellsOthers
      obtain ⟨closing, rfl, rfl⟩ := spells_singleton.mp spellsBack
      have items : Together 1 inner := by
        refine .divided ?_ spellsInner
        intro item member used spells
        obtain ⟨argument, given, rfl⟩ := List.mem_map.mp member
        exact (each argument given used spells).mono (Nat.zero_le 1)
      exact (ih front spellsCallee).append (.parenthesized opens closes items)
  | @unary operator operand operates _ _ ih =>
      intro used spells
      rw [marks] at spells
      obtain ⟨token, back, rfl, rfl, spellsBack⟩ := spells_cons.mp spells
      have apart : token.kind.isPlain = true := by
        simp only [Grammar.isUnary, Bool.or_eq_true, beq_iff_eq] at operates
        rcases operates with kind | kind <;> simp [kind, TokenKind.isPlain]
      exact (Together.plain apart).append (ih back spellsBack)
  | @binary left right operator level operates _ highest _ _ _ _ ih second
  | @logical left right operator level operates _ highest _ _ _ _ _ ih second =>
      intro used spells
      rw [marks] at spells
      obtain ⟨front, behind, rfl, spellsLeft, spellsBehind⟩ := spells_append.mp spells
      obtain ⟨token, back, rfl, rfl, spellsRight⟩ := spells_cons.mp spellsBehind
      have apart := TokenKind.isPlain_of_grip? operates (by omega)
      exact (ih front spellsLeft).append ((Together.plain apart).append (second back spellsRight))
  | conditional asks _ _ _ _ ih first second =>
      intro used spells
      rw [marks] at spells
      obtain ⟨front, behind, rfl, spellsCondition, spellsBehind⟩ := spells_append.mp spells
      obtain ⟨token, others, rfl, rfl, spellsOthers⟩ := spells_cons.mp spellsBehind
      obtain ⟨inner, rest, rfl, spellsInner, spellsRest⟩ := spells_append.mp spellsOthers
      obtain ⟨colon, back, rfl, isColon, spellsBack⟩ := spells_cons.mp spellsRest
      have colonKind : colon.kind = .colon := isColon
      have question : Together 0 [token] := .plain (by simp [asks, TokenKind.isPlain])
      have divider : Together 0 [colon] := .plain (by simp [colonKind, TokenKind.isPlain])
      exact (ih front spellsCondition).append (question.append
        ((first inner spellsInner).append (divider.append (second back spellsBack))))
  | assign named _ ih =>
      intro used spells
      rw [marks] at spells
      obtain ⟨token, others, rfl, rfl, spellsOthers⟩ := spells_cons.mp spells
      obtain ⟨equals, back, rfl, isEqual, spellsBack⟩ := spells_cons.mp spellsOthers
      have equalKind : equals.kind = .equal := isEqual
      have name : Together 0 [token] := .plain (by simp [named, TokenKind.isPlain])
      have sign : Together 0 [equals] := .plain (by simp [equalKind, TokenKind.isPlain])
      exact name.append (sign.append (ih back spellsBack))

/-! ### Parts -/

/-- The first part of a sequence is the writing of an expression, up to the end or to a comma. -/
theorem segments_of_together {used : List Token} (together : Together 0 used) :
    segments 0 used = [used] ∧
      ∀ comma back, comma.kind = .comma → segments 0 (used ++ comma :: back)
        = used :: segments 0 back := by
  constructor
  · have whole := together 0 [] (Nat.le_refl 0)
    rw [List.append_nil] at whole
    rw [whole]
    simp [segments]
  · intro comma back divides
    rw [together 0 _ (Nat.le_refl 0), segments, if_pos ⟨divides, rfl⟩]
    simp

/-- The parts of some tokens are the writings of canonical expressions within so many levels. -/
def Divides (room : Nat) (tokens : List Token) (parts : List Expr) : Prop :=
  (∀ part ∈ parts, part.Canonical ∧ part.levels < room) ∧
    List.Forall₂ (fun segment part => segment ≠ [] ∧ Spells segment part.marks)
      (segments 0 tokens) parts

theorem Expr.Canonical.ne_nil {expression : Expr} {used : List Token}
    (canonical : expression.Canonical) (spells : Spells used expression.marks) : used ≠ [] := by
  intro none
  have starts := canonical.starts used spells
  rw [none] at starts
  cases starts

theorem nextGrip?_comma {comma : Token} (divides : comma.kind = .comma) (rest : List Token) :
    nextGrip? (comma :: rest) = none := by
  simp [nextGrip?, divides, TokenKind.grip?]

section

variable {room : Nat} {first last : Expr} {front back : List Token}

theorem Divides.single {used : List Token} (stands : Expr.Stands 0 0 room first used []) :
    Divides room used [first] := by
  have together := stands.canonical.together used stands.spells
  refine ⟨by simp [stands.canonical, stands.shallow], ?_⟩
  rw [(segments_of_together together).1]
  exact .cons ⟨stands.canonical.ne_nil stands.spells, stands.spells⟩ .nil

theorem Divides.cons {parts : List Expr} {comma : Token} (isComma : comma.kind = .comma)
    {rest : List Token} (stands : Expr.Stands 0 0 room first front rest)
    (divides : Divides room back parts) : Divides room (front ++ comma :: back) (first :: parts) := by
  have together := stands.canonical.together front stands.spells
  refine ⟨List.forall_mem_cons.mpr ⟨⟨stands.canonical, stands.shallow⟩, divides.1⟩, ?_⟩
  rw [(segments_of_together together).2 comma back isComma]
  exact .cons ⟨stands.canonical.ne_nil stands.spells, stands.spells⟩ divides.2

theorem divides_of_rounds {rest : List Token} (rounds : lastOf room first last back rest) :
    rest = [] → ∀ front, Expr.Stands 0 0 room first front (back ++ rest) →
      ∃ dropped, Divides room (front ++ back) (dropped ++ [last]) := by
  induction rounds with
  | @stop first rest stopped =>
      intro none front stands
      subst none
      rw [List.append_nil]
      exact ⟨[], .single stands⟩
  | @more first middle last taken back rest stepped others ih =>
      intro none front stands
      rcases stepped with ⟨comma, own, rfl, isComma, expression, standsNext, same⟩ | ⟨_, same, _⟩
      · cases same
        obtain ⟨dropped, divides⟩ := ih none own standsNext
        exact ⟨first :: dropped, .cons (beq_iff_eq.mp isComma) stands divides⟩
      · cases same

theorem stands_of_free {used rest : List Token} (canonical : first.Canonical)
    (shallow : first.levels < room) (spells : Spells used first.marks)
    (free : nextGrip? rest = none) : Expr.Stands 0 0 room first used rest :=
  ⟨canonical, Nat.zero_le _, shallow, spells, Expr.ends_of_none free⟩

/-- The first of some parts is written up to the end, or up to a comma with the others behind it. -/
theorem Divides.cases_cons {parts : List Expr} {tokens : List Token}
    (divides : Divides room tokens (first :: parts)) :
    first.Canonical ∧ first.levels < room ∧
      (parts = [] ∧ Spells tokens first.marks ∨
        ∃ front comma back, tokens = front ++ comma :: back ∧ comma.kind = .comma ∧
          Spells front first.marks ∧ Divides room back parts) := by
  obtain ⟨fine, spelled⟩ := divides
  obtain ⟨⟨canonical, shallow⟩, fineOthers⟩ := List.forall_mem_cons.mp fine
  refine ⟨canonical, shallow, ?_⟩
  generalize divided : segments 0 tokens = found at spelled
  cases spelled with
  | @cons segment _ others _ here there =>
      rcases segments_eq_cons divided with ⟨rfl, rfl⟩ | ⟨comma, back, rfl, isComma, rfl⟩
      · cases there
        exact Or.inl ⟨rfl, here.2⟩
      · exact Or.inr ⟨segment, comma, back, rfl, isComma, here.2, fineOthers, there⟩

theorem Divides.ne_nil {parts : List Expr} {tokens : List Token}
    (divides : Divides room tokens parts) : parts ≠ [] := by
  intro none
  have same := divides.2.length_eq
  rw [none] at same
  exact segments_ne_nil 0 tokens (List.length_eq_zero_iff.mp same)

/-- The induction is on the parts in front of the last one. -/
theorem rounds_of_divides {dropped : List Expr} {tokens : List Token}
    (divides : Divides room tokens (dropped ++ [last])) :
    Phrase.andThen (Expr.Stands 0 0 room) (lastOf room) last tokens [] := by
  induction dropped generalizing tokens with
  | nil =>
      obtain ⟨canonical, shallow, ⟨_none, spells⟩ | ⟨_, _, _, _, _, _, others⟩⟩ := divides.cases_cons
      · exact ⟨last, tokens, [], (List.append_nil tokens).symm,
          stands_of_free canonical shallow spells rfl, .stop (Or.inr ⟨rfl, rfl, rfl⟩)⟩
      · exact absurd rfl others.ne_nil
  | cons part dropped ih =>
      obtain ⟨canonical, shallow, ⟨none, _⟩ | ⟨front, comma, back, rfl, isComma, spells, others⟩⟩ :=
        divides.cases_cons
      · exact absurd none (List.append_ne_nil_of_right_ne_nil dropped (List.cons_ne_nil last []))
      · obtain ⟨next, own, behind, rfl, stands, rounds⟩ := ih others
        have stepped : Phrase.either (· == .comma) (fun _ given used rest =>
              ∃ expression, Expr.Stands 0 0 room expression used rest ∧ given = some expression)
            (fun given used _ => given = none ∧ used = []) (some next) (comma :: own)
            (behind ++ []) :=
          Or.inl ⟨comma, own, rfl, beq_iff_eq.mpr isComma, next, stands, rfl⟩
        exact ⟨part, front, comma :: own ++ behind, rfl,
          stands_of_free canonical shallow spells (nextGrip?_comma isComma _),
          .more stepped rounds⟩

end

/-- No two canonical expressions are written the same way. -/
theorem Expr.Canonical.unique {first second : Expr} {tokens : List Token}
    (canonical : first.Canonical) (also : second.Canonical) (spells : Spells tokens first.marks)
    (spellsSecond : Spells tokens second.marks) : first = second := by
  let limit := max first.levels second.levels + 1
  have good : (Grammar.rules (limit + 1) limit).toInnerExpr.Good 1 limit :=
    rules_good (limit + 1) (Nat.add_comm 1 limit)
  have stands : Expr.Stands 0 0 limit first tokens [] :=
    stands_of_free canonical (Nat.lt_succ_of_le (Nat.le_max_left _ _)) spells rfl
  have standsSecond : Expr.Stands 0 0 limit second tokens [] :=
    stands_of_free also (Nat.lt_succ_of_le (Nat.le_max_right _ _)) spellsSecond rfl
  exact ((good.expression 0).unique stands standsSecond rfl).1

theorem unique_of_spells {segments : List (List Token)} {parts others : List Expr}
    (spelled : List.Forall₂ (fun segment part => Spells segment part.marks) segments parts)
    (also : List.Forall₂ (fun segment part => Spells segment part.marks) segments others)
    (canonical : ∀ part ∈ parts, part.Canonical) (canonicalOthers : ∀ part ∈ others, part.Canonical) :
    parts = others := by
  induction spelled generalizing others with
  | nil =>
      cases also
      rfl
  | cons spells _ ih =>
      cases also with
      | cons spellsOther alsoOthers =>
          obtain ⟨here, there⟩ := List.forall_mem_cons.mp canonical
          obtain ⟨hereOther, thereOther⟩ := List.forall_mem_cons.mp canonicalOthers
          rw [here.unique hereOther spells spellsOther, ih alsoOthers there thereOther]

/-- A sequence of tokens parses as an expression just when the parts between its outer commas are
the writings of canonical expressions within the levels that may be open, and then to the last of
them. No other canonical expressions are written so. -/
theorem parseExpression_iff_segments (tokens : List Token) (expression : Expr) :
    (parseExpression tokens = .ok expression ↔
      ∃ dropped : List Expr,
        (∀ part ∈ dropped ++ [expression], part.Canonical ∧ part.levels < maxNesting) ∧
        List.Forall₂ (fun segment part => segment ≠ [] ∧ Spells segment part.marks)
          (segments 0 (tokens.takeWhile (·.kind != .endOfInput))) (dropped ++ [expression])) ∧
    ∀ parts others : List Expr, (∀ part ∈ parts, part.Canonical) →
      (∀ part ∈ others, part.Canonical) →
      List.Forall₂ (fun segment part => Spells segment part.marks)
        (segments 0 (tokens.takeWhile (·.kind != .endOfInput))) parts →
      List.Forall₂ (fun segment part => Spells segment part.marks)
        (segments 0 (tokens.takeWhile (·.kind != .endOfInput))) others →
      parts = others := by
  constructor
  · unfold parseExpression
    rw [parseExpressionWithin_iff]
    constructor
    · intro read
      obtain ⟨first, front, back, whole, stands, rounds⟩ := read
      rw [whole]
      exact divides_of_rounds rounds rfl front stands
    · intro divided
      obtain ⟨dropped, divides⟩ := divided
      exact rounds_of_divides divides
  · intro parts others canonical canonicalOthers spelled also
    exact unique_of_spells spelled also canonical canonicalOthers

end Lox
