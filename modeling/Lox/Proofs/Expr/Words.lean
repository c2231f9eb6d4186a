import Mathlib
import Lox.Expr.Polish
import Lox.Expr.ReversePolish
import Lox.Proofs.Grammar.Segments
import Lox.Proofs.Number.NumberText
set_option autoImplicit false

/-! The words of an expression. When an expression is read from a source, the lexemes of its
operators and names tell what they are, and so does the text of a literal that is no string and no
infinity; so a part of an expression can be put together again from its word and its operands. -/

namespace Lox

open Piece (isWordStart isWordPart)

/-! ### Lexemes -/

namespace Token

/-- The token without its line. -/
def bare (token : Token) : Token :=
  { token with line := 0 }

/-- The token that closes a call, on no line. -/
def closing : Token :=
  ⟨.rightParen, ")", .nil, 0⟩

/-- The mark or the word that a lexeme is, on no line. -/
def ofLexeme (text : String) : Token :=
  ⟨(Piece.markKind? text.toList).getD (TokenKind.ofWord text), text, .nil, 0⟩

end Token

theorem Piece.markKind?_word {first : Char} {parts : List Char} (starts : isWordStart first = true)
    (inside : ∀ character ∈ parts, isWordPart character = true) :
    markKind? (first :: parts) = none := by
  have plain : isPlain first = true := by
    unfold isPlain
    rw [starts, Bool.or_true]
  have noSlash := (isWordPart_other (isWordPart_of_wordStart starts)).2.1
  cases parts with
  | nil =>
      change (if first = '/' then _ else _) = _
      rw [if_neg noSlash, single?_plain plain, equalable?_plain plain]
      rfl
  | cons second others =>
      unfold markKind?
      split
      · next same => cases same
      · next same =>
          cases same
          cases inside '=' List.mem_cons_self
      · rfl

/-- Marks and words are what their lexemes are. -/
theorem Token.Written.bare_eq {token : Token} (written : token.Written)
    (noLiteral : Grammar.isLiteral token.kind = false) : token.bare = .ofLexeme token.lexeme := by
  cases written with
  | mark line known =>
      unfold ofLexeme
      rw [markKind?_marks _ known]
      rfl
  | string content line inside => cases noLiteral
  | number whole places line nonempty digits => cases noLiteral
  | word first parts line starts inside =>
      unfold ofLexeme
      rw [String.toList_ofList, Piece.markKind?_word starts inside]
      rfl

/-- A word that is no keyword. -/
def IsName (text : String) : Prop :=
  TokenKind.ofWord text = .identifier ∧ ∃ first parts, text.toList = first :: parts ∧
    isWordStart first = true ∧ ∀ character ∈ parts, isWordPart character = true

theorem Token.Written.isName {token : Token} (written : token.Written)
    (named : token.kind = .identifier) : IsName token.lexeme := by
  cases written with
  | mark line known =>
      have others : ∀ mark ∈ TokenKind.marks, mark.2 ≠ .identifier := by decide
      exact absurd named (others _ known)
  | string content line inside => cases named
  | number whole places line nonempty digits => cases named
  | word first parts line starts inside =>
      exact ⟨named, first, parts, String.toList_ofList, starts, inside⟩

/-! ### Literals -/

/-- Neither a string nor a number that is none or is infinite. -/
def Literal.Plain : Literal → Prop
  | .nil => True
  | .bool _ => True
  | .number value => ∃ negative magnitude,
    Binary64.read value.toBits = .finite negative magnitude
  | .string _ => False

/-- The expression of one word. -/
def Expr.operand (word : String) : Expr :=
  match Numeral.signed? word.toList with
  | some (negative, decimal) =>
    .literal (.number (Numeral.number negative decimal.digits decimal.exponent))
  | none =>
    if word = "nil" then .literal .nil
    else if word = "true" then .literal (.bool true)
    else if word = "false" then .literal (.bool false)
    else .variable (.ofLexeme word)

theorem Number.number_signed {number : Float} {negative : Bool} {magnitude : Nat}
    (finite : Binary64.read number.toBits = .finite negative magnitude) :
    ∃ decimal, Numeral.signed? (Number.text number).toList = some (negative, decimal) ∧
      Numeral.number negative decimal.digits decimal.exponent = number := by
  obtain ⟨decimal, read, rounds⟩ := signed?_write finite
  obtain ⟨less, fields⟩ := Binary64.read_finite finite
  refine ⟨decimal, read, ?_⟩
  unfold Numeral.number
  rw [Numeral.magnitude_eq rounds (Nat.le_of_lt less)]
  dsimp only
  rw [← fields, UInt64.ofNat_toNat, Float.ofBits_toBits]

theorem Expr.operand_literal {value : Literal} (plain : value.Plain) :
    operand value.text = .literal value := by
  cases value with
  | nil => rfl
  | bool truth => cases truth <;> rfl
  | number value =>
      obtain ⟨negative, magnitude, finite⟩ := plain
      obtain ⟨decimal, read, same⟩ := Number.number_signed finite
      unfold operand Literal.text
      rw [read]
      exact congrArg (fun number => Expr.literal (.number number)) same
  | string text => exact plain.elim

theorem IsName.signed? {text : String} (named : IsName text) :
    Numeral.signed? text.toList = none := by
  obtain ⟨_, first, parts, same, starts, _⟩ := named
  rw [same]
  unfold Numeral.signed?
  split
  · next dash =>
      cases dash
      cases starts
  · cases read : Numeral.decimal? (first :: parts) with
    | none => rfl
    | some decimal =>
        obtain ⟨_, _, cut, isDigit⟩ := Numeral.isDigit_head read
        cases cut
        rw [Piece.isDigit_of_wordStart starts] at isDigit
        cases isDigit

theorem IsName.ne_keyword {text : String} (named : IsName text) :
    ∀ entry ∈ TokenKind.keywords, text ≠ entry.1 := by
  have others : ∀ entry ∈ TokenKind.keywords, TokenKind.ofWord entry.1 ≠ .identifier := by
    decide +kernel
  rintro entry listed rfl
  exact others entry listed named.1

theorem Expr.operand_name {text : String} (named : IsName text) :
    operand text = .variable (.ofLexeme text) := by
  unfold operand
  rw [named.signed?]
  dsimp only
  rw [if_neg (named.ne_keyword ("nil", .nilWord) (by decide)),
    if_neg (named.ne_keyword ("true", .trueWord) (by decide)),
    if_neg (named.ne_keyword ("false", .falseWord) (by decide))]

/-! ### Words -/

/-- What ends a word. -/
def isBreak (character : Char) : Bool :=
  character == ' ' || character == '(' || character == ')'

/-- Some characters without a blank or a parenthesis. -/
def IsWord (text : String) : Prop :=
  text.toList ≠ [] ∧ ∀ character ∈ text.toList, isBreak character = false

instance (text : String) : Decidable (IsWord text) :=
  decidable_of_iff (text.toList ≠ [] ∧ text.toList.all (!isBreak ·) = true) (by simp [IsWord])

theorem isBreak_wordPart {character : Char} (part : isWordPart character = true) :
    isBreak character = false := by
  apply eq_false_of_ne_true
  intro breaks
  simp only [isBreak, Bool.or_eq_true, beq_iff_eq] at breaks
  rcases breaks with (rfl | rfl) | rfl
  · cases part
  · cases part
  · cases part

theorem IsName.isWord {text : String} (named : IsName text) : IsWord text := by
  obtain ⟨_, first, parts, same, starts, inside⟩ := named
  unfold IsWord
  rw [same]
  refine ⟨List.cons_ne_nil first parts, List.forall_mem_cons.mpr ⟨?_, ?_⟩⟩
  · exact isBreak_wordPart (Piece.isWordPart_of_wordStart starts)
  · exact fun character among => isBreak_wordPart (inside character among)

theorem Number.isWord_text {number : Float} {negative : Bool} {magnitude : Nat}
    (finite : Binary64.read number.toBits = .finite negative magnitude) : IsWord (text number) := by
  unfold IsWord text
  rw [write_finite finite, String.toList_ofList]
  have inside : ∀ character ∈ writeMagnitude .printed magnitude, isBreak character = false := by
    intro character among
    rcases mem_writeMagnitude magnitude character among with digit | mark
    · exact isBreak_wordPart (Piece.isWordPart_of_digit digit)
    · have others : ∀ mark ∈ ['.', 'E', '-'], isBreak mark = false := by simp [isBreak]
      exact others character mark
  obtain ⟨decimal, read, _⟩ := decimal?_writeMagnitude magnitude
  obtain ⟨first, others, same, _⟩ := Numeral.isDigit_head read
  cases negative with
  | true => exact ⟨List.cons_ne_nil _ _, List.forall_mem_cons.mpr ⟨rfl, inside⟩⟩
  | false => exact ⟨by rw [same]; exact List.cons_ne_nil _ _, inside⟩

theorem Literal.Plain.isWord {value : Literal} (plain : value.Plain) : IsWord value.text := by
  cases value with
  | nil => decide
  | bool truth => cases truth <;> decide
  | number value =>
      obtain ⟨negative, magnitude, finite⟩ := plain
      exact Number.isWord_text finite
  | string text => exact plain.elim

/-! ### Expressions from sources -/

/-- A token with one of the lexemes, which is all there is to it but its line. -/
structure Token.Known (words : List String) (token : Token) : Prop where
  among : token.lexeme ∈ words
  bare : token.bare = .ofLexeme token.lexeme

theorem Token.Written.known {token : Token} (written : token.Written) (words : List String)
    (wanted : TokenKind → Bool)
    (spelled : ∀ entry ∈ TokenKind.marks ++ TokenKind.keywords, wanted entry.2 = true →
      entry.1 ∈ words)
    (fixed : wanted .string = false ∧ wanted .number = false ∧ wanted .identifier = false)
    (isWanted : wanted token.kind = true) : token.Known words := by
  have noLiteral : Grammar.isLiteral token.kind = false := by
    apply eq_false_of_ne_true
    intro isLiteral
    rcases literal_kind isLiteral with same | same
    · rw [same, fixed.2.1] at isWanted
      cases isWanted
    · rw [same, fixed.1] at isWanted
      cases isWanted
  refine ⟨?_, written.bare_eq noLiteral⟩
  cases written with
  | @mark text kind line known => exact spelled (text, kind) (List.mem_append_left _ known) isWanted
  | string content line inside => cases noLiteral
  | number whole places line nonempty digits => cases noLiteral
  | word first parts line starts inside =>
      rcases ofWord_known (String.ofList (first :: parts)) with name | listed
      · rw [name, fixed.2.2] at isWanted
        cases isWanted
      · exact spelled _ (List.mem_append_right _ listed) isWanted

namespace Expr

def unaryWords : List String :=
  ["-", "!"]

def logicalWords : List String :=
  ["and", "or"]

/-- The operators with two operands that are always both evaluated. -/
def binaryWords : List String :=
  ["!=", "==", ">", ">=", "<", "<=", "-", "+", "/", "*"]

/-- No literal is a string, or a number that is none or is infinite. -/
def Plain (expression : Expr) : Prop :=
  ∀ value, .literal value ∈ expression.marks → value.Plain

end Expr

/-- What a mark has to be for its word to tell what it is. -/
def Mark.Legible : Mark → Prop
  | token exact => exact.Written
  | kind _ => True
  | literal value => value.Plain

/-- Whether the level of a kind is between two others. -/
def TokenKind.grips (least most : Nat) (kind : TokenKind) : Bool :=
  kind.grip?.any fun level => least ≤ level && level ≤ most

theorem TokenKind.grips_of_grip? {kind : TokenKind} {level least most : Nat}
    (grips : kind.grip? = some level) (lowest : least ≤ level) (highest : level ≤ most) :
    kind.grips least most = true := by
  simp [TokenKind.grips, grips, lowest, highest]

namespace Expr

/-- The words of the expression tell what its tokens and literals are. -/
inductive Legible : Expr → Prop
  | literal {value : Literal} (plain : value.Plain) : Legible (.literal value)
  | variable {name : Token} (named : IsName name.lexeme) (bare : name.bare = .ofLexeme name.lexeme) :
      Legible (.variable name)
  | assign {name : Token} {value : Expr} (named : IsName name.lexeme)
      (bare : name.bare = .ofLexeme name.lexeme) (legible : Legible value) :
      Legible (.assign name value)
  | unary {operator : Token} {operand : Expr} (known : operator.Known unaryWords)
      (legible : Legible operand) : Legible (.unary operator operand)
  | binary {left right : Expr} {operator : Token} (known : operator.Known binaryWords)
      (first : Legible left) (second : Legible right) : Legible (.binary left operator right)
  | logical {left right : Expr} {operator : Token} (known : operator.Known logicalWords)
      (first : Legible left) (second : Legible right) : Legible (.logical left operator right)
  | conditional {condition thenBranch elseBranch : Expr} {question : Token}
      (known : question.Known ["?"]) (decides : Legible condition) (first : Legible thenBranch)
      (second : Legible elseBranch) :
      Legible (.conditional condition question thenBranch elseBranch)
  | call {callee : Expr} {paren : Token} {arguments : List Expr} (calls : Legible callee)
      (given : ∀ argument ∈ arguments, Legible argument) :
      Legible (.call callee paren arguments)
  | grouping {inner : Expr} (legible : Legible inner) : Legible (.grouping inner)

theorem forall_marksAll {good : Mark → Prop} {arguments : List Expr}
    (holds : ∀ mark ∈ Expr.marksAll arguments, good mark) :
    ∀ argument ∈ arguments, ∀ mark ∈ argument.marks, good mark := by
  induction arguments with
  | nil => exact fun argument member => nomatch member
  | cons first others ih =>
      cases others with
      | nil =>
          rw [marksAll] at holds
          exact List.forall_mem_singleton.mpr holds
      | cons second others =>
          rw [marksAll] at holds
          obtain ⟨here, there⟩ := List.forall_mem_append.mp holds
          exact List.forall_mem_cons.mpr ⟨here, ih (List.forall_mem_cons.mp there).2⟩

theorem Canonical.legible {expression : Expr} (canonical : expression.Canonical)
    (legible : ∀ mark ∈ expression.marks, mark.Legible) : expression.Legible := by
  induction canonical with
  | literal value =>
      rw [marks, List.forall_mem_singleton] at legible
      exact .literal legible
  | «variable» named =>
      rw [marks, List.forall_mem_singleton] at legible
      exact .variable (legible.isName named) (legible.bare_eq (by rw [named]; rfl))
  | grouping canonical ih =>
      rw [marks, List.forall_mem_cons, List.forall_mem_append] at legible
      exact .grouping (ih legible.2.1)
  | call calls tight closes few given ihCallee ih =>
      rw [marks, List.forall_mem_append, List.forall_mem_cons, List.forall_mem_append] at legible
      obtain ⟨callee, _, arguments, _⟩ := legible
      exact .call (ihCallee callee) fun argument member =>
        ih argument member (forall_marksAll arguments argument member)
  | unary operates canonical tight ih =>
      rw [marks, List.forall_mem_cons] at legible
      obtain ⟨written, operand⟩ := legible
      have known := Token.Written.known written unaryWords Grammar.isUnary (by decide) (by decide)
        operates
      exact .unary known (ih operand)
  | binary operates lowest highest first leftTight second rightTight ihLeft ihRight =>
      rw [marks, List.forall_mem_append, List.forall_mem_cons] at legible
      obtain ⟨left, written, right⟩ := legible
      have known := Token.Written.known written binaryWords (TokenKind.grips 4 7) (by decide)
        (by decide) (TokenKind.grips_of_grip? operates lowest highest)
      exact .binary known (ihLeft left) (ihRight right)
  | logical operates lowest highest first leftTight second rightTight edge ihLeft ihRight =>
      rw [marks, List.forall_mem_append, List.forall_mem_cons] at legible
      obtain ⟨left, written, right⟩ := legible
      have known := Token.Written.known written logicalWords (TokenKind.grips 1 2) (by decide)
        (by decide) (TokenKind.grips_of_grip? operates lowest highest)
      exact .logical known (ihLeft left) (ihRight right)
  | conditional asks decides tight first second ih ihFirst ihSecond =>
      rw [marks, List.forall_mem_append, List.forall_mem_cons, List.forall_mem_append,
        List.forall_mem_cons] at legible
      obtain ⟨condition, written, thenBranch, _, elseBranch⟩ := legible
      have known := Token.Written.known written ["?"] (· == .question) (by decide) (by decide)
        (beq_iff_eq.mpr asks)
      exact .conditional known (ih condition) (ihFirst thenBranch) (ihSecond elseBranch)
  | assign named canonical ih =>
      rw [marks, List.forall_mem_cons, List.forall_mem_cons] at legible
      obtain ⟨written, _, value⟩ := legible
      exact .assign (written.isName named) (written.bare_eq (by rw [named]; rfl)) (ih value)

end Expr

/-- The source has tokens, and they parse as the expression. -/
def Expr.ReadFrom (source : String) (expression : Expr) : Prop :=
  ∃ tokens, Token.scan source = .ok tokens ∧ parseExpression tokens = .ok expression

theorem Token.written_of_scan {source : String} {tokens : List Token}
    (scanned : Token.scan source = .ok tokens) :
    ∀ token ∈ tokens.takeWhile (·.kind != .endOfInput), token.Written := by
  obtain ⟨words, last, rfl, _whole, tiled⟩ := Token.scans_tiled (scan_scans source) scanned
  intro token among
  have inside := List.all_eq_true.mp List.all_takeWhile token among
  rcases List.mem_append.mp ((List.takeWhile_sublist _).subset among) with word | ended
  · obtain ⟨⟨gap, other⟩, member, rfl⟩ := List.mem_map.mp word
    obtain ⟨front, back, split⟩ := List.append_of_mem member
    exact (tiled.at split).2.2.1
  · rw [List.mem_singleton.mp ended] at inside
    cases inside

/-- The last of some expressions with commas between them is written with some of their tokens. -/
theorem stands_last {room : Nat} {first last : Expr} {back rest : List Token}
    (rounds : lastOf room first last back rest) {good : Token → Prop}
    (others : ∀ token ∈ back, good token) :
    ∀ front, Expr.Stands 0 0 room first front (back ++ rest) → (∀ token ∈ front, good token) →
      ∃ used, last.Canonical ∧ Spells used last.marks ∧ ∀ token ∈ used, good token := by
  induction rounds with
  | @stop first rest stopped =>
      intro front stands all
      exact ⟨front, stands.canonical, stands.spells, all⟩
  | @more first middle last taken back rest stepped rounds ih =>
      intro front stands all
      obtain ⟨here, there⟩ := List.forall_mem_append.mp others
      rcases stepped with ⟨comma, own, rfl, _isComma, expression, standsNext, same⟩ | ⟨_, same, _⟩
      · cases same
        exact ih there own standsNext (List.forall_mem_cons.mp here).2
      · cases same

theorem Spells.written {tokens : List Token} {marks : List Mark} (spells : Spells tokens marks)
    (written : ∀ token ∈ tokens, token.Written) :
    ∀ token, .token token ∈ marks → token.Written := by
  induction spells with
  | nil => exact fun token among => nomatch among
  | cons fits spells ih =>
      obtain ⟨here, there⟩ := List.forall_mem_cons.mp written
      intro token among
      rcases List.mem_cons.mp among with rfl | later
      · cases fits
        exact here
      · exact ih there token later

theorem Expr.ReadFrom.legible {source : String} {expression : Expr}
    (read : expression.ReadFrom source) (plain : expression.Plain) : expression.Legible := by
  obtain ⟨tokens, scanned, parsed⟩ := read
  obtain ⟨first, front, back, split, stands, rounds⟩ :=
    (parseExpressionWithin_iff maxNesting tokens expression).mp parsed
  have written := Token.written_of_scan scanned
  rw [split] at written
  obtain ⟨here, there⟩ := List.forall_mem_append.mp written
  obtain ⟨used, canonical, spells, good⟩ := stands_last rounds there front stands here
  apply canonical.legible
  intro mark among
  cases mark with
  | token token => exact spells.written good token among
  | kind kind => trivial
  | literal value => exact plain value among

/-! ### Parts and wholes -/

namespace Expr

mutual

/-- The expression without the lines of its tokens, and with one token to close every call. -/
def bare : Expr → Expr
  | literal value => literal value
  | «variable» name => «variable» name.bare
  | assign name value => assign name.bare value.bare
  | unary operator operand => unary operator.bare operand.bare
  | binary left operator right => binary left.bare operator.bare right.bare
  | logical left operator right => logical left.bare operator.bare right.bare
  | conditional condition question thenBranch elseBranch =>
    conditional condition.bare question.bare thenBranch.bare elseBranch.bare
  | call callee _ arguments => call callee.bare .closing (Expr.bareAll arguments)
  | grouping inner => grouping inner.bare

def bareAll : List Expr → List Expr
  | [] => []
  | first :: others => first.bare :: Expr.bareAll others

end

theorem bareAll_eq (arguments : List Expr) : Expr.bareAll arguments = arguments.map bare := by
  induction arguments with
  | nil => rfl
  | cons first others ih => rw [bareAll, ih, List.map_cons]

/-- An expression from its leading word and its parts. -/
def operation (word : String) (parts : List Expr) : Option Expr :=
  if word = "=" then
    match parts with
    | [.variable name, value] => some (.assign name value)
    | _ => none
  else if word = "?:" then
    match parts with
    | [condition, thenBranch, elseBranch] =>
      some (.conditional condition (.ofLexeme "?") thenBranch elseBranch)
    | _ => none
  else if word = "call" then
    match parts with
    | callee :: arguments => some (.call callee .closing arguments)
    | [] => none
  else if word = "group" then
    match parts with
    | [inner] => some (.grouping inner)
    | _ => none
  else
    match parts with
    | [operand] => some (.unary (.ofLexeme word) operand)
    | [left, right] =>
      if word ∈ logicalWords then some (.logical left (.ofLexeme word) right)
      else some (.binary left (.ofLexeme word) right)
    | _ => none

theorem operation_unary {word : String} (among : word ∈ unaryWords) (operand : Expr) :
    operation word [operand] = some (.unary (.ofLexeme word) operand) := by
  have cases : word = "-" ∨ word = "!" := by simpa [unaryWords] using among
  rcases cases with rfl | rfl <;> rfl

theorem operation_logical {word : String} (among : word ∈ logicalWords) (left right : Expr) :
    operation word [left, right] = some (.logical left (.ofLexeme word) right) := by
  have cases : word = "and" ∨ word = "or" := by simpa [logicalWords] using among
  rcases cases with rfl | rfl <;> rfl

theorem operation_binary {word : String} (among : word ∈ binaryWords) (left right : Expr) :
    operation word [left, right] = some (.binary left (.ofLexeme word) right) := by
  have others : ∀ word ∈ binaryWords, word ≠ "=" ∧ word ≠ "?:" ∧ word ≠ "call" ∧ word ≠ "group" ∧
      word ∉ logicalWords := by decide
  obtain ⟨noAssign, noConditional, noCall, noGroup, noLogical⟩ := others word among
  unfold operation
  rw [if_neg noAssign, if_neg noConditional, if_neg noCall, if_neg noGroup]
  exact if_neg noLogical

end Expr

end Lox
