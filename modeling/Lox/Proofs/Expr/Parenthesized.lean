import Lox.Proofs.Expr.Words
set_option autoImplicit false

/-! Polish forms are read in one way. A form shows words, and lists in parentheses with a word in
front; the parentheses match up in one way only, and every list has one operation that it can stand
for. -/

namespace Lox

open Piece (Stops takeWhile_stops dropWhile_stops)

/-- A word, or a word with parts behind it. -/
inductive Shape where
  | word (text : String)
  | list (head : String) (parts : List Shape)

namespace Shape

mutual

def text : Shape → List Char
  | word text => text.toList
  | list head parts => '(' :: (head.toList ++ Shape.textAll parts ++ [')'])

def textAll : List Shape → List Char
  | [] => []
  | first :: others => ' ' :: first.text ++ Shape.textAll others

end

/-- All that stands where a word is expected is one. -/
inductive Tame : Shape → Prop
  | word {text : String} (isWord : IsWord text) : Tame (.word text)
  | list {head : String} {parts : List Shape} (isWord : IsWord head)
      (each : ∀ part ∈ parts, Tame part) : Tame (.list head parts)

/-! ### One shape for a text -/

section

variable {rest others : List Char}

/-- The text does not go on with a word. -/
def Ends (rest : List Char) : Prop :=
  Stops (fun character => !isBreak character) rest

theorem ends_cons {mark : Char} (breaks : isBreak mark = true) : Ends (mark :: rest) := by
  intro next first
  cases first
  exact congrArg not breaks

theorem word_append {first second : String} (isWord : IsWord first) (also : IsWord second)
    (ends : Ends rest) (endsOthers : Ends others)
    (same : first.toList ++ rest = second.toList ++ others) : first = second ∧ rest = others := by
  have inside : ∀ character ∈ first.toList, (!isBreak character) = true :=
    fun character among => by rw [isWord.2 character among]; rfl
  have insideSecond : ∀ character ∈ second.toList, (!isBreak character) = true :=
    fun character among => by rw [also.2 character among]; rfl
  constructor
  · apply String.toList_inj.mp
    rw [← takeWhile_stops inside ends, same, takeWhile_stops insideSecond endsOthers]
  · rw [← dropWhile_stops inside ends, same, dropWhile_stops insideSecond endsOthers]

/-- A word does not start as a list does. -/
theorem word_ne_list {text : String} (isWord : IsWord text) :
    text.toList ++ rest ≠ '(' :: others := by
  intro same
  cases found : text.toList with
  | nil => exact isWord.1 found
  | cons first more =>
      rw [found] at same
      have unbroken := isWord.2 first (by rw [found]; exact List.mem_cons_self)
      rw [(List.cons.inj same).1] at unbroken
      cases unbroken

theorem ends_textAll (parts : List Shape) : Ends (Shape.textAll parts ++ ')' :: rest) := by
  cases parts with
  | nil => exact ends_cons rfl
  | cons first parts => exact ends_cons rfl

/-- Where a shape begins, its text tells where it stops and what it is. -/
def Settled (first : Shape) : Prop :=
  ∀ (second : Shape) (rest others : List Char), second.Tame → Ends rest → Ends others →
    first.text ++ rest = second.text ++ others → first = second ∧ rest = others

theorem textAll_append {parts seconds : List Shape} (each : ∀ part ∈ parts, part.Settled)
    (tame : ∀ part ∈ seconds, part.Tame)
    (same : Shape.textAll parts ++ ')' :: rest = Shape.textAll seconds ++ ')' :: others) :
    parts = seconds ∧ rest = others := by
  induction parts generalizing seconds with
  | nil =>
      cases seconds with
      | nil => exact ⟨rfl, (List.cons.inj same).2⟩
      | cons second seconds => cases (List.cons.inj same).1
  | cons first parts ih =>
      cases seconds with
      | nil => cases (List.cons.inj same).1
      | cons second seconds =>
          obtain ⟨settled, eachOther⟩ := List.forall_mem_cons.mp each
          obtain ⟨tameSecond, tameOthers⟩ := List.forall_mem_cons.mp tame
          simp only [textAll, List.cons_append, List.append_assoc, List.cons.injEq, true_and]
            at same
          obtain ⟨rfl, more⟩ :=
            settled second _ _ tameSecond (ends_textAll parts) (ends_textAll seconds) same
          obtain ⟨rfl, last⟩ := ih eachOther tameOthers more
          exact ⟨rfl, last⟩

/-- The parentheses of a text match up in one way. -/
theorem Tame.settled {first : Shape} (tame : first.Tame) : first.Settled := by
  induction tame with
  | @word text isWord =>
      intro second rest others tame ends endsOthers same
      cases tame with
      | word also =>
          obtain ⟨rfl, behind⟩ := word_append isWord also ends endsOthers same
          exact ⟨rfl, behind⟩
      | list _ _ => exact absurd same (word_ne_list isWord)
  | @list head parts isWord each ih =>
      intro second rest others tame ends endsOthers same
      cases tame with
      | word also => exact absurd same.symm (word_ne_list also)
      | @list other seconds also eachOther =>
          simp only [text, List.cons_append, List.append_assoc, List.cons.injEq, true_and,
            List.nil_append] at same
          obtain ⟨rfl, behind⟩ :=
            word_append isWord also (ends_textAll parts) (ends_textAll seconds) same
          obtain ⟨rfl, last⟩ := textAll_append ih eachOther behind
          exact ⟨rfl, last⟩

end

theorem text_injective {first second : Shape} (tame : first.Tame) (also : second.Tame)
    (same : first.text = second.text) : first = second := by
  have ends : Ends [] := by
    intro next first
    cases first
  exact (tame.settled second [] [] also ends ends (by rw [same])).1

/-! ### Shapes read as expressions -/

mutual

def read? : Shape → Option Expr
  | word text => some (Expr.operand text)
  | list head parts => (Shape.readAll? parts).bind (Expr.operation head)

def readAll? : List Shape → Option (List Expr)
  | [] => some []
  | first :: others =>
    first.read?.bind fun here => (Shape.readAll? others).map fun there => here :: there

end

end Shape

namespace Expr

mutual

/-- What the Polish form shows. -/
def shape : Expr → Shape
  | literal value => .word value.text
  | «variable» name => .word name.lexeme
  | assign name value => .list "=" [.word name.lexeme, value.shape]
  | unary operator operand => .list operator.lexeme [operand.shape]
  | binary left operator right => .list operator.lexeme [left.shape, right.shape]
  | logical left operator right => .list operator.lexeme [left.shape, right.shape]
  | conditional condition _ thenBranch elseBranch =>
    .list "?:" [condition.shape, thenBranch.shape, elseBranch.shape]
  | call callee _ arguments => .list "call" (callee.shape :: Expr.shapeAll arguments)
  | grouping inner => .list "group" [inner.shape]

def shapeAll : List Expr → List Shape
  | [] => []
  | first :: others => first.shape :: Expr.shapeAll others

end

end Expr

namespace Shape

theorem textAll_eq (parts : List Shape) :
    Shape.textAll parts = (parts.map text).flatMap (' ' :: ·) := by
  induction parts with
  | nil => rfl
  | cons first parts ih =>
      rw [textAll, ih]
      rfl

theorem intercalate_blank (head : List Char) (items : List (List Char)) :
    [' '].intercalate (head :: items) = head ++ items.flatMap (' ' :: ·) := by
  induction items generalizing head with
  | nil => rw [List.intercalate_singleton, List.flatMap_nil, List.append_nil]
  | cons first items ih =>
      rw [List.intercalate_cons_cons, ih, List.append_assoc]
      rfl

theorem list_text {head : String} {items : List String} {parts : List Shape}
    (same : items.map String.toList = parts.map text) :
    (parenthesized (head :: items)).toList = (list head parts).text := by
  unfold parenthesized
  rw [String.toList_append, String.toList_append, String.toList_intercalate, List.map_cons,
    text, textAll_eq, ← same, ← intercalate_blank]
  rfl

end Shape

namespace Expr

mutual

theorem polish_toList : (expression : Expr) → expression.polish.toList = expression.shape.text
  | literal value => rfl
  | «variable» name => rfl
  | assign name value => Shape.list_text (by simp [polish_toList value, Shape.text])
  | unary operator operand => Shape.list_text (by simp [polish_toList operand])
  | binary left operator right =>
    Shape.list_text (by simp [polish_toList left, polish_toList right])
  | logical left operator right =>
    Shape.list_text (by simp [polish_toList left, polish_toList right])
  | conditional condition question thenBranch elseBranch =>
    Shape.list_text
      (by simp [polish_toList condition, polish_toList thenBranch, polish_toList elseBranch])
  | call callee paren arguments =>
    Shape.list_text (by simp [polish_toList callee, polishAll_toList arguments])
  | grouping inner => Shape.list_text (by simp [polish_toList inner])

theorem polishAll_toList : (arguments : List Expr) →
    (Expr.polishAll arguments).map String.toList = (Expr.shapeAll arguments).map Shape.text
  | [] => rfl
  | first :: others => by simp [polishAll, shapeAll, polish_toList first, polishAll_toList others]

end

theorem shapeAll_eq (arguments : List Expr) : Expr.shapeAll arguments = arguments.map shape := by
  induction arguments with
  | nil => rfl
  | cons first others ih => rw [shapeAll, ih, List.map_cons]

theorem Legible.tame {expression : Expr} (legible : expression.Legible) :
    expression.shape.Tame := by
  have operators : ∀ word ∈ unaryWords ++ logicalWords ++ binaryWords, IsWord word := by decide
  induction legible with
  | literal plain => exact .word plain.isWord
  | «variable» named bare => exact .word named.isWord
  | assign named bare legible ih =>
      apply Shape.Tame.list (by decide)
      simp [ih, Shape.Tame.word named.isWord]
  | unary known legible ih =>
      apply Shape.Tame.list (operators _ (by simp [known.among]))
      simp [ih]
  | logical known first second ihLeft ihRight | binary known first second ihLeft ihRight =>
      apply Shape.Tame.list (operators _ (by simp [known.among]))
      simp [ihLeft, ihRight]
  | conditional known decides first second ih ihFirst ihSecond =>
      apply Shape.Tame.list (by decide)
      simp [ih, ihFirst, ihSecond]
  | call calls given ihCallee ih =>
      apply Shape.Tame.list (by decide)
      rw [shapeAll_eq]
      exact List.forall_mem_cons.mpr ⟨ihCallee, List.forall_mem_map.mpr ih⟩
  | grouping legible ih =>
      apply Shape.Tame.list (by decide)
      simp [ih]

theorem readAll?_shapes {arguments : List Expr}
    (each : ∀ argument ∈ arguments, argument.shape.read? = some argument.bare) :
    Shape.readAll? (Expr.shapeAll arguments) = some (Expr.bareAll arguments) := by
  induction arguments with
  | nil => rfl
  | cons first others ih =>
      obtain ⟨here, there⟩ := List.forall_mem_cons.mp each
      rw [shapeAll, Shape.readAll?, here, ih there]
      rfl

/-- A shape is read as the expression whose form shows it. -/
theorem Legible.read?_shape {expression : Expr} (legible : expression.Legible) :
    expression.shape.read? = some expression.bare := by
  induction legible with
  | literal plain => exact congrArg some (operand_literal plain)
  | «variable» named bare =>
      rw [shape, Shape.read?, operand_name named, Expr.bare, bare]
  | assign named bare legible ih =>
      simp only [shape, Shape.read?, Shape.readAll?, ih, operand_name named, ← bare]
      rfl
  | unary known legible ih =>
      simp only [shape, Shape.read?, Shape.readAll?, ih, Option.bind_some, Option.map_some,
        operation_unary known.among, Expr.bare, known.bare]
  | binary known first second ihLeft ihRight =>
      simp only [shape, Shape.read?, Shape.readAll?, ihLeft, ihRight, Option.bind_some,
        Option.map_some, operation_binary known.among, Expr.bare, known.bare]
  | logical known first second ihLeft ihRight =>
      simp only [shape, Shape.read?, Shape.readAll?, ihLeft, ihRight, Option.bind_some,
        Option.map_some, operation_logical known.among, Expr.bare, known.bare]
  | conditional known decides first second ih ihFirst ihSecond =>
      simp only [shape, Shape.read?, Shape.readAll?, ih, ihFirst, ihSecond, Expr.bare, known.bare,
        List.mem_singleton.mp known.among]
      rfl
  | call calls given ihCallee ih =>
      simp only [shape, Shape.read?, Shape.readAll?, ihCallee, readAll?_shapes ih]
      rfl
  | grouping legible ih =>
      simp only [shape, Shape.read?, Shape.readAll?, ih]
      rfl

mutual

/-- No form shows lines, or the tokens that close calls. -/
theorem shape_bare : (expression : Expr) → expression.bare.shape = expression.shape
  | literal value => rfl
  | «variable» name => rfl
  | assign name value => by simp [bare, shape, Token.bare, shape_bare value]
  | unary operator operand => by simp [bare, shape, Token.bare, shape_bare operand]
  | binary left operator right => by
    simp [bare, shape, Token.bare, shape_bare left, shape_bare right]
  | logical left operator right => by
    simp [bare, shape, Token.bare, shape_bare left, shape_bare right]
  | conditional condition question thenBranch elseBranch => by
    simp [bare, shape, shape_bare condition, shape_bare thenBranch, shape_bare elseBranch]
  | call callee paren arguments => by simp [bare, shape, shape_bare callee, shapeAll_bare arguments]
  | grouping inner => by simp [bare, shape, shape_bare inner]

theorem shapeAll_bare : (arguments : List Expr) →
    Expr.shapeAll (Expr.bareAll arguments) = Expr.shapeAll arguments
  | [] => rfl
  | first :: others => by simp [bareAll, shapeAll, shape_bare first, shapeAll_bare others]

end

end Expr

/-- Polish forms are unambiguous. Expressions that are read from sources and have no strings and no
infinite numbers have the same form just when they are the same, up to the lines of their tokens and
the tokens that close their calls. -/
theorem polish_unambiguous (source other : String) (first second : Expr)
    (read : first.ReadFrom source) (readSecond : second.ReadFrom other) (plain : first.Plain)
    (plainSecond : second.Plain) : first.polish = second.polish ↔ first.bare = second.bare := by
  have legible := read.legible plain
  have legibleSecond := readSecond.legible plainSecond
  constructor
  · intro same
    have texts : first.shape.text = second.shape.text := by
      rw [← Expr.polish_toList, ← Expr.polish_toList, same]
    have shapes := Shape.text_injective legible.tame legibleSecond.tame texts
    have bare := legible.read?_shape
    rw [shapes, legibleSecond.read?_shape] at bare
    exact (Option.some.inj bare).symm
  · intro same
    apply String.toList_inj.mp
    rw [Expr.polish_toList, Expr.polish_toList, ← Expr.shape_bare first, ← Expr.shape_bare second,
      same]

namespace Negated

/-- The tokens of `-a - f(1)`, the second half on a line of its own and the number in any
spelling. -/
def tokens (line : Nat) (places : List Char) : List Token :=
  [⟨.minus, "-", .nil, 1⟩, ⟨.identifier, "a", .nil, 1⟩, ⟨.minus, "-", .nil, line⟩,
    ⟨.identifier, "f", .nil, line⟩, ⟨.leftParen, "(", .nil, line⟩,
    ⟨.number, String.ofList (Numeral.pointed ['1'] places), .number (Numeral.value ['1'] places),
      line⟩,
    ⟨.rightParen, ")", .nil, line⟩, Token.endOfInput line]

def expression (line : Nat) (places : List Char) : Expr :=
  .binary (.unary ⟨.minus, "-", .nil, 1⟩ (.variable ⟨.identifier, "a", .nil, 1⟩))
    ⟨.minus, "-", .nil, line⟩
    (.call (.variable ⟨.identifier, "f", .nil, line⟩) ⟨.rightParen, ")", .nil, line⟩
      [.literal (.number (Numeral.value ['1'] places))])

theorem parsed (line : Nat) (places : List Char) :
    parseExpression (tokens line places) = .ok (expression line places) := by
  rfl

theorem read_oneLine : (expression 1 []).ReadFrom "-a - f(1)" := by
  refine ⟨tokens 1 [], ?_, parsed 1 []⟩
  change Token.scanFrom [] 1 ['-', 'a', ' ', '-', ' ', 'f', '(', '1', ')'] = _
  refine (Token.scanFrom_cons rfl).trans ((Token.scanFrom_cons rfl).trans ?_)
  refine (Token.scanFrom_cons rfl).trans ((Token.scanFrom_cons rfl).trans ?_)
  refine (Token.scanFrom_cons rfl).trans ((Token.scanFrom_cons rfl).trans ?_)
  refine (Token.scanFrom_cons rfl).trans ((Token.scanFrom_cons rfl).trans ?_)
  exact (Token.scanFrom_cons rfl).trans (Token.scanFrom.eq_1 _ _)

theorem plain_oneLine : (expression 1 []).Plain := by
  intro value among
  have one : value = .number (Numeral.value ['1'] []) := by
    simpa [expression, Expr.marks, Expr.marksAll] using among
  rw [one]
  exact ⟨false, 0x3ff0000000000000, by decide +kernel⟩

theorem read_twoLines : (expression 2 ['0']).ReadFrom "-a\n-f(1.0)" := by
  refine ⟨tokens 2 ['0'], ?_, parsed 2 ['0']⟩
  change Token.scanFrom [] 1 ['-', 'a', '\n', '-', 'f', '(', '1', '.', '0', ')'] = _
  refine (Token.scanFrom_cons rfl).trans ((Token.scanFrom_cons rfl).trans ?_)
  refine (Token.scanFrom_cons rfl).trans ((Token.scanFrom_cons rfl).trans ?_)
  refine (Token.scanFrom_cons rfl).trans ((Token.scanFrom_cons rfl).trans ?_)
  refine (Token.scanFrom_cons rfl).trans ((Token.scanFrom_cons rfl).trans ?_)
  exact Token.scanFrom.eq_1 _ _

theorem plain_twoLines : (expression 2 ['0']).Plain := by
  intro value among
  have one : value = .number (Numeral.value ['1'] ['0']) := by
    simpa [expression, Expr.marks, Expr.marksAll] using among
  rw [one]
  exact ⟨false, 0x3ff0000000000000, by decide +kernel⟩

/-- A unary minus and a binary one, and a number in two spellings. -/
theorem polish_negated :
    (expression 1 []).ReadFrom "-a - f(1)" ∧ (expression 2 ['0']).ReadFrom "-a\n-f(1.0)" ∧
      ((expression 1 []).polish = (expression 2 ['0']).polish ↔
        (expression 1 []).bare = (expression 2 ['0']).bare) :=
  ⟨read_oneLine, read_twoLines,
    polish_unambiguous _ _ _ _ read_oneLine read_twoLines plain_oneLine plain_twoLines⟩

end Negated

end Lox
