import Lox.Proofs.Expr.Ungrouped
import Lox.Proofs.Expr.Words
set_option autoImplicit false

/-! Reverse Polish forms are read back. A stack machine takes the words of a form from left to right
and puts the expression together again; all that is lost are the groupings. -/

namespace Lox

namespace StackMachine

open Lox.Expr (unaryWords binaryWords logicalWords)

/-! ### The machine -/

/-- What stands between the blanks of a text. -/
def words (text : String) : List String :=
  (text.toList.splitOn ' ').map String.ofList

/-- How many arguments the word of a call tells. -/
def callSize? (word : String) : Option Nat :=
  match word.toList with
  | 'c' :: 'a' :: 'l' :: 'l' :: '/' :: digits => Numeral.natural? digits
  | _ => none

/-- How many operands a word takes; other words are operands. -/
def arity? (word : String) : Option Nat :=
  if word ∈ ["~", "!"] then some 1
  else if word ∈ "=" :: logicalWords ++ binaryWords then some 2
  else if word = "?:" then some 3
  else (callSize? word).map (· + 1)

/-- The word that leads the operation in a Polish form. -/
def leading (word : String) : String :=
  if word = "~" then "-" else if (callSize? word).isSome then "call" else word

/-- There is no next stack if the operands are too few, or are none that the operation can have. -/
def step (stack : List Expr) (word : String) : Option (List Expr) :=
  match arity? word with
  | none => some (Expr.operand word :: stack)
  | some count =>
    if stack.length < count then none
    else (Expr.operation (leading word) (stack.take count).reverse).map (· :: stack.drop count)

def run (stack : List Expr) (words : List String) : Option (List Expr) :=
  words.foldlM step stack

theorem run_append (stack : List Expr) (front back : List String) :
    run stack (front ++ back) = (run stack front).bind fun stack => run stack back :=
  List.foldlM_append

theorem run_singleton (stack : List Expr) (word : String) : run stack [word] = step stack word := by
  unfold run
  rw [List.foldlM_cons]
  exact bind_pure (step stack word)

theorem step_operand {word : String} (operand : arity? word = none) (stack : List Expr) :
    step stack word = some (Expr.operand word :: stack) := by
  unfold step
  rw [operand]

/-- The operands lie on the stack with the last one on top. -/
theorem step_operation {word : String} {operands : List Expr} {whole : Expr}
    (takes : arity? word = some operands.length)
    (builds : Expr.operation (leading word) operands = some whole) (stack : List Expr) :
    step (operands.reverse ++ stack) word = some (whole :: stack) := by
  have enough : ¬ (operands.reverse ++ stack).length < operands.length := by
    rw [List.length_append, List.length_reverse]
    omega
  have top : (operands.reverse ++ stack).take operands.length = operands.reverse := by
    rw [← List.length_reverse, List.take_left]
  have rest : (operands.reverse ++ stack).drop operands.length = stack := by
    rw [← List.length_reverse, List.drop_left]
  unfold step
  rw [takes]
  dsimp only
  rw [if_neg enough, top, rest, List.reverse_reverse, builds]
  rfl

/-! ### Words of the machine -/

def operatorWords : List String :=
  ["~", "!", "?:", "="] ++ logicalWords ++ binaryWords

theorem arity?_other {word : String} (other : word ∉ operatorWords) :
    arity? word = (callSize? word).map (· + 1) := by
  simp only [operatorWords, List.cons_append, List.nil_append, List.mem_cons, List.mem_append,
    not_or] at other
  unfold arity?
  rw [if_neg, if_neg, if_neg]
  · exact other.2.2.1
  · simp only [List.cons_append, List.mem_cons, List.mem_append, not_or]
    exact other.2.2.2
  · simp only [List.mem_cons, List.not_mem_nil, or_false, not_or]
    exact ⟨other.1, other.2.1⟩

/-- A word that is no operator and starts no call is an operand. -/
theorem arity?_eq_none {word : String} (other : word ∉ operatorWords)
    (noCall : ∀ digits, word.toList ≠ 'c' :: 'a' :: 'l' :: 'l' :: '/' :: digits) :
    arity? word = none := by
  have noSize : callSize? word = none := by
    unfold callSize?
    split
    · next digits same => exact absurd same (noCall digits)
    · rfl
  rw [arity?_other other, noSize]
  rfl

/-- The text of a number is no operator. -/
theorem arity?_number {word : String} {number : Bool × Decimal}
    (read : Numeral.signed? word.toList = some number) : arity? word = none := by
  have others : ∀ word ∈ operatorWords, Numeral.signed? word.toList = none := by decide
  apply arity?_eq_none
  · intro among
    rw [others word among] at read
    cases read
  · intro digits same
    rw [same] at read
    cases read

theorem arity?_literal {value : Literal} (plain : value.Plain) : arity? value.text = none := by
  cases value with
  | nil => decide
  | bool truth => cases truth <;> decide
  | number value =>
      obtain ⟨negative, magnitude, finite⟩ := plain
      obtain ⟨decimal, read, _⟩ := Number.number_signed finite
      exact arity?_number read
  | string text => exact plain.elim

/-- No name is an operator. -/
theorem arity?_name {text : String} (named : IsName text) : arity? text = none := by
  have others : ∀ word ∈ operatorWords,
      word.toList.head?.any Piece.isWordStart = false ∨ TokenKind.ofWord word ≠ .identifier := by
    decide +kernel
  obtain ⟨isName, first, parts, same, starts, inside⟩ := named
  apply arity?_eq_none
  · intro among
    rcases others text among with noStart | keyword
    · rw [same] at noStart
      exact absurd starts (ne_true_of_eq_false noStart)
    · exact keyword isName
  · intro digits call
    rw [same] at call
    cases call
    cases inside '/' (by simp)

theorem call_toList (count : Nat) :
    ("call/" ++ toString count).toList
      = 'c' :: 'a' :: 'l' :: 'l' :: '/' :: Nat.toDigits 10 count := by
  rw [String.toList_append, Nat.toString_eq_ofList_toDigits, String.toList_ofList,
    String.toList_ofList]
  rfl

theorem callSize?_call (count : Nat) : callSize? ("call/" ++ toString count) = some count := by
  unfold callSize?
  rw [call_toList]
  have read := Numeral.natural?_digits Nat.toDigits_ne_nil (Numeral.isDigit_toDigits count)
  rw [Numeral.digitsValue_toDigits] at read
  exact read

theorem arity?_call (count : Nat) : arity? ("call/" ++ toString count) = some (count + 1) := by
  have others : ∀ word ∈ operatorWords, word.toList.head? ≠ some 'c' := by decide
  have other : "call/" ++ toString count ∉ operatorWords := by
    intro among
    apply others _ among
    rw [call_toList]
    rfl
  rw [arity?_other other, callSize?_call]
  rfl

theorem leading_call (count : Nat) : leading ("call/" ++ toString count) = "call" := by
  have other : "call/" ++ toString count ≠ "~" := by
    intro same
    have texts := congrArg String.toList same
    rw [call_toList] at texts
    cases texts
  unfold leading
  rw [if_neg other, callSize?_call]
  rfl

theorem unaryWord_cases {operator : Token} (known : operator.Known unaryWords) :
    operator.lexeme = "-" ∧ unaryWord operator = "~" ∨
      operator.lexeme = "!" ∧ unaryWord operator = "!" := by
  have cases : operator.lexeme = "-" ∨ operator.lexeme = "!" := by
    simpa [unaryWords] using known.among
  unfold unaryWord
  rcases cases with same | same
  · rw [same]
    decide
  · rw [same]
    decide

theorem unaryWord_arity {operator : Token} (known : operator.Known unaryWords) :
    arity? (unaryWord operator) = some 1 ∧ leading (unaryWord operator) = operator.lexeme := by
  rcases unaryWord_cases known with ⟨lexeme, word⟩ | ⟨lexeme, word⟩
  · rw [lexeme, word]
    decide
  · rw [lexeme, word]
    decide

theorem infix_arity : ∀ word ∈ logicalWords ++ binaryWords,
    arity? word = some 2 ∧ leading word = word := by
  decide

/-! ### Runs -/

variable {word : String} {whole : Expr} {stack : List Expr}

/-- After the operands, their operator. -/
theorem run_operation (operands : List Expr) {front : List String}
    (before : run stack front = some (operands.reverse ++ stack))
    (takes : arity? word = some operands.length)
    (builds : Expr.operation (leading word) operands = some whole) :
    run stack (front ++ [word]) = some (whole :: stack) := by
  rw [run_append, before, Option.bind_some, run_singleton, step_operation takes builds]

theorem run_infix {first second : List String} {left right : Expr}
    (before : run stack first = some (left :: stack))
    (behind : run (left :: stack) second = some (right :: left :: stack))
    (takes : arity? word = some 2)
    (builds : Expr.operation (leading word) [left, right] = some whole) :
    run stack (first ++ second ++ [word]) = some (whole :: stack) := by
  apply run_operation [left, right] _ takes builds
  rw [run_append, before, Option.bind_some, behind]
  rfl

theorem run_operands {arguments : List Expr}
    (each : ∀ argument ∈ arguments, ∀ stack, run stack argument.reversePolishWords
      = some (argument.ungrouped.bare :: stack)) (stack : List Expr) :
    run stack (Expr.reversePolishWordsAll arguments)
      = some ((Expr.bareAll (Expr.ungroupedAll arguments)).reverse ++ stack) := by
  induction arguments generalizing stack with
  | nil => rfl
  | cons first others ih =>
      obtain ⟨here, there⟩ := List.forall_mem_cons.mp each
      rw [Expr.reversePolishWordsAll, run_append, here, Option.bind_some, ih there,
        Expr.ungroupedAll, Expr.bareAll, List.reverse_cons, List.append_assoc]
      rfl

end StackMachine

open StackMachine

theorem Expr.length_bareAll_ungroupedAll (arguments : List Expr) :
    (Expr.bareAll (Expr.ungroupedAll arguments)).length = arguments.length := by
  rw [bareAll_eq, ungroupedAll_eq, List.length_map, List.length_map]

/-- The words of an expression push it on the stack, without its groupings. -/
theorem Expr.Legible.run {expression : Expr} (legible : expression.Legible) :
    ∀ stack, StackMachine.run stack expression.reversePolishWords
      = some (expression.ungrouped.bare :: stack) := by
  induction legible with
  | @literal value plain =>
      intro stack
      rw [reversePolishWords, run_singleton, step_operand (arity?_literal plain),
        operand_literal plain]
      rfl
  | «variable» named same =>
      intro stack
      rw [reversePolishWords, run_singleton, step_operand (arity?_name named), operand_name named,
        ungrouped, bare, same]
  | @assign name value named same legible ih =>
      intro stack
      have target : StackMachine.run stack [name.lexeme] = some (.variable name.bare :: stack) := by
        rw [run_singleton, step_operand (arity?_name named), operand_name named, same]
      exact run_infix target (ih _) (by decide) rfl
  | @unary operator operand known legible ih =>
      intro stack
      obtain ⟨takes, leads⟩ := unaryWord_arity known
      apply run_operation [operand.ungrouped.bare] (ih stack) takes
      rw [leads, operation_unary known.among, ungrouped, bare, known.bare]
  | binary known first second ihLeft ihRight =>
      intro stack
      obtain ⟨takes, leads⟩ := infix_arity _ (List.mem_append_right _ known.among)
      apply run_infix (ihLeft stack) (ihRight _) takes
      rw [leads, operation_binary known.among, ungrouped, bare, known.bare]
  | logical known first second ihLeft ihRight =>
      intro stack
      obtain ⟨takes, leads⟩ := infix_arity _ (List.mem_append_left _ known.among)
      apply run_infix (ihLeft stack) (ihRight _) takes
      rw [leads, operation_logical known.among, ungrouped, bare, known.bare]
  | @conditional condition thenBranch elseBranch question known decides first second ih ihFirst
      ihSecond =>
      intro stack
      have operands : StackMachine.run stack (condition.reversePolishWords
          ++ thenBranch.reversePolishWords ++ elseBranch.reversePolishWords)
          = some ([condition.ungrouped.bare, thenBranch.ungrouped.bare,
            elseBranch.ungrouped.bare].reverse ++ stack) := by
        rw [run_append, run_append, ih, Option.bind_some, ihFirst, Option.bind_some, ihSecond]
        rfl
      have takes : arity? "?:" = some 3 := by decide
      apply run_operation _ operands takes
      rw [ungrouped, bare, known.bare, List.mem_singleton.mp known.among]
      rfl
  | @call callee paren arguments calls given ihCallee ih =>
      intro stack
      have operands : StackMachine.run stack (callee.reversePolishWords
          ++ Expr.reversePolishWordsAll arguments)
          = some ((callee.ungrouped.bare
            :: Expr.bareAll (Expr.ungroupedAll arguments)).reverse ++ stack) := by
        rw [run_append, ihCallee, Option.bind_some, run_operands ih, List.reverse_cons,
          List.append_assoc]
        rfl
      apply run_operation _ operands
      · rw [arity?_call, List.length_cons, length_bareAll_ungroupedAll]
      · rw [leading_call]
        rfl
  | grouping legible ih => exact ih

/-! ### Words of a form -/

theorem isWord_call (count : Nat) : IsWord ("call/" ++ toString count) := by
  unfold IsWord
  rw [call_toList]
  have digits : ∀ character ∈ Nat.toDigits 10 count, isBreak character = false :=
    fun character among =>
      isBreak_wordPart (Piece.isWordPart_of_digit (Numeral.isDigit_toDigits count character among))
  exact ⟨List.cons_ne_nil _ _, by simpa [isBreak] using digits⟩

theorem isWord_all {arguments : List Expr}
    (each : ∀ argument ∈ arguments, ∀ word ∈ argument.reversePolishWords, IsWord word) :
    ∀ word ∈ Expr.reversePolishWordsAll arguments, IsWord word := by
  induction arguments with
  | nil => exact fun word among => nomatch among
  | cons first others ih =>
      obtain ⟨here, there⟩ := List.forall_mem_cons.mp each
      exact List.forall_mem_append.mpr ⟨here, ih there⟩

theorem Expr.Legible.isWord {expression : Expr} (legible : expression.Legible) :
    ∀ word ∈ expression.reversePolishWords, IsWord word := by
  have operators : ∀ word ∈ operatorWords, IsWord word := by decide
  induction legible with
  | literal plain => exact List.forall_mem_singleton.mpr plain.isWord
  | «variable» named bare => exact List.forall_mem_singleton.mpr named.isWord
  | assign named bare legible ih =>
      have sign := operators "=" (by decide)
      exact List.forall_mem_cons.mpr
        ⟨named.isWord, List.forall_mem_append.mpr ⟨ih, List.forall_mem_singleton.mpr sign⟩⟩
  | @unary operator operand known legible ih =>
      have sign : IsWord (unaryWord operator) := by
        rcases unaryWord_cases known with ⟨_, word⟩ | ⟨_, word⟩
        · rw [word]
          decide
        · rw [word]
          decide
      exact List.forall_mem_append.mpr ⟨ih, List.forall_mem_singleton.mpr sign⟩
  | binary known first second ihLeft ihRight =>
      have sign := operators _ (List.mem_append_right _ known.among)
      exact List.forall_mem_append.mpr
        ⟨List.forall_mem_append.mpr ⟨ihLeft, ihRight⟩, List.forall_mem_singleton.mpr sign⟩
  | logical known first second ihLeft ihRight =>
      have sign := operators _ (List.mem_append_left _ (List.mem_append_right _ known.among))
      exact List.forall_mem_append.mpr
        ⟨List.forall_mem_append.mpr ⟨ihLeft, ihRight⟩, List.forall_mem_singleton.mpr sign⟩
  | conditional known decides first second ih ihFirst ihSecond =>
      have sign := operators "?:" (by decide)
      have branches := List.forall_mem_append.mpr ⟨List.forall_mem_append.mpr ⟨ih, ihFirst⟩, ihSecond⟩
      exact List.forall_mem_append.mpr ⟨branches, List.forall_mem_singleton.mpr sign⟩
  | call calls given ihCallee ih =>
      have operands := List.forall_mem_append.mpr ⟨ihCallee, isWord_all ih⟩
      exact List.forall_mem_append.mpr
        ⟨operands, List.forall_mem_singleton.mpr (isWord_call _)⟩
  | grouping legible ih => exact ih

/-- The blanks of a form stand between its words. -/
theorem Expr.Legible.words_reversePolish {expression : Expr} (legible : expression.Legible) :
    words expression.reversePolish = expression.reversePolishWords := by
  have some : expression.reversePolishWords ≠ [] := by
    intro none
    have run := legible.run []
    rw [none] at run
    cases run
  have apart : ∀ word ∈ expression.reversePolishWords.map String.toList, ' ' ∉ word := by
    intro word among
    obtain ⟨text, member, rfl⟩ := List.mem_map.mp among
    intro blank
    cases (legible.isWord text member).2 ' ' blank
  have texts : expression.reversePolish.toList
      = [' '].intercalate (expression.reversePolishWords.map String.toList) := by
    unfold reversePolish
    rw [String.toList_intercalate]
    rfl
  unfold words
  rw [texts, List.splitOn_intercalate ' ' apart (mt List.map_eq_nil_iff.mp some), List.map_map]
  have same : String.ofList ∘ String.toList = id := by
    funext text
    exact String.ofList_toList
  rw [same, List.map_id]

namespace Expr

mutual

/-- No form shows lines, the tokens that close calls, or groupings. -/
theorem reversePolishWords_bare : (expression : Expr) →
    expression.ungrouped.bare.reversePolishWords = expression.reversePolishWords
  | literal value => rfl
  | «variable» name => rfl
  | assign name value => by
    simp [ungrouped, bare, reversePolishWords, Token.bare, reversePolishWords_bare value]
  | unary operator operand => by
    simp [ungrouped, bare, reversePolishWords, Token.bare, unaryWord,
      reversePolishWords_bare operand]
  | binary left operator right => by
    simp [ungrouped, bare, reversePolishWords, Token.bare, reversePolishWords_bare left,
      reversePolishWords_bare right]
  | logical left operator right => by
    simp [ungrouped, bare, reversePolishWords, Token.bare, reversePolishWords_bare left,
      reversePolishWords_bare right]
  | conditional condition question thenBranch elseBranch => by
    simp [ungrouped, bare, reversePolishWords, reversePolishWords_bare condition,
      reversePolishWords_bare thenBranch, reversePolishWords_bare elseBranch]
  | call callee paren arguments => by
    simp [ungrouped, bare, reversePolishWords, reversePolishWords_bare callee,
      reversePolishWordsAll_bare arguments, length_bareAll_ungroupedAll]
  | grouping inner => reversePolishWords_bare inner

theorem reversePolishWordsAll_bare : (arguments : List Expr) →
    Expr.reversePolishWordsAll (Expr.bareAll (Expr.ungroupedAll arguments))
      = Expr.reversePolishWordsAll arguments
  | [] => rfl
  | first :: others => by
    simp [ungroupedAll, bareAll, reversePolishWordsAll, reversePolishWords_bare first,
      reversePolishWordsAll_bare others]

end

end Expr

/-- Reverse Polish forms are read back. For an expression that is read from a source and has no
strings and no infinite numbers, the machine never lacks an operand and ends with the expression
alone on its stack, without its groupings; so two forms are the same just when the expressions are
the same without their groupings, up to the lines of their tokens and the tokens that close their
calls. -/
theorem reversePolish_reads_back (source other : String) (first second : Expr)
    (read : first.ReadFrom source) (readSecond : second.ReadFrom other) (plain : first.Plain)
    (plainSecond : second.Plain) :
    StackMachine.run [] (words first.reversePolish) = some [first.ungrouped.bare] ∧
      (first.reversePolish = second.reversePolish ↔
        first.ungrouped.bare = second.ungrouped.bare) := by
  have legible := read.legible plain
  have legibleSecond := readSecond.legible plainSecond
  have ends : StackMachine.run [] (words first.reversePolish) = some [first.ungrouped.bare] := by
    rw [legible.words_reversePolish]
    exact legible.run []
  refine ⟨ends, ?_, ?_⟩
  · intro same
    rw [same, legibleSecond.words_reversePolish, legibleSecond.run] at ends
    exact (List.cons.inj (Option.some.inj ends)).1.symm
  · intro same
    unfold Expr.reversePolish
    rw [← Expr.reversePolishWords_bare first, same, Expr.reversePolishWords_bare]

namespace Inverted

def name : Expr :=
  .variable ⟨.identifier, "a", .nil, 1⟩

def bang : Token :=
  ⟨.bang, "!", .nil, 1⟩

def tokens : List Token :=
  [bang, ⟨.identifier, "a", .nil, 1⟩, Token.endOfInput 1]

def groupedTokens : List Token :=
  [bang, ⟨.leftParen, "(", .nil, 1⟩, ⟨.identifier, "a", .nil, 1⟩, ⟨.rightParen, ")", .nil, 1⟩,
    Token.endOfInput 1]

theorem read : (Expr.unary bang name).ReadFrom "! a" := by
  refine ⟨tokens, ?_, by rfl⟩
  change Token.scanFrom [] 1 ['!', ' ', 'a'] = _
  refine (Token.scanFrom_cons rfl).trans ((Token.scanFrom_cons rfl).trans ?_)
  exact (Token.scanFrom_cons rfl).trans (Token.scanFrom.eq_1 _ _)

theorem read_grouped : (Expr.unary bang (.grouping name)).ReadFrom "!(a)" := by
  refine ⟨groupedTokens, ?_, by rfl⟩
  change Token.scanFrom [] 1 ['!', '(', 'a', ')'] = _
  refine (Token.scanFrom_cons rfl).trans ((Token.scanFrom_cons rfl).trans ?_)
  refine (Token.scanFrom_cons rfl).trans ((Token.scanFrom_cons rfl).trans ?_)
  exact Token.scanFrom.eq_1 _ _

theorem plain : (Expr.unary bang name).Plain ∧ (Expr.unary bang (.grouping name)).Plain := by
  constructor
  · intro value among
    simp [name, Expr.marks] at among
  · intro value among
    simp [name, Expr.marks] at among

/-- The form does not show the parentheses. -/
theorem reversePolish_inverted :
    (Expr.unary bang (.grouping name)).ReadFrom "!(a)" ∧
      StackMachine.run [] (words (Expr.unary bang (.grouping name)).reversePolish)
        = some [(Expr.unary bang name).bare] ∧
      ((Expr.unary bang (.grouping name)).reversePolish = (Expr.unary bang name).reversePolish ↔
        (Expr.unary bang (.grouping name)).ungrouped.bare
          = (Expr.unary bang name).ungrouped.bare) :=
  ⟨read_grouped, reversePolish_reads_back _ _ _ _ read_grouped read plain.2 plain.1⟩

end Inverted

end Lox
