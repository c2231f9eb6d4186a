import Lox.Proofs.Token.Automaton
set_option autoImplicit false

/-! The scanner once more, over a row of bytes and a place in it. Nothing holds by construction
here: bytes may be read outside the row, parts may be cut out through a character, a numeral may be
no number, and loops are bounded by nothing. Loops run on fuel instead, whose end is an outcome of
its own. -/

namespace Lox

structure ByteScanner where
  /-- Where the token at hand starts. -/
  start : Nat
  /-- The place of the byte that is read next. -/
  current : Nat
  line : Nat
  /-- The tokens found so far, in order. -/
  found : List Token

/-- Why a scan does not come to its end. -/
inductive ScanStop where
  /-- A byte was read outside the row. -/
  | outside
  /-- A part was to be cut out whose ends are not both the ends of characters. -/
  | torn
  | exhausted
  | failure (line : Nat) (message : String)

abbrev ByteScan := EStateM ScanStop ByteScanner

namespace ByteScan

variable (bytes : List UInt8)

def isAtEnd : ByteScan Bool := do
  return decide (bytes.length ≤ (← get).current)

def byteAt (place : Nat) : ByteScan UInt8 :=
  match bytes[place]? with
  | some byte => pure byte
  | none => throw .outside

def forward : ByteScan Unit :=
  modify fun scanner => { scanner with current := scanner.current + 1 }

def newLine : ByteScan Unit :=
  modify fun scanner => { scanner with line := scanner.line + 1 }

def advance : ByteScan UInt8 := do
  let byte ← byteAt bytes (← get).current
  forward
  return byte

/-- The next byte, which is zero at the end. -/
def peek : ByteScan UInt8 := do
  if ← isAtEnd bytes then return 0 else byteAt bytes (← get).current

def peekNext : ByteScan UInt8 := do
  let place := (← get).current + 1
  if bytes.length ≤ place then return 0 else byteAt bytes place

def matching (expected : Char) : ByteScan Bool := do
  if ← isAtEnd bytes then return false
  else if Char.ofUInt8 (← byteAt bytes (← get).current) != expected then return false
  else
    forward
    return true

/-- The ends of a text and the places of the first bytes of its characters. -/
def isBoundary (place : Nat) : Bool :=
  place == 0 || place == bytes.length
    || bytes[place]?.any fun byte => byte.toNat < 128 || 192 ≤ byte.toNat

/-- The text between two places. -/
def slice (first last : Nat) : ByteScan String :=
  if first ≤ last ∧ isBoundary bytes first = true ∧ isBoundary bytes last = true then
    match String.fromUTF8? ((bytes.drop first).take (last - first)).toByteArray with
    | some text => pure text
    | none => throw .torn
  else throw .torn

def lexeme : ByteScan String := do
  let scanner ← get
  slice bytes scanner.start scanner.current

def addToken (kind : TokenKind) (literal : Literal) : ByteScan Unit := do
  let text ← lexeme bytes
  modify fun scanner =>
    { scanner with found := scanner.found ++ [⟨kind, text, literal, scanner.line⟩] }

def fail {α : Type} (message : String) : ByteScan α := do
  throw (.failure (← get).line message)

def loop (goes : ByteScan Bool) (body : ByteScan Unit) : (fuel : Nat) → ByteScan Unit
  | 0 => throw .exhausted
  | fuel + 1 => do
    if ← goes then
      body
      loop goes body fuel

variable (fuel : Nat)

/-- Goes on to a byte, or to the end. -/
def before (mark : Char) : ByteScan Bool := do
  return Char.ofUInt8 (← peek bytes) != mark && !(← isAtEnd bytes)

/-- Goes over bytes that pass a test. -/
def skip (test : Char → Bool) : ByteScan Unit :=
  loop (do return test (Char.ofUInt8 (← peek bytes))) (discard (advance bytes)) fuel

def string : ByteScan Unit := do
  loop (before bytes '"')
    (do
      if Char.ofUInt8 (← peek bytes) == '\n' then newLine
      discard (advance bytes))
    fuel
  if ← isAtEnd bytes then fail LexicalError.unterminatedString.message
  else
    discard (advance bytes)
    let scanner ← get
    let content ← slice bytes (scanner.start + 1) (scanner.current - 1)
    addToken bytes .string (.string content)

/-- A point belongs to a number if there are digits behind it. -/
def fraction : ByteScan Unit := do
  let point := Char.ofUInt8 (← peek bytes) == '.'
  let digit := (Char.ofUInt8 (← peekNext bytes)).isDigit
  if point && digit then
    discard (advance bytes)
    skip bytes fuel Char.isDigit

/-- A numeral is made a number by the parser of the language, which may refuse it. -/
def numeral (parse : String → Option Float) : ByteScan Unit := do
  match parse (← lexeme bytes) with
  | none => fail "Invalid number."
  | some value => addToken bytes .number (.number value)

def number (parse : String → Option Float) : ByteScan Unit := do
  skip bytes fuel Char.isDigit
  fraction bytes fuel
  numeral bytes parse

def word : ByteScan Unit := do
  skip bytes fuel Piece.isWordPart
  addToken bytes (.ofWord (← lexeme bytes)) .nil

/-- The rest of the token that a character starts. -/
def tokenFrom (parse : String → Option Float) (first : Char) : ByteScan Unit :=
  match Piece.single? first, Piece.equalable? first with
  | some kind, _ => addToken bytes kind .nil
  | none, some (short, long) => do
    let lengthened ← matching bytes '='
    addToken bytes (if lengthened then long else short) .nil
  | none, none =>
    if first = '/' then do
      if ← matching bytes '/' then
        loop (before bytes '\n') (discard (advance bytes)) fuel
      else addToken bytes .slash .nil
    else if first = ' ' ∨ first = '\r' ∨ first = '\t' then pure ()
    else if first = '\n' then newLine
    else if first = '"' then string bytes fuel
    else if first.isDigit then number bytes fuel parse
    else if Piece.isWordStart first then word bytes fuel
    else fail LexicalError.unexpectedCharacter.message

def token (parse : String → Option Float) : ByteScan Unit := do
  let first ← advance bytes
  tokenFrom bytes fuel parse (Char.ofUInt8 first)

def nextToken (parse : String → Option Float) : ByteScan Unit := do
  modify fun scanner => { scanner with start := scanner.current }
  token bytes fuel parse

def tokens (parse : String → Option Float) : ByteScan (List Token) := do
  loop (do return !(← isAtEnd bytes)) (nextToken bytes fuel parse) fuel
  let scanner ← get
  return scanner.found ++ [.endOfInput scanner.line]

end ByteScan

/-- The tokens of a source, byte by byte. -/
def ByteScanner.scan (parse : String → Option Float) (source : String) :
    Except ScanStop (List Token) :=
  let bytes := source.toUTF8.data.toList
  match ByteScan.tokens bytes (bytes.length + 1) parse ⟨0, 0, 1, []⟩ with
  | .ok tokens _ => .ok tokens
  | .error stop _ => .error stop

/-! ### Places -/

/-- The scanner behind some more bytes. -/
def ByteScanner.past (scanner : ByteScanner) (run : List UInt8) : ByteScanner :=
  { scanner with
    current := scanner.current + run.length
    line := scanner.line + run.count 10 }

theorem ByteScanner.past_past (scanner : ByteScanner) (first second : List UInt8) :
    (scanner.past first).past second = scanner.past (first ++ second) := by
  unfold past
  simp only [List.length_append, List.count_append, Nat.add_assoc]

namespace ByteScan

/-- The scanner stands between two parts of the row. -/
structure At (bytes : List UInt8) (scanner : ByteScanner) (passed ahead : List UInt8) : Prop where
  whole : bytes = passed ++ ahead
  place : scanner.current = passed.length

variable {α β : Type} {bytes passed ahead others : List UInt8} {byte : UInt8}
variable {scanner later : ByteScanner}

theorem At.past {run : List UInt8} (place : At bytes scanner passed (run ++ others)) :
    At bytes (scanner.past run) (passed ++ run) others := by
  obtain ⟨rfl, here⟩ := place
  refine ⟨(List.append_assoc _ _ _).symm, ?_⟩
  unfold ByteScanner.past
  rw [List.length_append, here]

theorem At.enough (place : At bytes scanner passed ahead) {fuel : Nat}
    (enough : bytes.length < fuel) : ahead.length < fuel := by
  have whole := congrArg List.length place.whole
  rw [List.length_append] at whole
  omega

theorem bind_ok {action : ByteScan α} {next : α → ByteScan β} {result : α}
    (ran : action scanner = .ok result later) : (action >>= next) scanner = next result later := by
  simp only [bind, EStateM.bind, ran]

theorem bind_error {action : ByteScan α} {next : α → ByteScan β} {stop : ScanStop}
    (ran : action scanner = .error stop later) :
    (action >>= next) scanner = .error stop later := by
  simp only [bind, EStateM.bind, ran]

theorem bind_get (next : ByteScanner → ByteScan β) :
    (get >>= next) scanner = next scanner scanner :=
  rfl

theorem isAtEnd_at (place : At bytes scanner passed ahead) :
    isAtEnd bytes scanner = .ok ahead.isEmpty scanner := by
  obtain ⟨rfl, here⟩ := place
  have same : decide ((passed ++ ahead).length ≤ scanner.current) = ahead.isEmpty := by
    rw [here, List.length_append]
    cases ahead <;> simp
  rw [← same]
  rfl

theorem byteAt_at (place : At bytes scanner passed (byte :: others)) :
    byteAt bytes scanner.current scanner = .ok byte scanner := by
  obtain ⟨rfl, here⟩ := place
  unfold byteAt
  rw [here, List.getElem?_append_right (Nat.le_refl _), Nat.sub_self]
  rfl

theorem forward_ok (feeds : byte ≠ 10) : forward scanner = .ok () (scanner.past [byte]) := by
  unfold ByteScanner.past
  rw [List.count_singleton, if_neg (by simpa using feeds)]
  rfl

/-- A line feed is not counted by going over it. -/
theorem advance_uncounted (place : At bytes scanner passed (byte :: others)) :
    advance bytes scanner = .ok byte { scanner with current := scanner.current + 1 } := by
  unfold advance
  rw [bind_get, bind_ok (byteAt_at place)]
  rfl

theorem advance_at (place : At bytes scanner passed (byte :: others)) (feeds : byte ≠ 10) :
    advance bytes scanner = .ok byte (scanner.past [byte]) := by
  unfold advance
  rw [bind_get, bind_ok (byteAt_at place), bind_ok (forward_ok feeds)]
  rfl

theorem peek_at (place : At bytes scanner passed ahead) :
    peek bytes scanner = .ok (ahead.head?.getD 0) scanner := by
  unfold peek
  rw [bind_ok (isAtEnd_at place)]
  cases ahead with
  | nil => rfl
  | cons byte others =>
      change (get >>= fun scanner => byteAt bytes scanner.current) scanner = _
      rw [bind_get]
      exact byteAt_at place

theorem peekNext_at (place : At bytes scanner passed ahead) :
    peekNext bytes scanner = .ok ((ahead.drop 1).head?.getD 0) scanner := by
  obtain ⟨rfl, here⟩ := place
  unfold peekNext
  rw [bind_get]
  rcases ahead with _ | ⟨byte, _ | ⟨next, more⟩⟩
  · have ends : (passed ++ []).length ≤ scanner.current + 1 := by
      rw [here, List.append_nil]
      exact Nat.le_succ _
    rw [if_pos ends]
    rfl
  · have ends : (passed ++ [byte]).length ≤ scanner.current + 1 := by
      rw [here, List.length_append]
      exact Nat.le_refl _
    rw [if_pos ends]
    rfl
  · have goesOn : ¬ (passed ++ byte :: next :: more).length ≤ scanner.current + 1 := by
      rw [here, List.length_append, List.length_cons, List.length_cons]
      omega
    have found : (passed ++ byte :: next :: more)[scanner.current + 1]? = some next := by
      rw [here, List.getElem?_append_right (Nat.le_succ _), Nat.succ_sub (Nat.le_refl _),
        Nat.sub_self]
      rfl
    rw [if_neg goesOn]
    unfold byteAt
    rw [found]
    rfl

theorem matching_at (place : At bytes scanner passed (byte :: others)) {expected : Char}
    (same : Char.ofUInt8 byte = expected) (feeds : byte ≠ 10) :
    matching bytes expected scanner = .ok true (scanner.past [byte]) := by
  unfold matching
  rw [bind_ok (isAtEnd_at place)]
  simp only [List.isEmpty_cons, Bool.false_eq_true, if_false, bind_get]
  rw [bind_ok (byteAt_at place), same, bne_self_eq_false]
  exact bind_ok (forward_ok feeds)

theorem matching_other (place : At bytes scanner passed ahead) {expected : Char}
    (other : ∀ byte, ahead.head? = some byte → Char.ofUInt8 byte ≠ expected) :
    matching bytes expected scanner = .ok false scanner := by
  unfold matching
  rw [bind_ok (isAtEnd_at place)]
  cases ahead with
  | nil => rfl
  | cons byte others =>
      simp only [List.isEmpty_cons, Bool.false_eq_true, if_false, bind_get]
      rw [bind_ok (byteAt_at place), bne_iff_ne.mpr (other byte rfl)]
      rfl

/-! ### Loops -/

/-- A loop whose condition looks at the next byte, and whose body goes over it. -/
theorem loop_at {goes : ByteScan Bool} {body : ByteScan Unit} {test : UInt8 → Bool}
    (goes_at : ∀ {scanner passed ahead}, At bytes scanner passed ahead →
      goes scanner = .ok (ahead.head?.any test) scanner)
    (body_at : ∀ {scanner passed byte others}, At bytes scanner passed (byte :: others) →
      test byte = true → body scanner = .ok () (scanner.past [byte]))
    (place : At bytes scanner passed ahead) {fuel : Nat} (enough : ahead.length < fuel) :
    loop goes body fuel scanner = .ok () (scanner.past (ahead.takeWhile test)) := by
  induction fuel generalizing scanner passed ahead with
  | zero => omega
  | succ fuel ih =>
      unfold loop
      rw [bind_ok (goes_at place)]
      cases ahead with
      | nil => rfl
      | cons byte others =>
          by_cases passes : test byte = true
          · rw [List.takeWhile_cons_of_pos passes]
            have moved : At bytes (scanner.past [byte]) (passed ++ [byte]) others := place.past
            have less : others.length < fuel := by
              rw [List.length_cons] at enough
              omega
            have goesOn : (byte :: others).head?.any test = true := passes
            rw [goesOn]
            change (body >>= fun _ => loop goes body fuel) scanner = _
            rw [bind_ok (body_at place passes), ih moved less, ByteScanner.past_past]
            rfl
          · have stops : (byte :: others).head?.any test = false := eq_false_of_ne_true passes
            rw [List.takeWhile_cons_of_neg passes, stops]
            rfl

theorem before_at (mark : Char) (place : At bytes scanner passed ahead) :
    before bytes mark scanner
      = .ok (ahead.head?.any fun byte => Char.ofUInt8 byte != mark) scanner := by
  unfold before
  rw [bind_ok (peek_at place), bind_ok (isAtEnd_at place)]
  cases ahead with
  | nil => exact congrArg (EStateM.Result.ok · scanner) (Bool.and_false _)
  | cons byte others => exact congrArg (EStateM.Result.ok · scanner) (Bool.and_true _)

theorem discard_ok {action : ByteScan α} {result : α} (ran : action scanner = .ok result later) :
    discard action scanner = .ok () later := by
  change EStateM.map (fun _ => ()) action scanner = _
  simp only [EStateM.map, ran]

theorem comment_at (place : At bytes scanner passed ahead) {fuel : Nat}
    (enough : ahead.length < fuel) :
    loop (before bytes '\n') (discard (advance bytes)) fuel scanner
      = .ok () (scanner.past (ahead.takeWhile (Char.ofUInt8 · != '\n'))) :=
  loop_at (before_at '\n')
    (fun place passes => discard_ok (advance_at place (by rintro rfl; cases passes))) place enough

theorem skip_at {test : Char → Bool} (ends : test (Char.ofUInt8 0) = false)
    (feeds : test '\n' = false) (place : At bytes scanner passed ahead) {fuel : Nat}
    (enough : ahead.length < fuel) :
    skip bytes fuel test scanner
      = .ok () (scanner.past (ahead.takeWhile (test <| Char.ofUInt8 ·))) := by
  refine loop_at ?_ ?_ place enough
  · intro scanner passed ahead place
    rw [bind_ok (peek_at place)]
    cases ahead with
    | nil => exact congrArg (EStateM.Result.ok · scanner) ends
    | cons byte others => rfl
  · intro scanner passed byte others place passes
    refine discard_ok (advance_at place ?_)
    rintro rfl
    exact absurd passes (ne_true_of_eq_false feeds)

/-- Strings count the lines that they go over. -/
theorem string_loop_at (place : At bytes scanner passed ahead) {fuel : Nat}
    (enough : ahead.length < fuel) :
    loop (before bytes '"')
        (do
          if Char.ofUInt8 (← peek bytes) == '\n' then newLine
          discard (advance bytes))
        fuel scanner
      = .ok () (scanner.past (ahead.takeWhile (Char.ofUInt8 · != '"'))) := by
  refine loop_at (before_at '"') ?_ place enough
  intro scanner passed byte others place passes
  rw [bind_ok (peek_at place)]
  by_cases feeds : byte = 10
  · subst feeds
    change (newLine >>= fun _ => discard (advance bytes)) scanner = _
    have counted : At bytes { scanner with line := scanner.line + 1 } passed (10 :: others) :=
      ⟨place.whole, place.place⟩
    exact discard_ok (advance_uncounted counted)
  · have quiet : (Char.ofUInt8 byte == '\n') = false := by
      apply beq_false_of_ne
      intro same
      exact feeds (Utf8.ofUInt8_injective same)
    change (if Char.ofUInt8 byte == '\n' then newLine >>= fun _ => discard (advance bytes)
      else discard (advance bytes)) scanner = _
    rw [quiet]
    exact discard_ok (advance_at place feeds)

end ByteScan

end Lox
