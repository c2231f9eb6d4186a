import Lox.Proofs.Token.Automaton
import Lox.Proofs.Token.Cutting
set_option autoImplicit false

/-! Scanning line by line. No piece that is scanned to its end reaches across the line feed behind
it, so the tokens of two texts with a line feed between them are those of the first and those of the
second, further down; and what stands behind an unexpected character is never seen. -/

namespace Lox

open Piece (Stops Cuts)

/-- The token some lines further down. -/
def Token.below (lines : Nat) (token : Token) : Token :=
  { token with line := token.line + lines }

def LexicalFailure.below (lines : Nat) (failure : LexicalFailure) : LexicalFailure :=
  { failure with line := failure.line + lines }

/-- What a scan comes to that starts some lines further down. -/
def Token.scannedBelow (lines : Nat) :
    Except LexicalFailure (List Token) → Except LexicalFailure (List Token)
  | .error failure => .error (failure.below lines)
  | .ok tokens => .ok (tokens.map (below lines))

/-! ### Further down -/

namespace Token

theorem lineAfter_add (line lines : Nat) (text : List Char) :
    lineAfter (line + lines) text = lineAfter line text + lines := by
  unfold lineAfter
  omega

theorem failureAt_below (line lines : Nat) (text : List Char) (error : LexicalError) :
    failureAt (line + lines) text error = (failureAt line text error).below lines := by
  cases error with
  | unexpectedCharacter => rfl
  | unterminatedString =>
      unfold failureAt LexicalFailure.below
      rw [lineAfter_add]

theorem tokens_below (piece : Piece) (line lines : Nat) :
    piece.tokens (line + lines) = (piece.tokens line).map (below lines) := by
  unfold Piece.tokens
  cases piece.token? <;> rfl

theorem scannedBelow_map (lines : Nat) (words : List Token)
    (outcome : Except LexicalFailure (List Token)) :
    scannedBelow lines (outcome.map (words ++ ·))
      = (scannedBelow lines outcome).map (words.map (below lines) ++ ·) := by
  cases outcome with
  | error failure => rfl
  | ok tokens => exact congrArg Except.ok List.map_append

end Token

theorem Scans.lowered {line : Nat} {text : List Char} {outcome : Except LexicalFailure (List Token)}
    (scans : Scans line text outcome) (lines : Nat) :
    Scans (line + lines) text (Token.scannedBelow lines outcome) := by
  induction scans with
  | ends line => exact .ends (line + lines)
  | @fails line first rest error cuts =>
      change Scans _ _ (.error ((Token.failureAt line (first :: rest) error).below lines))
      rw [← Token.failureAt_below]
      exact .fails cuts
  | @more line first rest piece outcome cuts splits behind ih =>
      rw [← Token.lineAfter_add] at ih
      rw [Token.scannedBelow_map, ← Token.tokens_below, ← Token.lineAfter_add]
      exact .more cuts splits ih

/-! ### Across a line feed -/

theorem Piece.Stops.before_line {test : Char → Bool} {text : List Char} (ends : Stops test text)
    (feeds : test '\n' = false) (back : List Char) : Stops test (text ++ '\n' :: back) := by
  intro next first
  cases text with
  | nil =>
      cases first
      exact feeds
  | cons character others => exact ends next first

/-- What is cut before a line feed does not depend on what follows it. -/
theorem Piece.Cuts.before_line {first : Char} {rest : List Char} {piece : Piece}
    (cuts : Cuts first rest (.ok piece)) (back : List Char) :
    Cuts first (rest ++ '\n' :: back)
      (.ok { piece with rest := piece.rest ++ '\n' :: back }) := by
  cases cuts with
  | single known => exact .single known
  | long known lengthened =>
      subst lengthened
      exact .long known rfl
  | short known ends => exact .short known (ends.before_line (by decide) back)
  | layout blank => exact .layout blank
  | @comment content others starts whole inside ends =>
      subst whole
      exact .comment starts (congrArg _ (List.append_assoc _ _ _)) inside
        (ends.before_line (by decide) back)
  | slash starts ends => exact .slash starts (ends.before_line (by decide) back)
  | string starts whole inside =>
      subst whole
      refine .string starts ?_ inside
      rw [List.append_assoc]
      rfl
  | @whole digits others starts whole inside ends pointless =>
      subst whole
      refine .whole starts (List.append_assoc _ _ _) inside (ends.before_line (by decide) back) ?_
      -- the two characters that are looked at stand before the line feed or take it in
      intro digit more same
      rcases others with _ | ⟨point, _ | ⟨place, others⟩⟩
      · cases same
      · cases same
        decide
      · cases same
        exact pointless digit others rfl
  | @decimal digits places others starts whole inside fractional behind ends =>
      subst whole
      refine .decimal starts ?_ inside fractional behind (ends.before_line (by decide) back)
      simp only [List.append_assoc, List.cons_append]
  | word starts whole inside ends =>
      subst whole
      exact .word starts (List.append_assoc _ _ _) inside (ends.before_line (by decide) back)

/-- The induction is on the scan of the text before the line feed. -/
theorem Scans.before_line {line : Nat} {front back : List Char}
    {outcome later : Except LexicalFailure (List Token)} (scans : Scans line front outcome)
    {tokens : List Token} (scanned : outcome = .ok tokens)
    (behind : Scans (line + (1 + front.count '\n')) back later) :
    ∃ words, tokens = words ++ [Token.endOfInput (line + front.count '\n')] ∧
      Scans line (front ++ '\n' :: back) (later.map (words ++ ·)) := by
  induction scans generalizing tokens with
  | ends line =>
      cases scanned
      have feed : Cuts '\n' back (.ok (Piece.gap ['\n'] back)) := .layout (by decide)
      exact ⟨[], rfl, .more feed feed.splits behind⟩
  | fails cuts => cases scanned
  | @more line first rest piece outcome cuts splits more ih =>
      cases outcome with
      | error failure => cases scanned
      | ok found =>
          cases scanned
          have lines : Token.lineAfter line piece.text + piece.rest.count '\n'
              = line + (first :: rest).count '\n' := splits.lineAfter_rest line
          rw [← Nat.add_left_comm, ← lines, Nat.add_left_comm] at behind
          obtain ⟨words, rfl, scans⟩ := ih rfl behind
          have longer := cuts.before_line back
          rw [lines]
          refine ⟨piece.tokens (Token.lineAfter line piece.text) ++ words,
            (List.append_assoc _ _ _).symm, ?_⟩
          have whole := Scans.more longer longer.splits scans
          rw [← Token.map_append] at whole
          exact whole

/-- What is bad is bad whatever follows. -/
theorem Mode.FailsOn.append {bytes : List UInt8} {line : Nat} (failing : FailsOn bytes line)
    (more : List UInt8) : FailsOn (bytes ++ more) line := by
  obtain ⟨before, bad, behind, last, rfl, reached, fails, same⟩ := failing
  exact ⟨before, bad, behind ++ more, last, List.append_assoc _ _ _, reached, fails, same⟩

/-- Scanning goes line by line. When a source has tokens, and another source stands behind it and a
line feed, then the tokens of both together are those of the first, without the end of input, and
those of the second, as many lines further down as the first source has; and if the second fails,
they fail as it does, as many lines further down. When a source has an unexpected character, it fails
on the same line whatever stands behind it. -/
theorem scan_line_by_line (front back : String) :
    (∀ tokens, Token.scan front = .ok tokens →
      let lines := 1 + front.toList.count '\n'
      ∃ words, tokens = words ++ [Token.endOfInput lines] ∧
        (∀ others, Token.scan back = .ok others →
          Token.scan (front ++ "\n" ++ back) = .ok (words ++ others.map (Token.below lines))) ∧
        ∀ failure, Token.scan back = .error failure →
          Token.scan (front ++ "\n" ++ back) = .error (failure.below lines)) ∧
    ∀ line, Token.scan front = .error ⟨line, .unexpectedCharacter⟩ →
      Token.scan (front ++ back) = .error ⟨line, .unexpectedCharacter⟩ := by
  constructor
  · intro tokens scanned lines
    have behind := (scan_scans back).lowered lines
    obtain ⟨words, same, scans⟩ := (scan_scans front).before_line scanned behind
    have whole : (front ++ "\n" ++ back).toList = front.toList ++ '\n' :: back.toList := by
      rw [String.toList_append, String.toList_append, List.append_assoc]
      rfl
    rw [← whole] at scans
    refine ⟨words, same, ?_, ?_⟩
    · intro others also
      rw [scans.scan_eq, also]
      rfl
    · intro failure also
      rw [scans.scan_eq, also]
      rfl
  · intro line failed
    have failing := ((Mode.scan_tellsBytes front).unexpected_iff line).mp failed
    refine ((Mode.scan_tellsBytes (front ++ back)).unexpected_iff line).mpr ?_
    rw [Utf8.toUTF8_data] at failing ⊢
    rw [String.toList_append, Utf8.bytes_append]
    exact failing.append _

namespace Commented

def front : String := "x //\""

def back : String := "\n@"

theorem front_scanned :
    Token.scan front = .ok [⟨.identifier, "x", .nil, 1⟩, Token.endOfInput 1] := by
  change Token.scanFrom [] 1 ['x', ' ', '/', '/', '"'] = _
  refine (Token.scanFrom_cons rfl).trans ((Token.scanFrom_cons rfl).trans ?_)
  exact (Token.scanFrom_cons rfl).trans (Token.scanFrom.eq_1 _ _)

theorem back_fails : Token.scan back = .error ⟨2, .unexpectedCharacter⟩ := by
  have feed : Cuts '\n' ['@'] (.ok (Piece.gap ['\n'] ['@'])) := .layout (by decide)
  exact Scans.scan_eq (.more feed feed.splits (.fails (.unexpected (by decide))))

/-- The quote in the comment opens no string, and the one behind the failure is never seen. -/
theorem scan_commented_lines :
    Token.scan front = .ok [⟨.identifier, "x", .nil, 1⟩, Token.endOfInput 1] ∧
      Token.scan back = .error ⟨2, .unexpectedCharacter⟩ ∧
      Token.scan (front ++ "\n" ++ back) = .error ⟨3, .unexpectedCharacter⟩ ∧
      Token.scan (back ++ "\"") = .error ⟨2, .unexpectedCharacter⟩ := by
  obtain ⟨_words, _same, _scanned, fails⟩ := (scan_line_by_line front back).1 _ front_scanned
  exact ⟨front_scanned, back_fails, fails _ back_fails,
    (scan_line_by_line back "\"").2 2 back_fails⟩

end Commented

end Lox
