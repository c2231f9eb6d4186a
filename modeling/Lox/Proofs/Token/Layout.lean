import Lox.Proofs.Token.Cutting
set_option autoImplicit false

/-! Layout does not matter. A lexeme is cut again, as the token that it was, wherever a blank or the
end of the text stands behind it; so the lexemes of a source, with blanks of any kind between them,
have the tokens that the source has, up to lines. -/

namespace Lox

open Piece (Stops Cuts isLayout)

/-- Nothing but a blank stands first in the text. -/
def Loose (text : List Char) : Prop :=
  ∀ next, text.head? = some next → isLayout next = true

namespace Token

/-- All of a token but its line. -/
def contents (token : Token) : TokenKind × String × Literal :=
  (token.kind, token.lexeme, token.literal)

/-- The tokens in order, each behind blanks of its own. Only the first token and the end of input
may do without. -/
structure Respaces (tokens : List Token) (words : List (List Char × Token)) : Prop where
  same : words.map Prod.snd = tokens
  blank : ∀ word ∈ words, ∀ character ∈ word.1, isLayout character = true
  apart : ∀ word ∈ words.tail, word.2.kind ≠ .endOfInput → word.1 ≠ []

end Token

/-! ### Lexemes in front of blanks -/

namespace Loose

variable {text : List Char}

theorem stops (loose : Loose text) {test : Char → Bool}
    (plain : [' ', '\t', '\r', '\n'].all (fun blank => !test blank) = true) : Stops test text := by
  intro next first
  have free := List.all_eq_true.mp plain next (Piece.mem_of_isLayout (loose next first))
  exact Bool.not_eq_true' _ ▸ free

theorem of_blank (blank : ∀ character ∈ text, isLayout character = true) : Loose text :=
  fun next first => blank next (List.mem_of_head? first)

theorem append (loose : Loose text) (nonempty : text ≠ []) (behind : List Char) :
    Loose (text ++ behind) := by
  intro next first
  cases text with
  | nil => exact absurd rfl nonempty
  | cons character others => exact loose next first

end Loose

/-- What a text of one or two characters is cut as in front of a blank, if it is a mark. -/
def Piece.markKind? : List Char → Option TokenKind
  | [first] =>
    if first = '/' then some .slash else (single? first).or ((equalable? first).map Prod.fst)
  | [first, '='] => (equalable? first).map Prod.snd
  | _ => none

namespace Token

variable {behind : List Char}

theorem markKind?_marks : ∀ mark ∈ TokenKind.marks, Piece.markKind? mark.1.toList = some mark.2 := by
  decide +kernel

theorem mark_cuts {text : List Char} {kind : TokenKind}
    (known : Piece.markKind? text = some kind) (loose : Loose behind) :
    ∃ first rest, text = first :: rest ∧
      Cuts first (rest ++ behind) (.ok (Piece.mark kind text behind)) := by
  unfold Piece.markKind? at known
  split at known
  · next first =>
      refine ⟨first, [], rfl, ?_⟩
      split at known
      · next isSlash =>
          subst isSlash
          cases known
          exact .slash rfl (loose.stops (by decide))
      · cases single : Piece.single? first with
        | some other =>
            rw [single] at known
            cases known
            exact .single single
        | none =>
            rw [single] at known
            obtain ⟨⟨short, long⟩, pair, rfl⟩ := Option.map_eq_some_iff.mp known
            exact .short pair (loose.stops (by decide))
  · next first =>
      obtain ⟨⟨short, long⟩, pair, rfl⟩ := Option.map_eq_some_iff.mp known
      exact ⟨first, ['='], rfl, .long pair rfl⟩
  · cases known

theorem number_cuts {whole places : List Char} (nonempty : whole ≠ [])
    (digits : ∀ digit ∈ whole ++ places, digit.isDigit = true) (loose : Loose behind) :
    ∃ first rest, (if places.isEmpty then whole else whole ++ '.' :: places) = first :: rest ∧
      Cuts first (rest ++ behind)
        (.ok ⟨some (.number, .number (Numeral.value whole places)), first :: rest, behind⟩) := by
  have ends : Stops Char.isDigit behind := loose.stops (by decide)
  cases whole with
  | nil => exact absurd rfl nonempty
  | cons first more =>
      have starts := digits first List.mem_cons_self
      have inside : ∀ digit ∈ more, digit.isDigit = true := fun digit among =>
        digits digit (List.mem_append_left _ (List.mem_cons_of_mem _ among))
      cases places with
      | nil =>
          refine ⟨first, more, rfl, .whole starts rfl inside ends ?_⟩
          intro digit others same
          subst same
          exact absurd (loose '.' rfl) (by decide)
      | cons place others =>
          have later : ∀ digit ∈ place :: others, digit.isDigit = true :=
            fun digit among => digits digit (List.mem_append_right _ among)
          refine ⟨first, more ++ '.' :: place :: others, rfl, ?_⟩
          exact .decimal starts (List.append_assoc _ _ _) inside (List.cons_ne_nil _ _) later ends

/-- A token is cut from its lexeme where a blank follows. -/
theorem Written.cuts {token : Token} (written : token.Written) (loose : Loose behind) :
    ∃ first rest, token.lexeme.toList = first :: rest ∧
      Cuts first (rest ++ behind)
        (.ok ⟨some (token.kind, token.literal), token.lexeme.toList, behind⟩) := by
  cases written with
  | mark line known => exact mark_cuts (markKind?_marks _ known) loose
  | string content line inside =>
      simp only [String.toList_ofList]
      refine ⟨'"', content ++ ['"'], rfl, .string rfl (List.append_assoc _ _ _) ?_⟩
      intro character among
      rw [bne_iff_ne]
      rintro rfl
      exact inside among
  | number whole places line nonempty digits =>
      simp only [String.toList_ofList]
      obtain ⟨first, rest, same, cuts⟩ := number_cuts nonempty digits loose
      rw [← same] at cuts
      exact ⟨first, rest, same, cuts⟩
  | word first parts line starts inside =>
      simp only [String.toList_ofList]
      exact ⟨first, parts, rfl, .word starts rfl inside (loose.stops (by decide))⟩

theorem Written.kind_ne {token : Token} (written : token.Written) : token.kind ≠ .endOfInput := by
  cases written with
  | mark line known =>
      have others : ∀ mark ∈ TokenKind.marks, mark.2 ≠ .endOfInput := by decide
      exact others _ known
  | string content line inside => exact nofun
  | number whole places line nonempty digits => exact nofun
  | word first parts line starts inside =>
      intro same
      have isWord := isWord_ofWord (String.ofList (first :: parts))
      rw [show TokenKind.ofWord (String.ofList (first :: parts)) = .endOfInput from same] at isWord
      cases isWord

/-! ### Scans -/

variable {line : Nat} {outcome : Except LexicalFailure (List Token)}

theorem scans_blank {gap : List Char} (blank : ∀ character ∈ gap, isLayout character = true)
    (scans : Scans (lineAfter line gap) behind outcome) : Scans line (gap ++ behind) outcome := by
  induction gap generalizing line with
  | nil => exact scans
  | cons first rest ih =>
      have cuts : Cuts first (rest ++ behind) (.ok (Piece.gap [first] (rest ++ behind))) :=
        .layout (blank first List.mem_cons_self)
      rw [show first :: rest = [first] ++ rest from rfl, ← lineAfter_append] at scans
      have more := ih (fun character among => blank character (List.mem_cons_of_mem _ among)) scans
      have whole := Scans.more cuts cuts.splits more
      cases outcome <;> exact whole

theorem Written.scans {token : Token} (written : token.Written) (loose : Loose behind)
    (scans : Scans (lineAfter line token.lexeme.toList) behind outcome) :
    Scans line (token.lexeme.toList ++ behind)
      (outcome.map
        ([{ token with line := lineAfter line token.lexeme.toList }] ++ ·)) := by
  obtain ⟨first, rest, same, cuts⟩ := written.cuts loose
  have whole := Scans.more cuts cuts.splits scans
  rw [Piece.tokens, String.ofList_toList] at whole
  rw [same]
  rw [same] at whole
  exact whole

theorem joined_append (front back : List (List Char × Token)) :
    joined (front ++ back) = joined front ++ joined back := by
  induction front with
  | nil => rfl
  | cons word others ih =>
      obtain ⟨gap, token⟩ := word
      rw [List.cons_append, joined_cons, joined_cons, ih]
      simp only [List.append_assoc]

theorem loose_joined {words : List (List Char × Token)} {last : List Char}
    (blank : ∀ word ∈ words, ∀ character ∈ word.1, isLayout character = true)
    (lastBlank : ∀ character ∈ last, isLayout character = true)
    (apart : ∀ word ∈ words, word.1 ≠ []) : Loose (joined words ++ last) := by
  cases words with
  | nil => exact .of_blank lastBlank
  | cons word others =>
      obtain ⟨gap, token⟩ := word
      rw [joined_cons, List.append_assoc, List.append_assoc]
      have loose : Loose gap := .of_blank (blank (gap, token) List.mem_cons_self)
      exact loose.append (apart (gap, token) List.mem_cons_self) _

/-- Tokens whose lexemes are kept apart by blanks are scanned again. -/
theorem scans_joined {words : List (List Char × Token)} {last : List Char}
    (written : ∀ word ∈ words, word.2.Written)
    (blank : ∀ word ∈ words, ∀ character ∈ word.1, isLayout character = true)
    (lastBlank : ∀ character ∈ last, isLayout character = true)
    (apart : ∀ word ∈ words.tail, word.1 ≠ []) (line : Nat) :
    ∃ others, Scans line (joined words ++ last) (.ok others) ∧
      others.map contents = words.map (contents ·.2) ++ [(.endOfInput, "", .nil)] := by
  induction words generalizing line with
  | nil =>
      have ends := Scans.ends (lineAfter line last)
      refine ⟨[endOfInput (lineAfter line last)], ?_, rfl⟩
      have whole := scans_blank lastBlank ends
      rwa [List.append_nil] at whole
  | cons word others ih =>
      obtain ⟨gap, token⟩ := word
      have later : ∀ word ∈ others, ∀ character ∈ word.1, isLayout character = true :=
        fun word among => blank word (List.mem_cons_of_mem _ among)
      have loose := loose_joined later lastBlank apart
      obtain ⟨found, scans, same⟩ := ih
        (fun word among => written word (List.mem_cons_of_mem _ among)) later
        (fun word among => apart word (List.mem_of_mem_tail among))
        (lineAfter (lineAfter line gap) token.lexeme.toList)
      have lexeme := (written (gap, token) List.mem_cons_self).scans loose scans
      have whole := scans_blank (blank (gap, token) List.mem_cons_self) lexeme
      rw [joined_cons, List.append_assoc, List.append_assoc]
      exact ⟨_, whole, congrArg (token.contents :: ·) same⟩

end Token

/-- Layout does not matter. When a source has tokens, the text of their lexemes in order, with blanks
of any kind and number between them, has tokens of the same kinds, lexemes and literals in the same
order. -/
theorem layout_immaterial (source : String) (tokens : List Token)
    (scanned : Token.scan source = .ok tokens) (words : List (List Char × Token))
    (respaces : Token.Respaces tokens words) :
    ∃ others, Token.scan (String.ofList (Token.joined words)) = .ok others ∧
      others.map Token.contents = tokens.map Token.contents := by
  obtain ⟨found, last, rfl, _whole, tiled⟩ := Token.scans_tiled (scan_scans source) scanned
  obtain ⟨front, back, rfl, frontSame, backSame⟩ := List.map_eq_append_iff.mp respaces.same
  obtain ⟨⟨gap, token⟩, rfl, isLast⟩ := List.map_eq_singleton_iff.mp backSame
  have written : ∀ word ∈ front, word.2.Written := by
    intro word among
    have known : word.2 ∈ found.map Prod.snd := frontSame ▸ List.mem_map_of_mem among
    obtain ⟨⟨other, same⟩, also, rfl⟩ := List.mem_map.mp known
    obtain ⟨before, after, split⟩ := List.append_of_mem also
    exact (tiled.at split).2.2.1
  have apart : ∀ word ∈ front.tail, word.1 ≠ [] := by
    intro word among
    refine respaces.apart word ?_ (written word (List.mem_of_mem_tail among)).kind_ne
    cases front with
    | nil => cases among
    | cons first others => exact List.mem_append_left _ among
  obtain ⟨others, scans, same⟩ := Token.scans_joined written
    (fun word among => respaces.blank word (List.mem_append_left _ among))
    (respaces.blank (gap, token) (List.mem_append_right _ List.mem_cons_self)) apart 1
  refine ⟨others, ?_, ?_⟩
  · apply Scans.scan_eq
    cases isLast
    have alone : Token.joined [(gap, Token.endOfInput (1 + source.toList.count '\n'))] = gap :=
      (List.append_nil _).trans (List.append_nil gap)
    rw [String.toList_ofList, Token.joined_append]
    exact alone.symm ▸ scans
  · rw [same, List.map_append, ← frontSame, List.map_map]
    rfl

namespace Respaced

def tokens : List Token :=
  [⟨.bang, "!", .nil, 1⟩, ⟨.equal, "=", .nil, 1⟩, ⟨.slash, "/", .nil, 1⟩, ⟨.slash, "/", .nil, 1⟩,
    ⟨.number, "1", .number (Numeral.value ['1'] []), 1⟩, ⟨.dot, ".", .nil, 1⟩, Token.endOfInput 1]

def words : List (List Char × Token) :=
  [[], ['\n'], ['\t', ' '], ['\r'], ['\n', '\n'], [' '], []].zip tokens

theorem scanned : Token.scan "! = / / 1." = .ok tokens := by
  change Token.scanFrom [] 1 ['!', ' ', '=', ' ', '/', ' ', '/', ' ', '1', '.'] = _
  refine (Token.scanFrom_cons rfl).trans ((Token.scanFrom_cons rfl).trans ?_)
  refine (Token.scanFrom_cons rfl).trans ((Token.scanFrom_cons rfl).trans ?_)
  refine (Token.scanFrom_cons rfl).trans ((Token.scanFrom_cons rfl).trans ?_)
  refine (Token.scanFrom_cons rfl).trans ((Token.scanFrom_cons rfl).trans ?_)
  refine (Token.scanFrom_cons rfl).trans ((Token.scanFrom_cons rfl).trans ?_)
  exact Token.scanFrom.eq_1 _ _

theorem respaces : Token.Respaces tokens words where
  same := rfl
  blank := by
    have all : words.all (fun word => word.1.all isLayout) = true := by decide
    intro word among
    exact List.all_eq_true.mp (List.all_eq_true.mp all word among)
  apart := by
    have all : ∀ part ∈ words.tail.map fun word => (word.1, word.2.kind),
        part.2 ≠ .endOfInput → part.1 ≠ [] := by decide
    exact fun word among => all (word.1, word.2.kind) (List.mem_map_of_mem among)

/-- Lexemes that are another one without a blank between them, over several lines. -/
theorem layout_respaced :
    Token.scan "! = / / 1." = .ok tokens ∧ Token.Respaces tokens words ∧
      ∃ others, Token.scan "!\n=\t /\r/\n\n1 ." = .ok others ∧
        others.map Token.contents = tokens.map Token.contents :=
  ⟨scanned, respaces, layout_immaterial _ tokens scanned words respaces⟩

end Respaced

end Lox
