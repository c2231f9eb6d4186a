import Lox.CommandLine.Prompt
import Lox.Proofs.Run.Printing
import Mathlib.Data.List.DropRight
set_option autoImplicit false

/-! The lines of an input and what they ask for. Lines are read from the front, each up to its line
feed; how a line is run is told by its end, without the blanks there. -/

namespace Lox

/-- Taking off the blanks at the end leaves the last character that is none. -/
theorem lastVisible?_eq (text : List Char) :
    lastVisible? text = (text.rdropWhile isBlank).getLast? := by
  induction text using List.reverseRecOn with
  | nil => rfl
  | append_singleton front character ih =>
      unfold lastVisible? at ih ⊢
      by_cases blank : isBlank character = true
      · rw [List.rdropWhile_concat_pos _ _ _ blank, ← ih]
        simp [blank]
      · rw [List.rdropWhile_concat_neg _ _ _ blank]
        simp [blank]

namespace CommandLine

/-- The first line of an input and what is behind it. Only at its end is there a line feed, which is
missing only where nothing is behind. -/
structure FirstLine (line rest input : List UInt8) : Prop where
  whole : line ++ rest = input
  nonempty : line ≠ []
  single : lineFeed ∉ line.dropLast
  ended : rest ≠ [] → line.getLast? = some lineFeed

/-- Reads up to a line feed and takes that along, or reads to the end. -/
def takeLine : List UInt8 → List UInt8 × List UInt8
  | [] => ([], [])
  | byte :: rest =>
    if byte = lineFeed then ([byte], rest)
    else (byte :: (takeLine rest).1, (takeLine rest).2)

theorem takeLine_first {input : List UInt8} (left : input ≠ []) :
    FirstLine (takeLine input).1 (takeLine input).2 input := by
  induction input with
  | nil => exact absurd rfl left
  | cons byte rest ih =>
      unfold takeLine
      split
      · rename_i feed
        exact ⟨rfl, by simp, by simp, by simp [feed]⟩
      · rename_i other
        by_cases last : rest = []
        · subst last
          exact ⟨rfl, by simp [takeLine], by simp [takeLine], by simp [takeLine]⟩
        · have first := ih last
          obtain ⟨front, back, split⟩ := List.exists_cons_of_ne_nil first.nonempty
          refine ⟨congrArg (byte :: ·) first.whole, by simp, ?_, ?_⟩
          · have single := first.single
            rw [split] at single ⊢
            simpa [Ne.symm other] using single
          · have ended := first.ended
            rw [split] at ended ⊢
            simpa using ended

theorem FirstLine.takeLine_eq {line rest input : List UInt8} (first : FirstLine line rest input) :
    takeLine input = (line, rest) := by
  induction line generalizing input with
  | nil => exact absurd rfl first.nonempty
  | cons byte others ih =>
      obtain ⟨rfl, _nonempty, single, ended⟩ := first
      rw [List.cons_append, takeLine]
      by_cases last : others = []
      · subst last
        split
        · rfl
        · rename_i other
          have nothing : rest = [] := by
            by_contra behind
            exact other (by simpa using ended behind)
          subst nothing
          rfl
      · obtain ⟨next, back, split⟩ := List.exists_cons_of_ne_nil last
        rw [split] at single ended
        have other : byte ≠ lineFeed := by
          rintro rfl
          simp at single
        have inside : FirstLine others rest (others ++ rest) := by
          refine ⟨rfl, last, ?_, ?_⟩
          · rw [split]
            simpa [Ne.symm other] using single
          · rw [split]
            simpa using ended
        rw [if_neg other, ih inside]

theorem FirstLine.unique {line other rest behind input : List UInt8}
    (first : FirstLine line rest input) (second : FirstLine other behind input) :
    line = other ∧ rest = behind := by
  have same := first.takeLine_eq.symm.trans second.takeLine_eq
  exact Prod.ext_iff.mp same

theorem takeLine_eq_nil_iff {input : List UInt8} : (takeLine input).1 = [] ↔ input = [] := by
  constructor
  · intro nothing
    by_contra left
    exact (takeLine_first left).nonempty nothing
  · rintro rfl
    rfl

theorem FirstLine.length_lt {line rest input : List UInt8} (first : FirstLine line rest input) :
    rest.length < input.length := by
  have some := List.length_pos_iff.mpr first.nonempty
  rw [← first.whole, List.length_append]
  omega

theorem FirstLine.input_ne_nil {line rest input : List UInt8} (first : FirstLine line rest input) :
    input ≠ [] := by
  rw [← first.whole]
  exact List.append_ne_nil_of_left_ne_nil first.nonempty rest

/-- The lines of an input are its first one and the lines of what is behind it. -/
theorem FirstLine.lines_eq {line rest input : List UInt8} (first : FirstLine line rest input) :
    lines input = line :: lines rest := by
  have split : ∀ input : List UInt8, input ≠ [] →
      lines input = (takeLine input).1 :: lines (takeLine input).2 := by
    intro input left
    induction input with
    | nil => exact absurd rfl left
    | cons byte others ih =>
        rw [lines, takeLine]
        by_cases feed : byte = lineFeed
        · rw [if_pos feed, if_pos feed]
        · rw [if_neg feed, if_neg feed]
          by_cases last : others = []
          · subst last
            rfl
          · rw [ih last]
  have whole := split input first.input_ne_nil
  rwa [first.takeLine_eq] at whole

/-! ### Texts -/

theorem decode_eq_ok_iff {bytes : ByteArray} {text : String} :
    decode bytes = .ok text ↔ text.toUTF8 = bytes := by
  constructor
  · intro read
    unfold decode String.fromUTF8? at read
    split at read
    · rename_i found
      split at found
      · cases found
        cases read
        rfl
      · cases found
    · cases read
  · rintro rfl
    exact decode_toUTF8 text

theorem decode_eq_error_iff {bytes : ByteArray} {failure : ReadFailure} :
    decode bytes = .error failure ↔ failure = .notUtf8 ∧ ∀ text : String, text.toUTF8 ≠ bytes := by
  constructor
  · intro refused
    refine ⟨?_, fun text encodes => ?_⟩
    · unfold decode at refused
      split at refused
      · cases refused
      · cases refused
        rfl
    · rw [decode_eq_ok_iff.mpr encodes] at refused
      cases refused
  · intro whole
    obtain ⟨rfl, none⟩ := whole
    unfold decode
    cases read : String.fromUTF8? bytes with
    | none => rfl
    | some text =>
        have decoded : decode bytes = .ok text := by
          unfold decode
          rw [read]
        exact absurd (decode_eq_ok_iff.mp decoded) (none text)

/-- How a line is run, by its text without the blanks at its end. -/
def manner? (line : String) : Option Session.Manner :=
  let text := line.toList.rdropWhile isBlank
  if text.getLast? = some ';' ∨ text.getLast? = some '\x7d' then some .program
  else if text = [] then none
  else some .expression

theorem lineManner?_eq (line : String) : Session.lineManner? line = manner? line := by
  unfold Session.lineManner? manner?
  rw [lastVisible?_eq]
  dsimp only
  cases last : (line.toList.rdropWhile isBlank).getLast? with
  | none => simp [List.getLast?_eq_none_iff.mp last]
  | some character =>
      have visible : line.toList.rdropWhile isBlank ≠ [] := by
        intro nothing
        rw [nothing] at last
        cases last
      simp only [visible, if_false, Option.some.injEq]
      split <;> simp_all

theorem once_of_manner? {line : String} {manner : Session.Manner}
    (given : manner? line = some manner) : manner.Once := by
  unfold manner? at given
  dsimp only at given
  split at given
  · cases given
    exact Or.inl rfl
  · split at given
    · cases given
    · cases given
      exact Or.inr rfl

end CommandLine

end Lox
