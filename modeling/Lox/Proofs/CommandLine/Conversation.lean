import Lox.Proofs.CommandLine.Lines
set_option autoImplicit false

/-! The prompt as a conversation. Each line is answered by a session as the lines before it left it,
and what the prompt shows is what those answers show one after the other. The prompt is also told as a
console has it: flags are raised for every error, the code to exit with is told by them at the end,
and they are taken back behind every line. -/

namespace Lox.CommandLine

/-- The answer to a line. The whole line is run, with the blanks at its end. -/
def answerLine (steps : Nat) (session : Session) (line : String) : Session.Outcome :=
  match manner? line with
  | none => .ok ([], session)
  | some manner => session.run steps manner line

/-- A line that was answered: what was reported, and what was printed. -/
structure Turn where
  diagnostics : List Diagnostic
  printed : ByteArray

inductive Ending where
  /-- The input came to its end. -/
  | finished
  /-- A line is no text. -/
  | unreadable
  /-- A line needs more steps than are allowed. -/
  | unfinished
  deriving DecidableEq, Repr

/-- The turns of a conversation over an input. Every line is answered by a session that has printed
nothing yet and otherwise is as the lines before left it, also where they failed. -/
inductive Converses (steps : Nat) : Session → List UInt8 → List Turn → Ending → Prop
  | finished (session : Session) : Converses steps session [] [] .finished
  | unreadable {session : Session} {input line rest : List UInt8}
      (reads : FirstLine line rest input)
      (invalid : ∀ text : String, text.toUTF8 ≠ ⟨line.toArray⟩) :
      Converses steps session input [] .unreadable
  | unfinished {session : Session} {input line rest : List UInt8} {text : String}
      {manner : Session.Manner} (reads : FirstLine line rest input)
      (encodes : text.toUTF8 = ⟨line.toArray⟩)
      (short : answerLine steps session text = .error .exhausted)
      (asks : manner? text = some manner) (outlasts : session.Outlasts text manner steps) :
      Converses steps session input [] .unfinished
  | turn {session later : Session} {input line rest : List UInt8} {text : String}
      {diagnostics : List Diagnostic} {turns : List Turn} {ending : Ending}
      (reads : FirstLine line rest input) (encodes : text.toUTF8 = ⟨line.toArray⟩)
      (answers : answerLine steps session text = .ok (diagnostics, later))
      (others : Converses steps later.afresh rest turns ending) :
      Converses steps session input (⟨diagnostics, later.machine.output.written⟩ :: turns) ending

/-- What is shown in the turns: for each line the request and what was printed. -/
def shown : List Turn → ByteArray
  | [] => .empty
  | turn :: others => Prompt.request.toUTF8 ++ turn.printed ++ shown others

/-- All that is reported in the turns. -/
def told (turns : List Turn) : String :=
  errorText (turns.flatMap Turn.diagnostics)

/-- What comes of a conversation behind some output and some reports. -/
def Ending.outcome (before : ByteArray) (reported : String) (turns : List Turn) :
    Ending → Except Halt Outcome
  | finished =>
    .ok ⟨0, before ++ shown turns ++ Prompt.request.toUTF8 ++ Prompt.farewell.toUTF8,
      reported ++ told turns⟩
  | unreadable =>
    .ok ⟨74, before ++ shown turns ++ Prompt.request.toUTF8,
      reported ++ told turns ++ ReadFailure.notUtf8.message ++ "\n"⟩
  | unfinished => .error .exhausted

namespace Converses

variable {steps : Nat} {session : Session} {input line rest other behind : List UInt8}
variable {text another : String}

theorem same_line (reads : FirstLine line rest input) (encodes : text.toUTF8 = ⟨line.toArray⟩)
    (alsoReads : FirstLine other behind input) (alsoEncodes : another.toUTF8 = ⟨other.toArray⟩) :
    text = another ∧ rest = behind := by
  obtain ⟨rfl, same⟩ := reads.unique alsoReads
  exact ⟨String.toByteArray_inj.mp (encodes.trans alsoEncodes.symm), same⟩

/-- Only one conversation can be had over an input. -/
theorem unique {turns others : List Turn} {ending last : Ending}
    (converses : Converses steps session input turns ending)
    (also : Converses steps session input others last) : turns = others ∧ ending = last := by
  induction converses generalizing others last with
  | finished session =>
      cases also with
      | finished => exact ⟨rfl, rfl⟩
      | unreadable reads | unfinished reads | turn reads => exact absurd rfl reads.input_ne_nil
  | unreadable reads invalid =>
      cases also with
      | finished => exact absurd rfl reads.input_ne_nil
      | unreadable => exact ⟨rfl, rfl⟩
      | unfinished alsoReads encodes | turn alsoReads encodes =>
          obtain ⟨rfl, _same⟩ := reads.unique alsoReads
          exact absurd encodes (invalid _)
  | unfinished reads encodes short =>
      cases also with
      | finished => exact absurd rfl reads.input_ne_nil
      | unreadable alsoReads invalid =>
          obtain ⟨rfl, _same⟩ := reads.unique alsoReads
          exact absurd encodes (invalid _)
      | unfinished => exact ⟨rfl, rfl⟩
      | turn alsoReads alsoEncodes answers =>
          obtain ⟨rfl, rfl⟩ := same_line reads encodes alsoReads alsoEncodes
          rw [short] at answers
          cases answers
  | turn reads encodes answers others ih =>
      cases also with
      | finished => exact absurd rfl reads.input_ne_nil
      | unreadable alsoReads invalid =>
          obtain ⟨rfl, _same⟩ := reads.unique alsoReads
          exact absurd encodes (invalid _)
      | unfinished alsoReads alsoEncodes short =>
          obtain ⟨rfl, rfl⟩ := same_line reads encodes alsoReads alsoEncodes
          rw [short] at answers
          cases answers
      | turn alsoReads alsoEncodes alsoAnswers alsoOthers =>
          obtain ⟨rfl, rfl⟩ := same_line reads encodes alsoReads alsoEncodes
          rw [answers] at alsoAnswers
          cases alsoAnswers
          obtain ⟨rfl, rfl⟩ := ih alsoOthers
          exact ⟨rfl, rfl⟩

end Converses

/-! ### Answers -/

theorem answer_eq (steps : Nat) (session : Session) (line : String) :
    session.answer steps line = answerLine steps session line := by
  unfold Session.answer answerLine
  rw [lineManner?_eq]
  rfl

theorem answerLine_prefaced (front : ByteArray) (session : Session) (steps : Nat) (line : String) :
    answerLine steps (session.prefaced front) line
      = (answerLine steps session line).prefaced front := by
  unfold answerLine
  cases asks : manner? line with
  | none => rfl
  | some manner => exact Session.run_prefaced (once_of_manner? asks) front session steps line

/-- Given enough steps, every line is answered, and the session can go on behind it. -/
theorem answerLine_ends {session : Session} (accepts : session.machine.output.Accepts)
    (runnable : session.machine.Runnable) (steps : Nat) (line : String) :
    (answerLine steps session line = .error .exhausted ∧
        ∃ manner, manner? line = some manner ∧ session.Outlasts line manner steps) ∨
      ∃ diagnostics later, answerLine steps session line = .ok (diagnostics, later) ∧
        later.machine.output.Accepts ∧ later.machine.Runnable := by
  unfold answerLine
  cases asks : manner? line with
  | none => exact Or.inr ⟨[], session, rfl, accepts, runnable⟩
  | some manner =>
      rcases Session.run_ends (once_of_manner? asks) accepts runnable steps line with
        ⟨short, outlasts⟩ | ended
      · exact Or.inl ⟨short, manner, rfl, outlasts⟩
      · exact Or.inr ended

/-- What is said in a session that has printed nothing stands behind all that was shown before. -/
theorem say_prefaced {session : Session} (silent : session.machine.output = .unlimited)
    (front : ByteArray) (text : String) :
    (session.prefaced front).say text = session.prefaced (front ++ text.toUTF8) := by
  obtain ⟨settings, ⟨arena, callDepth, output⟩, nextLabel⟩ := session
  dsimp only at silent
  subst silent
  simp [Session.say, Session.prefaced, Machine.prefaced, Output.prefaced, Output.write,
    Output.unlimited]

theorem prefaced_written {session : Session} (silent : session.machine.output = .unlimited)
    (front : ByteArray) : (session.prefaced front).machine.output.written = front := by
  change front ++ session.machine.output.written = front
  rw [silent]
  exact ByteArray.append_empty

/-! ### The prompt -/

theorem errorText_append (first second : List Diagnostic) :
    errorText (first ++ second) = errorText first ++ errorText second := by
  unfold errorText
  rw [List.map_append, String.join_append]

theorem told_cons (turn : Turn) (turns : List Turn) :
    told (turn :: turns) = errorText turn.diagnostics ++ told turns :=
  errorText_append turn.diagnostics _

theorem outcome_cons (before : ByteArray) (reported : String) (turn : Turn) (turns : List Turn)
    (ending : Ending) :
    ending.outcome before reported (turn :: turns)
      = ending.outcome (before ++ Prompt.request.toUTF8 ++ turn.printed)
          (reported ++ errorText turn.diagnostics) turns := by
  cases ending <;>
    simp only [Ending.outcome, shown, told_cons, ByteArray.append_assoc, String.append_assoc]

/-- A session that goes on from another one, behind what was shown before that. -/
theorem prefaced_behind {later : Session} (accepts : later.machine.output.Accepts)
    (before : ByteArray) :
    later.prefaced before = later.afresh.prefaced (before ++ later.machine.output.written) := by
  have again := Session.prefaced_afresh accepts
  conv_lhs => rw [← again]
  simp only [Session.prefaced, Machine.prefaced, Output.prefaced, ByteArray.append_assoc]

/-- By induction on what is left of the input. -/
theorem converse_converses (steps : Nat) {input : List UInt8} {session : Session}
    (silent : session.machine.output = .unlimited) (runnable : session.machine.Runnable)
    (before : ByteArray) (reported : String) :
    ∃ turns ending, Converses steps session input turns ending ∧
      Prompt.converse steps (session.prefaced before) reported (lines input)
        = ending.outcome before reported turns := by
  induction left : input.length using Nat.strongRecOn
    generalizing input session before reported with
  | ind length ih =>
      by_cases none : input = []
      · subst none
        refine ⟨[], .finished, .finished session, ?_⟩
        rw [lines, Prompt.converse]
        simp only [say_prefaced silent, prefaced_written silent]
        simp [Ending.outcome, shown, told, errorText]
        rfl
      · have reads := takeLine_first none
        rw [reads.lines_eq, Prompt.converse, say_prefaced silent]
        dsimp only
        cases read : decode ⟨(takeLine input).1.toArray⟩ with
        | error failure =>
            obtain ⟨rfl, invalid⟩ := decode_eq_error_iff.mp read
            refine ⟨[], .unreadable, .unreadable reads invalid, ?_⟩
            dsimp only
            rw [prefaced_written silent]
            simp [Ending.outcome, shown, told, errorText]
            rfl
        | ok text =>
            have encodes := decode_eq_ok_iff.mp read
            have accepts : session.machine.output.Accepts := by
              rw [silent]
              exact ⟨rfl, rfl⟩
            dsimp only
            rw [answer_eq, answerLine_prefaced]
            rcases answerLine_ends accepts runnable steps text with
              ⟨short, manner, asks, outlasts⟩ | ⟨diagnostics, later, answers, further, runs⟩
            · refine ⟨[], .unfinished, .unfinished reads encodes short asks outlasts, ?_⟩
              rw [short]
              rfl
            · have fewer : (takeLine input).2.length < length := left ▸ reads.length_lt
              have silentAgain : later.afresh.machine.output = .unlimited := rfl
              obtain ⟨turns, ending, others, told⟩ := ih _ fewer silentAgain runs
                (before ++ Prompt.request.toUTF8 ++ later.machine.output.written)
                (reported ++ errorText diagnostics) rfl
              refine ⟨_, ending, .turn reads encodes answers others, ?_⟩
              rw [outcome_cons, ← told, ← prefaced_behind further, answers]
              rfl

/-! ### The console -/

/-- The session of a console, what it has told of errors, and the flags that are raised for them. -/
structure Console where
  session : Session
  errors : String
  hadError : Bool
  hadRuntimeError : Bool

namespace Console

def start (settings : Settings) : Console where
  session := openSession settings
  errors := ""
  hadError := false
  hadRuntimeError := false

def say (text : String) (console : Console) : Console :=
  { console with session := console.session.say text }

/-- An error in a text raises one flag, one in a run the other. -/
def report (console : Console) (diagnostic : Diagnostic) : Console :=
  { console with
    errors := console.errors ++ (diagnostic.text ++ "\n")
    hadError := console.hadError || diagnostic.isStatic
    hadRuntimeError := console.hadRuntimeError || !diagnostic.isStatic }

def reset (console : Console) : Console :=
  { console with hadError := false, hadRuntimeError := false }

def answer (steps : Nat) (console : Console) (line : String) : Except Halt Console := do
  let (diagnostics, session) ← answerLine steps console.session line
  return diagnostics.foldl report { console with session }

/-- Asks for lines until nothing is read. -/
def converse (steps : Nat) (console : Console) (input : List UInt8) :
    Except Halt (Option ReadFailure × Console) :=
  let console := console.say Prompt.request
  if ended : (takeLine input).1 = [] then .ok (none, console.say Prompt.farewell)
  else
    have _fewer : (takeLine input).2.length < input.length :=
      (takeLine_first (mt takeLine_eq_nil_iff.mpr ended)).length_lt
    match decode ⟨(takeLine input).1.toArray⟩ with
    | .error failure => .ok (some failure, console)
    | .ok text => do
      let console ← console.answer steps text
      converse steps console.reset (takeLine input).2
termination_by input.length

/-- How it ends: with a failure to read, or with the code that the flags tell. -/
def outcome : Option ReadFailure × Console → Outcome
  | (some failure, console) =>
    ⟨74, console.session.machine.output.written, console.errors ++ failure.message ++ "\n"⟩
  | (none, console) =>
    ⟨if console.hadError then 65 else if console.hadRuntimeError then 70 else 0,
      console.session.machine.output.written, console.errors⟩

def run (steps : Nat) (settings : Settings) (input : List UInt8) : Except Halt Outcome :=
  (converse steps ((start settings).say Prompt.greeting) input).map outcome

theorem foldl_report (diagnostics : List Diagnostic) (console : Console) :
    (diagnostics.foldl report console).reset
      = { console with
          errors := console.errors ++ errorText diagnostics
          hadError := false
          hadRuntimeError := false } := by
  induction diagnostics generalizing console with
  | nil => simp [reset, errorText]
  | cons first others ih =>
      rw [List.foldl_cons, ih]
      simp [report, errorText, String.append_assoc]

/-- No flag is left raised behind a line. -/
theorem converse_eq (steps : Nat) (session : Session) (told : String) (input : List UInt8) :
    (converse steps ⟨session, told, false, false⟩ input).map outcome
      = Prompt.converse steps session told (lines input) := by
  induction left : input.length using Nat.strongRecOn generalizing session told input with
  | ind length ih =>
      rw [converse]
      by_cases none : input = []
      · subst none
        rfl
      · have reads := takeLine_first none
        rw [dif_neg reads.nonempty, reads.lines_eq, Prompt.converse]
        dsimp only [say]
        cases decode ⟨(takeLine input).1.toArray⟩ with
        | error failure => rfl
        | ok text =>
            dsimp only [answer]
            rw [answer_eq]
            cases answerLine steps (session.say Prompt.request) text with
            | error halt => rfl
            | ok answered =>
                have again := ih _ (left ▸ reads.length_lt) answered.2
                  (told ++ errorText answered.1) (takeLine input).2 rfl
                refine Eq.trans ?_ again
                have reset := foldl_report answered.1 ⟨answered.2, told, false, false⟩
                exact congrArg
                  (fun console => (converse steps console (takeLine input).2).map outcome) reset

theorem run_eq (steps : Nat) (settings : Settings) (input : ByteArray) :
    run steps settings input.toList = prompt steps settings input :=
  converse_eq steps _ "" input.toList

end Console

end Lox.CommandLine
