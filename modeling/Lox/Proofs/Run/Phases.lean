import Lox.CommandLine.Script
import Lox.Proofs.Grammar.Totality
import Lox.Proofs.Run.Composed
import Lox.Proofs.Run.Unstuck
set_option autoImplicit false

/-! How far a script gets. Either its text cannot be divided into tokens, or these do not parse, or
the program runs; a script whose text is at fault is not run at all. -/

namespace Lox

/-! ### What the parser gives back -/

namespace Row

variable {α : Type} {outcome : EStateM.Result SyntaxReport ParserState α}

theorem concluded_ok {value : α} (concludes : Grammar.conclude outcome = .ok value) :
    (concluded outcome).1 = some value ∧ (concluded outcome).2.reports = [] := by
  cases outcome with
  | error report after => cases concludes
  | ok result after =>
      change (if after.reports.isEmpty then _ else _) = _ at concludes
      by_cases quiet : after.reports.isEmpty = true
      · rw [if_pos quiet] at concludes
        cases concludes
        exact ⟨if_pos quiet, List.isEmpty_iff.mp quiet⟩
      · rw [if_neg quiet] at concludes
        cases concludes

theorem concluded_error {reports : List SyntaxReport}
    (concludes : Grammar.conclude outcome = .error reports) :
    (concluded outcome).1 = none ∧ (concluded outcome).2.reports = reports ∧ reports ≠ [] := by
  cases outcome with
  | error report after =>
      cases concludes
      exact ⟨rfl, rfl, by simp⟩
  | ok result after =>
      change (if after.reports.isEmpty then _ else _) = _ at concludes
      by_cases quiet : after.reports.isEmpty = true
      · rw [if_pos quiet] at concludes
        cases concludes
      · rw [if_neg quiet] at concludes
        cases concludes
        exact ⟨if_neg quiet, rfl, fun none => quiet (List.isEmpty_iff.mpr none)⟩

end Row

namespace Cursor

/-- With enough fuel the parser gives back the result behind these reports, and it has marked
whether there were any. -/
def Gives (tokens : List Token) (result : Option (List Stmt)) (reports : List SyntaxReport) :
    Prop :=
  ∃ enough, ∀ fuel, enough ≤ fuel → ∃ cursor,
    parse fuel tokens = .ok (.ok result cursor) ∧ cursor.reports = reports ∧
      cursor.hadError = !reports.isEmpty

theorem gives_concluded (tokens : List Token) :
    let outcome := Grammar.program (Grammar.rules maxNesting maxNesting) (.ofTokens tokens)
    Gives tokens (Row.concluded outcome).1 (Row.concluded outcome).2.reports := by
  obtain ⟨row, of⟩ := Row.exists_of tokens
  refine ⟨max (maxNesting + 1) (row.visible.length + 1), fun fuel bound => ?_⟩
  have levels : maxNesting < fuel := by omega
  have within : row.visible.length < fuel := by omega
  have follows := Row.program_follows within (Row.rules_follow_start levels row within) none
  have withheld := Row.withheld_eq (follows _ of.fits)
  rw [of.cursor_eq] at withheld
  exact ⟨_, withheld, rfl, rfl⟩

theorem gives_of_ok {tokens : List Token} {statements : List Stmt}
    (parsed : parseProgram tokens = .ok statements) : Gives tokens (some statements) [] := by
  obtain ⟨result, quiet⟩ := Row.concluded_ok parsed
  have gives := gives_concluded tokens
  dsimp only at gives
  rw [result, quiet] at gives
  exact gives

theorem gives_of_error {tokens : List Token} {reports : List SyntaxReport}
    (failed : parseProgram tokens = .error reports) :
    Gives tokens none reports ∧ reports ≠ [] := by
  obtain ⟨result, noted, some⟩ := Row.concluded_error failed
  have gives := gives_concluded tokens
  dsimp only at gives
  rw [result, noted] at gives
  exact ⟨gives, some⟩

end Cursor

/-! ### What execution reports -/

/-- Whether it is reported by a run that neither lacks an output nor leaves the grammar. -/
def Diagnostic.isExecution : Diagnostic → Bool
  | runtime _ => true
  | callDepth _ => true
  | _ => false

namespace Output

/-- Every write fits, and so does every flush. -/
structure Accepts (output : Output) : Prop where
  unlimited : output.room = none
  flushes : output.flushFails = false

theorem Accepts.write {output : Output} (accepts : output.Accepts) (bytes : ByteArray) :
    ∃ later, output.write bytes = (later, none) ∧ later.Accepts := by
  refine ⟨{ output with written := output.written ++ bytes }, ?_, accepts.unlimited,
    accepts.flushes⟩
  unfold Output.write
  rw [accepts.unlimited]

theorem Accepts.flushError? {output : Output} (accepts : output.Accepts) :
    output.flushError? = none := by
  unfold Output.flushError?
  rw [accepts.flushes]
  rfl

end Output

namespace Run

/-- The outcome is as expected, and the output still accepts everything and did not cause it. -/
def Wrote {α : Type} (post : α → Prop) : EStateM.Result Interrupt Machine α → Prop
  | .ok result later => later.output.Accepts ∧ post result
  | .error interrupt later => later.output.Accepts ∧ ∀ error, interrupt ≠ .output error

def Writes {α : Type} (post : α → Prop) (action : Run α) : Prop :=
  ∀ machine : Machine, machine.output.Accepts → Wrote post (action machine)

theorem bind_writes {α β : Type} {middle : α → Prop} {post : β → Prop} {first : Run α}
    {second : α → Run β} (writes : first.Writes middle)
    (others : ∀ result, middle result → (second result).Writes post) :
    (first >>= second).Writes post := by
  intro machine accepts
  have wrote := writes machine accepts
  change Wrote post (EStateM.bind first second machine)
  unfold EStateM.bind
  cases ran : first machine with
  | ok result later =>
      rw [ran] at wrote
      exact others result wrote.2 later wrote.1
  | error interrupt later =>
      rw [ran] at wrote
      exact wrote

theorem lookup_writes (scope : ScopeId) (name : Token) :
    (lookup scope name).Writes fun _ => True := by
  intro machine accepts
  unfold lookup
  split
  · exact ⟨accepts, trivial⟩
  · exact ⟨accepts, fun _ same => nomatch same⟩

theorem assign_writes (scope : ScopeId) (name : Token) (value : Value) :
    (assign scope name value).Writes fun _ => True := by
  intro machine accepts
  unfold assign
  split
  · exact ⟨accepts, trivial⟩
  · exact ⟨accepts, fun _ same => nomatch same⟩

theorem print_writes (value : Value) : (print value).Writes fun _ => True := by
  intro machine accepts
  obtain ⟨later, written, still⟩ := accepts.write (value.text ++ "\n").toUTF8
  unfold print
  rw [written]
  exact ⟨still, trivial⟩

theorem releasing_writes {α : Type} {post : α → Prop} {body : Run α} (settings : Settings)
    (scope : ScopeId) (writes : body.Writes post) :
    (releasing settings scope body).Writes post := by
  intro machine accepts
  have wrote := writes machine accepts
  unfold releasing
  cases ran : body machine with
  | ok result later =>
      rw [ran] at wrote
      dsimp only
      split <;> exact wrote
  | error interrupt later =>
      rw [ran] at wrote
      dsimp only
      split <;> exact wrote

theorem counted_writes {α : Type} {post : α → Prop} {call : Run α} (settings : Settings)
    (writes : call.Writes post) : (counted settings call).Writes post := by
  intro machine accepts
  have wrote := writes { machine with callDepth := machine.callDepth + 1 } accepts
  unfold counted
  split
  · exact ⟨accepts, fun _ same => nomatch same⟩
  · cases ran : call { machine with callDepth := machine.callDepth + 1 } with
    | ok result later =>
        rw [ran] at wrote
        exact wrote
    | error interrupt later =>
        rw [ran] at wrote
        exact wrote

theorem returned_writes {body : Run Unit} (writes : body.Writes fun _ => True) :
    (returned body).Writes fun _ => True := by
  intro machine accepts
  have wrote := writes machine accepts
  unfold returned
  cases ran : body machine with
  | ok result later =>
      rw [ran] at wrote
      exact wrote
  | error interrupt later =>
      rw [ran] at wrote
      cases interrupt with
      | returning value => exact ⟨wrote.1, trivial⟩
      | failure | callDepth | output | stuck | exhausted => exact wrote

theorem writes_composes : Composes .any Writes where
  pure _ holds _ accepts := ⟨accepts, holds⟩
  throw _ inner _ _ accepts := ⟨accepts, inner⟩
  bind := bind_writes
  lookup scope name _ := lookup_writes scope name
  assign scope name value _ _ := assign_writes scope name value
  define _ _ _ _ _ _ _ accepts := ⟨accepts, trivial⟩
  capture _ _ _ accepts := ⟨accepts, trivial⟩
  push _ _ _ accepts := ⟨accepts, trivial⟩
  print := print_writes
  releasing settings scope _ writes := releasing_writes settings scope writes
  counted settings writes := counted_writes settings writes
  returned := returned_writes

end Run

namespace Session

variable {session : Session} {statements : List Stmt} {steps : Nat} {machine : Machine}

/-- With such an output, only the work itself is told about. -/
theorem runStatements_eq {outcome : EStateM.Result Interrupt Machine Unit}
    (ran : (evaluator session.settings steps).executeAll Arena.globalScope statements
      session.machine = outcome) (accepts : (Moment.ofOutcome outcome).machine.output.Accepts) :
    session.runStatements steps statements
      = (Moment.ofOutcome outcome).control.errors.map fun diagnostics =>
          (diagnostics, { session with machine := (Moment.ofOutcome outcome).machine }) := by
  have answered := session.submit_eq steps (.program statements)
  have worked : (Submission.program statements).work session.settings steps session.machine
      = outcome := ran
  dsimp only at answered
  rw [worked] at answered
  unfold Submission.verdict at answered
  rw [accepts.flushError?] at answered
  refine answered.trans ?_
  cases (Moment.ofOutcome outcome).control.errors with
  | error halt => rfl
  | ok diagnostics =>
      change Except.ok (diagnostics ++ [], _) = _
      rw [List.append_nil]
      rfl

/-- A program that parsed is run without getting stuck, and reports at most one error of its own,
when nothing is wrong with the output. Too few steps are allowed only if the run takes more. -/
theorem runStatements_reports (accepts : session.machine.output.Accepts)
    (runnable : session.machine.Runnable) (runs : (Submission.program statements).Runnable)
    (steps : Nat) :
    Moment.Lasts session.settings steps ((Submission.program statements).begin session.machine) ∧
        session.runStatements steps statements = .error .exhausted ∨
      ∃ (found : Option Diagnostic) (later : Session),
        session.runStatements steps statements = .ok (found.toList, later) ∧
        ∀ diagnostic ∈ found, diagnostic.isExecution = true := by
  have all := Run.writes_composes.evaluator_all session.settings steps
  have wrote : Run.Wrote (fun _ => True)
      ((evaluator session.settings steps).executeAll Arena.globalScope statements
        session.machine) :=
    Run.writes_composes.executeAll all trivial (fun _ _ _ _ => trivial) session.machine accepts
  cases ran : (evaluator session.settings steps).executeAll Arena.globalScope statements
      session.machine with
  | ok done machine =>
      rw [ran] at wrote
      exact Or.inr ⟨none, _, runStatements_eq ran wrote.1, fun _ member => nomatch member⟩
  | error interrupt machine =>
      rw [ran] at wrote
      have answered := runStatements_eq ran wrote.1
      cases interrupt with
      | exhausted =>
          have lasts := (Submission.program statements).work_meets session.settings steps
            session.machine
          have worked : (Submission.program statements).work session.settings steps session.machine
              = .error .exhausted machine := ran
          rw [worked] at lasts
          exact Or.inl ⟨lasts, answered⟩
      | failure cause =>
          refine Or.inr ⟨some (.runtime cause), _, answered, fun diagnostic member => ?_⟩
          cases member
          rfl
      | callDepth limit =>
          refine Or.inr ⟨some (.callDepth limit), _, answered, fun diagnostic member => ?_⟩
          cases member
          rfl
      | output error => exact absurd rfl (wrote.2 error)
      | stuck => exact absurd answered (submit_ne_stuck runnable runs steps)
      | returning value =>
          have reported : session.submit steps (.program statements)
              = .ok ([.strayReturn], { session with machine }) := answered
          exact absurd List.mem_cons_self (submit_runs runnable runs reported).2

end Session

namespace CommandLine

/-! ### Scripts -/

open Moment

inductive Phase where
  | scanning
  | parsing
  | running
  deriving DecidableEq, Repr

/-- The first moment of the run of a program that was parsed. -/
def scriptBegin (settings : Settings) (statements : List Stmt) : Moment :=
  (Submission.program ((openSession settings).load statements).1).begin
    (openSession settings).machine

/-- A script gets as far as a phase, with the outcome that belongs to it. Only if a run lasts for
more steps than are allowed there is no outcome. -/
def EndsIn (steps : Nat) (settings : Settings) (source : String) : Phase → Prop
  | .scanning => ∃ failure,
    Token.scan source = .error failure ∧
    (openSession settings).run steps .program source
      = .ok ([.lexical failure], openSession settings) ∧
    script steps settings (.ok source.toUTF8) = .ok ⟨65, .empty, errorText [.lexical failure]⟩
  | .parsing => ∃ tokens reports,
    Token.scan source = .ok tokens ∧ parseProgram tokens = .error reports ∧
    Cursor.Gives tokens none reports ∧ reports ≠ [] ∧
    (openSession settings).run steps .program source
      = .ok (reports.map .syntactic, openSession settings) ∧
    script steps settings (.ok source.toUTF8)
      = .ok ⟨65, .empty, errorText (reports.map .syntactic)⟩
  | .running => ∃ tokens statements,
    Token.scan source = .ok tokens ∧ parseProgram tokens = .ok statements ∧
    Cursor.Gives tokens (some statements) [] ∧
    (openSession settings).run steps .program source
      = (openSession settings).runProgram steps .program statements ∧
    (Lasts settings steps (scriptBegin settings statements) ∧
        (openSession settings).runProgram steps .program statements = .error .exhausted ∧
        script steps settings (.ok source.toUTF8) = .error .exhausted ∨
      ∃ (found : Option Diagnostic) (session : Session),
        (openSession settings).runProgram steps .program statements
          = .ok (found.toList, session) ∧
        (∀ diagnostic ∈ found, diagnostic.isExecution = true) ∧
        script steps settings (.ok source.toUTF8)
          = .ok ⟨if found.isSome then 70 else 0, session.machine.output.written,
            errorText found.toList⟩)

theorem decode_toUTF8 (source : String) : decode source.toUTF8 = .ok source := by
  have text : String.fromUTF8? source.toUTF8 = some source := dif_pos source.isValidUTF8
  unfold decode
  rw [text]

/-- What becomes of a script is told by what comes of its run. -/
theorem script_eq (steps : Nat) (settings : Settings) (source : String) :
    script steps settings (.ok source.toUTF8)
      = ((openSession settings).run steps .program source).map fun ran =>
          ⟨exitCode ran.1, ran.2.machine.output.written, errorText ran.1⟩ := by
  have contents : Except.ok source.toUTF8 >>= decode = .ok source := decode_toUTF8 source
  unfold script
  rw [contents]
  dsimp only
  unfold runScript
  cases (openSession settings).run steps .program source <;> rfl

theorem exitCode_execution {found : Option Diagnostic}
    (execution : ∀ diagnostic ∈ found, diagnostic.isExecution = true) :
    exitCode found.toList = if found.isSome then 70 else 0 := by
  cases found with
  | none => rfl
  | some diagnostic =>
      have own := execution diagnostic rfl
      cases diagnostic <;> first | rfl | cases own

theorem exitCode_static {diagnostics : List Diagnostic} (some : diagnostics ≠ [])
    (static : ∀ diagnostic ∈ diagnostics, diagnostic.isStatic = true) :
    exitCode diagnostics = 65 := by
  obtain ⟨first, others, rfl⟩ := List.exists_cons_of_ne_nil some
  unfold exitCode
  rw [List.any_cons, static first List.mem_cons_self]
  rfl

/-- A program that parsed is executed, to an end with at most one error of its own. -/
theorem runProgram_reports {tokens : List Token} {statements : List Stmt}
    (parsed : parseProgram tokens = .ok statements) (steps : Nat) (settings : Settings) :
    Lasts settings steps (scriptBegin settings statements) ∧
        (openSession settings).runProgram steps .program statements = .error .exhausted ∨
      ∃ (found : Option Diagnostic) (session : Session),
        (openSession settings).runProgram steps .program statements
          = .ok (found.toList, session) ∧
        ∀ diagnostic ∈ found, diagnostic.isExecution = true := by
  have runs := (Submission.Parsed.program (openSession settings).nextLabel parsed).runnable
  let loaded : Session :=
    { openSession settings with
      nextLabel := (Stmt.labelledAll (openSession settings).nextLabel statements).2 }
  have accepts : loaded.machine.output.Accepts := ⟨rfl, rfl⟩
  exact Session.runStatements_reports accepts (Machine.initial_runnable .unlimited) runs steps

section

variable {steps : Nat} {settings : Settings} {source : String} {tokens : List Token}

theorem ends_scanning {failure : LexicalFailure} (scanned : Token.scan source = .error failure) :
    EndsIn steps settings source .scanning := by
  have told := script_eq steps settings source
  have ran : (openSession settings).run steps .program source
      = .ok ([.lexical failure], openSession settings) := by
    unfold Session.run
    rw [scanned]
    rfl
  rw [ran] at told
  exact ⟨failure, scanned, ran, told⟩

theorem ends_parsing {reports : List SyntaxReport} (scanned : Token.scan source = .ok tokens)
    (parsed : parseProgram tokens = .error reports) : EndsIn steps settings source .parsing := by
  have told := script_eq steps settings source
  obtain ⟨gives, some⟩ := Cursor.gives_of_error parsed
  have ran : (openSession settings).run steps .program source
      = .ok (reports.map .syntactic, openSession settings) := by
    unfold Session.run
    rw [scanned]
    dsimp only
    rw [parsed]
    rfl
  have code : exitCode (reports.map .syntactic) = 65 := by
    refine exitCode_static (fun none => some (List.map_eq_nil_iff.mp none)) ?_
    intro diagnostic member
    obtain ⟨report, _, rfl⟩ := List.mem_map.mp member
    rfl
  rw [ran] at told
  dsimp only [Except.map] at told
  rw [code] at told
  exact ⟨tokens, reports, scanned, parsed, gives, some, ran, told⟩

theorem ends_running {statements : List Stmt} (scanned : Token.scan source = .ok tokens)
    (parsed : parseProgram tokens = .ok statements) : EndsIn steps settings source .running := by
  have told := script_eq steps settings source
  have ran : (openSession settings).run steps .program source
      = (openSession settings).runProgram steps .program statements := by
    unfold Session.run
    rw [scanned]
    dsimp only
    rw [parsed]
  rw [ran] at told
  refine ⟨tokens, statements, scanned, parsed, Cursor.gives_of_ok parsed, ran, ?_⟩
  rcases runProgram_reports parsed steps settings with ⟨lasts, short⟩ | ⟨found, session, ended, own⟩
  · rw [short] at told
    exact Or.inl ⟨lasts, short, told⟩
  · rw [ended] at told
    refine Or.inr ⟨found, session, ended, own, ?_⟩
    rw [← exitCode_execution own]
    exact told

/-- The phase is settled by what scanning and parsing give. -/
theorem EndsIn.unique {phase other : Phase} (ends : EndsIn steps settings source phase)
    (endsOther : EndsIn steps settings source other) : phase = other := by
  cases phase with
  | scanning =>
      obtain ⟨failure, scanned, _⟩ := ends
      cases other with
      | scanning => rfl
      | parsing | running =>
          obtain ⟨tokens, _, scannedOther, _⟩ := endsOther
          exact nomatch scanned.symm.trans scannedOther
  | parsing =>
      obtain ⟨tokens, reports, scanned, parsed, _⟩ := ends
      cases other with
      | parsing => rfl
      | scanning =>
          obtain ⟨failure, scannedOther, _⟩ := endsOther
          exact nomatch scanned.symm.trans scannedOther
      | running =>
          obtain ⟨tokensOther, statements, scannedOther, parsedOther, _⟩ := endsOther
          cases scanned.symm.trans scannedOther
          exact nomatch parsed.symm.trans parsedOther
  | running =>
      obtain ⟨tokens, statements, scanned, parsed, _⟩ := ends
      cases other with
      | running => rfl
      | scanning =>
          obtain ⟨failure, scannedOther, _⟩ := endsOther
          exact nomatch scanned.symm.trans scannedOther
      | parsing =>
          obtain ⟨tokensOther, reports, scannedOther, parsedOther, _⟩ := endsOther
          cases scanned.symm.trans scannedOther
          exact nomatch parsed.symm.trans parsedOther

end

end CommandLine

end Lox
