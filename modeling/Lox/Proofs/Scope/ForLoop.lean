import Lox.Proofs.Grammar.Placement
import Lox.Proofs.Scope.Matching
import Lox.Proofs.Scope.Watch
set_option autoImplicit false

/-! What a `for` loop means. The statement that it stands for opens a scope in every round, for the
body and the increment; as the body declares nothing there, that scope is empty, and the loop does
the same as one that runs its rounds in a single scope. -/

namespace Lox

/-! ### Loops with an initializer and an increment -/

namespace Evaluator

open Run

/-- Without a condition a loop goes on. -/
def goesOn (self : Evaluator) (scope : ScopeId) : Option Expr → Run Bool
  | none => return true
  | some condition => self.isTrue scope condition

def advance (self : Evaluator) (scope : ScopeId) : Option Expr → Run Unit
  | none => return ()
  | some increment => do
    let _ ← self.evaluate scope increment

/-- Each round runs the body and then, unless the body was interrupted, the increment. -/
def forRounds (self : Evaluator) (scope : ScopeId) (condition increment : Option Expr)
    (body : Stmt) : Run Unit :=
  loop (self.goesOn scope condition)
    (do
      self.execute scope body
      self.advance scope increment)
    self.rounds

/-- A loop with an initializer has one scope, in which all of it runs. -/
def forLoop (settings : Settings) (self : Evaluator) (scope : ScopeId) (initializer : Option Stmt)
    (condition increment : Option Expr) (body : Stmt) : Run Unit :=
  match initializer with
  | none => self.forRounds scope condition increment body
  | some first => do
    let inner ← push scope
    releasing settings inner do
      self.execute inner first
      self.forRounds inner condition increment body

end Evaluator

/-! ### The statement that a loop stands for -/

namespace Short

variable {short : Short} {levels steps others : Nat}

/-- A level more of the copy either is worked on or is what cuts it short. -/
theorem Allows.level_matches {settings : Settings} {base tandem : Tandem} {action : Run Unit}
    (allows : short.Allows (levels + 1) steps others) (other : ScopeId) (statement : Stmt)
    (below : ∀ fewer, short.Allows levels steps fewer →
      Run.Matches short base tandem Tandem.Done action
        ((evaluator settings fewer).executeNode settings other statement)) :
    Run.Matches short base tandem Tandem.Done action
      ((evaluator settings others).execute other statement) := by
  cases others with
  | zero => exact Or.inl (allows.excuses_second (Nat.succ_pos _) ⟨tandem.copy, rfl⟩)
  | succ fewer =>
      rw [evaluator_succ]
      exact below fewer allows.down

end Short

namespace Run

variable {short : Short} {base tandem : Tandem} {scope other : ScopeId}

/-- The copy opens a scope of its own. -/
theorem screened_matches {action : Run Unit} {body : ScopeId → Run Unit}
    (matching : Matches short base (tandem.screened other) Tandem.Done action
      (body tandem.copy.arena.size)) :
    Matches short base tandem Tandem.Done action (push other >>= body) :=
  matching

end Run

namespace Evaluator

open Run

variable {settings : Settings} {short : Short} {steps others : Nat} {tandem : Tandem}
variable {scope other : ScopeId}

theorem goesOn_matches (allows : short.Allows 1 steps others) (works : tandem.Works scope other)
    (condition : Option Expr) :
    Run.Matches short tandem tandem (fun _ holds same => same = holds)
      ((evaluator settings steps).goesOn scope condition)
      ((evaluator settings others).isTrue other (condition.getD (.literal (.bool true)))) := by
  cases condition with
  | some condition => exact (evaluator_matches settings allows.level).isTrue works condition
  | none =>
      cases others with
      | zero => exact Or.inl (allows.excuses_second (Nat.succ_pos _) ⟨tandem.copy, rfl⟩)
      | succ others =>
          rw [evaluator_succ settings others]
          exact .pure works.matched.leads rfl

/-- The body and the increment do the same in a scope between them and that of the loop. -/
theorem round_matches (allows : short.Allows 2 steps others) (works : tandem.Works scope other)
    {body : Stmt} (plain : body.declaredNames = []) (increment : Option Expr) :
    Run.Matches short tandem tandem Tandem.Done
      (do
        (evaluator settings steps).execute scope body
        (evaluator settings steps).advance scope increment)
      ((evaluator settings others).execute other (body.withIncrement increment)) := by
  cases increment with
  | none =>
      change Run.Matches short tandem tandem Tandem.Done
        (do
          (evaluator settings steps).execute scope body
          pure ())
        ((evaluator settings others).execute other body)
      rw [bind_pure_unit]
      exact (evaluator_matches settings allows.level).execute body works (Or.inl plain)
  | some increment =>
      refine allows.level_matches other _ fun others allows => ?_
      obtain ⟨leads, inside⟩ := works.screened
      have matched := works.matched
      refine screened_matches (releasing_copy_matches ?_ matched (Nat.le_refl _))
      have bodies := (evaluator_matches settings allows.level).execute body inside (Or.inl plain)
      refine bodies.bind leads fun later _ _ further _ => ?_
      have onwards := leads.trans further
      change Run.Matches short tandem later Tandem.Done _
        (do
          (evaluator settings others).execute _ (.expression increment)
          pure ())
      rw [bind_pure_unit]
      refine allows.level_matches _ _ fun others allows => ?_
      refine ((evaluator_matches settings allows).evaluate increment (further.works inside)).bind
        onwards fun _ _ _ last _ => ?_
      exact .pure (onwards.trans last) trivial

theorem forRounds_matches (allows : short.Allows 3 steps others) (works : tandem.Works scope other)
    {body : Stmt} (plain : body.declaredNames = []) (condition increment : Option Expr) :
    Run.Matches short tandem tandem Tandem.Done
      ((evaluator settings steps).forRounds scope condition increment body)
      ((evaluator settings others).execute other
        (.loop (condition.getD (.literal (.bool true))) (body.withIncrement increment))) := by
  refine allows.level_matches other _ fun others allows => ?_
  refine loop_matches allows.level works.matched ?_ ?_
  · exact fun later leads => goesOn_matches allows.fewer (leads.works works) condition
  · exact fun later leads => round_matches allows (leads.works works) plain increment

theorem forLoop_matches (settings : Settings) (allows : short.Allows 4 steps others)
    (matched : tandem.Matched) (pair : tandem.pairs scope other) {body : Stmt}
    (plain : body.declaredNames = []) (initializer : Option Stmt)
    (condition increment : Option Expr) :
    Run.Matches short tandem tandem Tandem.Done
      ((evaluator settings steps).forLoop settings scope initializer condition increment body)
      ((evaluator settings others).execute other
        (.forLoop initializer condition increment body)) := by
  have works := Tandem.Works.of_pair matched pair
  cases initializer with
  | none => exact forRounds_matches allows.fewer works plain condition increment
  | some first =>
      refine allows.level_matches other _ fun others allows => ?_
      refine (push_matches works).bind matched.leads fun later inner copyInner leads opened => ?_
      obtain ⟨rfl, rfl, rfl⟩ := opened
      have inside : (tandem.opened scope other).pairs tandem.machine.arena.size
        tandem.copy.arena.size := Or.inr ⟨rfl, rfl⟩
      refine releasing_matches ?_ matched (Nat.le_refl _) (Nat.le_refl _)
      have firsts := (evaluator_matches settings allows.level).execute first
        (.of_pair leads.matched inside) (Or.inr inside)
      refine firsts.bind leads fun later _ _ further _ => ?_
      change Run.Matches short tandem later Tandem.Done _
        (do
          (evaluator settings others).execute _ _
          pure ())
      rw [bind_pure_unit]
      have still := further.pair leads.matched inside
      exact (forRounds_matches allows (.of_pair further.matched still) plain condition
        increment).earlier (leads.trans further)

end Evaluator

/-! ### What can be told apart -/

/-- A machine in tandem with itself. -/
def Tandem.same (machine : Machine) : Tandem where
  machine
  copy := machine
  pairs id other := id = other ∧ id < machine.arena.size

theorem Value.Anchored.matches {machine : Machine} {value : Value}
    (anchored : value.Anchored machine.arena) :
    value.Matches (Tandem.same machine).pairs value := by
  cases value with
  | literal value => exact .literal value
  | callable function =>
      cases function with
      | clock => exact .clock
      | closure declaration scope =>
          exact .closure declaration ⟨rfl, Arena.Captures.lt_size anchored⟩

theorem Machine.Grounded.same {machine : Machine} (grounded : machine.Grounded) :
    (Tandem.same machine).Matched := by
  refine ⟨grounded, grounded, ⟨?_, ?_⟩, rfl, rfl⟩
  · intro id other first second pair next
    rw [pair.1, next.1]
  · intro id other pair
    obtain ⟨rfl, inside⟩ := pair
    obtain ⟨scope, found⟩ := Arena.exists_of_lt_size inside
    refine ⟨scope, scope, found, found, .refl ?_, ?_⟩
    · exact fun name value member =>
        (grounded.anchored value ⟨id, scope, name, found, member⟩).matches
    · cases link : scope.enclosing with
      | none => exact .none
      | some outer =>
          have before := grounded.rooted.outer_lt found link
          exact .some (.paired ⟨rfl, Nat.lt_trans before inside⟩)

/-- The same interrupt, or the return of matching values. -/
inductive Interrupt.Matches (pairs : Pairing) : Interrupt → Interrupt → Prop
  | returning {value other : Value} (same : value.Matches pairs other) :
      Matches pairs (.returning value) (.returning other)
  | plain (interrupt : Interrupt) (holds : interrupt.values = []) :
      Matches pairs interrupt interrupt

/-- Two machines behind runs from one machine, which cannot be told apart. They printed the same,
and but for the numbers of the scopes that the runs opened, every name has the same value on both,
as seen from a scope that was there and also from those that closures have captured meanwhile. -/
structure Machine.Indistinct (start machine other : Machine) (pairs : Pairing) : Prop where
  output : other.output = machine.output
  callDepth : other.callDepth = machine.callDepth
  oneToOne : ∀ {id next first second : ScopeId}, pairs id first → pairs next second →
    (id = next ↔ first = second)
  kept : ∀ id < start.arena.size, pairs id id
  sees : ∀ id partner name, pairs id partner →
    Option.Rel (Value.Matches pairs) (machine.arena.get? id name) (other.arena.get? partner name)

/-- Two runs from one machine that come to the same end, and leave indistinct machines. -/
def Run.Indistinct (start : Machine) :
    EStateM.Result Interrupt Machine Unit → EStateM.Result Interrupt Machine Unit → Prop
  | .ok _ machine, .ok _ other => ∃ pairs, start.Indistinct machine other pairs
  | .error interrupt machine, .error same other =>
    ∃ pairs, start.Indistinct machine other pairs ∧ interrupt.Matches pairs same
  | _, _ => False

theorem Tandem.Leads.indistinct {machine : Machine} {later : Tandem}
    (leads : (Tandem.same machine).Leads later) :
    machine.Indistinct later.machine later.copy later.pairs where
  output := leads.matched.output
  callDepth := leads.matched.callDepth
  oneToOne := leads.matched.arenas.single
  kept id inside := (leads.pairs id id (Or.inl inside)).mpr ⟨rfl, inside⟩
  sees _id _partner name pair :=
    leads.matched.arenas.get?_rel leads.matched.grounded.rooted leads.matched.copyGrounded.rooted
      (.paired pair) name

theorem Tandem.Fails.matches {tandem : Tandem} {interrupt same : Interrupt}
    (fails : tandem.Fails interrupt same) : interrupt.Matches tandem.pairs same := by
  cases fails with
  | returning carries => exact .returning carries.same
  | plain interrupt holds => exact .plain interrupt holds

theorem Tandem.Ends.indistinct {machine : Machine}
    {outcome other : EStateM.Result Interrupt Machine Unit}
    (ends : (Tandem.same machine).Ends Tandem.Done outcome other) :
    Run.Indistinct machine outcome other := by
  rcases ends.cases with ⟨later, _done, _same, rfl, rfl, leads, _holds⟩ |
    ⟨later, interrupt, same, rfl, rfl, leads, fails⟩
  · exact ⟨later.pairs, leads.indistinct⟩
  · exact ⟨later.pairs, leads.indistinct, fails.matches⟩

theorem Run.Indistinct.exhausts_iff {start : Machine}
    {outcome other : EStateM.Result Interrupt Machine Unit}
    (indistinct : Run.Indistinct start outcome other) :
    Run.Exhausts outcome ↔ Run.Exhausts other := by
  constructor
  · rintro ⟨later, rfl⟩
    cases other with
    | ok => exact indistinct.elim
    | error interrupt machine =>
        obtain ⟨pairs, _indistinct, same⟩ := indistinct
        cases same
        exact ⟨machine, rfl⟩
  · rintro ⟨later, rfl⟩
    cases outcome with
    | ok => exact indistinct.elim
    | error interrupt machine =>
        obtain ⟨pairs, _indistinct, same⟩ := indistinct
        cases same
        exact ⟨machine, rfl⟩

/-! ### Loops as they are written -/

theorem Clause.labelled_desugar (only : Clause) (next : Nat) :
    only.desugar.labelled next = (only.desugar, next) := by
  cases only <;> rfl

theorem Stmt.labelled_withIncrement (body : Stmt) (increment : Option Expr) (next : Nat) :
    (body.withIncrement increment).labelled next
      = ((body.labelled next).1.withIncrement increment, (body.labelled next).2) := by
  cases increment <;> rfl

/-- A loop that is loaded is the loop of its loaded body. -/
theorem Surface.labelled_forLoop (initializer : Option Clause) (condition increment : Option Expr)
    (statement : Surface) (next : Nat) :
    ((Surface.forLoop initializer condition increment statement).desugar.labelled next).1
      = Stmt.forLoop (initializer.map Clause.desugar) condition increment
          (statement.desugar.labelled next).1 := by
  rw [desugar, Stmt.forLoop, Stmt.forLoop]
  cases initializer with
  | none =>
      change (Stmt.loop _ ((statement.desugar.withIncrement increment).labelled next).1) = _
      rw [Stmt.labelled_withIncrement]
      rfl
  | some only =>
      change Stmt.block (Stmt.labelledAll next [only.desugar,
        .loop _ (statement.desugar.withIncrement increment)]).1 = _
      simp only [Stmt.labelledAll, Stmt.labelled, only.labelled_desugar,
        Stmt.labelled_withIncrement]
      rfl

namespace Surface

variable {settings : Settings} {start : Machine} {functions : Nat}
variable {initializer : Option Clause} {condition increment : Option Expr} {statement : Surface}

/-- The loaded loop and its rounds, run from one machine for numbers of steps that allow it. -/
theorem Formed.forLoop_indistinct
    (formed : (Surface.forLoop initializer condition increment statement).Formed functions)
    (grounded : start.Grounded) {scope : ScopeId} (live : scope < start.arena.size) (next : Nat)
    {short : Short} {steps others : Nat} (allows : short.Allows 4 steps others)
    (enough : ¬ short.Excuses
      ((evaluator settings steps).forLoop settings scope (initializer.map Clause.desugar)
        condition increment (statement.desugar.labelled next).1 start)
      ((evaluator settings others).execute scope
        ((Surface.forLoop initializer condition increment statement).desugar.labelled next).1
        start)) :
    Run.Indistinct start
      ((evaluator settings steps).forLoop settings scope (initializer.map Clause.desugar)
        condition increment (statement.desugar.labelled next).1 start)
      ((evaluator settings others).execute scope
        ((Surface.forLoop initializer condition increment statement).desugar.labelled next).1
        start) := by
  cases formed with
  | forLoop first canonical last states formed =>
      have plain : (statement.desugar.labelled next).1.declaredNames = [] := by
        rw [(formed.placed.labelled next).declaredNames, Stmt.declaration?_labelled,
          declaration?_desugar states]
        rfl
      rw [labelled_forLoop] at enough ⊢
      have matching := Evaluator.forLoop_matches settings allows grounded.same ⟨rfl, live⟩ plain
        (initializer.map Clause.desugar) condition increment
      exact (matching.resolve_left enough).indistinct

end Surface

/-- A `for` loop means what it says. For every loop that the grammar allows, run in any scope at any
stage of a session, the loaded statement comes to an end exactly if the loop in rounds does. Then
the two print the same, end normally or with the same interrupt, and leave indistinct machines. -/
theorem for_loops_run_in_rounds (settings : Settings) (output : Output)
    (submissions : List Submission) (length : Nat) (stage : Stage)
    (arrived : (Stage.start (.initial output) submissions).after settings length = some stage)
    {functions : Nat} {initializer : Option Clause} {condition increment : Option Expr}
    {statement : Surface}
    (formed : (Surface.forLoop initializer condition increment statement).Formed functions)
    (next : Nat) (scope : ScopeId) (live : scope < stage.moment.machine.arena.size) :
    let start := stage.moment.machine
    let written := Surface.forLoop initializer condition increment statement
    let loop := (written.desugar.labelled next).1
    let body := (statement.desugar.labelled next).1
    let runs steps := (evaluator settings steps).execute scope loop start
    let means steps := (evaluator settings steps).forLoop settings scope
      (initializer.map Clause.desugar) condition increment body start
    ((∃ steps, ¬ Run.Exhausts (runs steps)) ↔ ∃ steps, ¬ Run.Exhausts (means steps)) ∧
      ∀ steps others, ¬ Run.Exhausts (means steps) → ¬ Run.Exhausts (runs others) →
        Run.Indistinct start (means steps) (runs others) := by
  intro start written loop body runs means
  have grounded : start.Grounded := by
    have moment : stage.moment.Grounded :=
      afterSteps_keeps (fun _ _ good stepped => Stage.next_grounded good stepped)
        (Moment.done_grounded (Machine.initial_grounded output).ground) arrived
    obtain ⟨_scope, ground, _here, _values⟩ := moment
    exact ground.grounded
  refine ⟨⟨?_, ?_⟩, ?_⟩
  · rintro ⟨steps, ended⟩
    have allows : Short.second.Allows 4 steps steps := Nat.le_refl steps
    have indistinct := formed.forLoop_indistinct grounded live next allows ended
    exact ⟨steps, mt indistinct.exhausts_iff.mp ended⟩
  · rintro ⟨steps, ended⟩
    have allows : Short.first.Allows 4 steps (steps + 4) := Nat.le_refl (steps + 4)
    have indistinct := formed.forLoop_indistinct grounded live next allows ended
    exact ⟨steps + 4, mt indistinct.exhausts_iff.mpr ended⟩
  · intro steps others ended otherEnded
    have allows : Short.either.Allows 4 steps others := trivial
    exact formed.forLoop_indistinct grounded live next allows fun cut => cut.elim ended otherEnded

/-- The variable of `for (var go = true; go; go = false) { fun f() {} }`. -/
def goToken : Token :=
  ⟨.identifier, "go", .nil, 1⟩

def goFirst : Clause :=
  .variable goToken (some (.literal (.bool true)))

def goLast : Expr :=
  .assign goToken (.literal (.bool false))

def goBody : Surface :=
  .block [.function ⟨.identifier, "f", .nil, 1⟩ [] []]

/-- The scope of the round stays behind such a loop, as a scope inside of it is captured; so there
is one scope more, and nothing else differs. -/
theorem capturing_loop_runs_in_rounds :
    ∃ machine other : Machine,
      (evaluator {} 9).forLoop {} Arena.globalScope (some goFirst.desugar)
          (some (.variable goToken)) (some goLast) (goBody.desugar.labelled 0).1
          (.initial .unlimited) = .ok () machine ∧
      (evaluator {} 9).execute Arena.globalScope
          ((Surface.forLoop (some goFirst) (some (.variable goToken)) (some goLast)
            goBody).desugar.labelled 0).1 (.initial .unlimited) = .ok () other ∧
      machine.arena.size = 3 ∧ other.arena.size = 4 ∧
      Run.Indistinct (.initial .unlimited) (.ok () machine) (.ok () other) := by
  have formed : (Surface.forLoop (some goFirst) (some (.variable goToken)) (some goLast)
      goBody).Formed 0 := by
    refine .forLoop ?_ ?_ ?_ rfl (.block ?_)
    · rintro _ ⟨⟩
      exact ⟨rfl, by rintro _ ⟨⟩; exact .literal _⟩
    · rintro _ ⟨⟩
      exact .variable rfl
    · rintro _ ⟨⟩
      exact .assign rfl (.literal _)
    · intro statement member
      rw [List.mem_singleton.mp member]
      exact .function rfl (Nat.zero_le _) (by simp) (by simp)
  obtain ⟨_ends, indistinct⟩ := for_loops_run_in_rounds {} .unlimited [] 0
    (Stage.start (.initial .unlimited) []) rfl formed 0 Arena.globalScope Nat.zero_lt_one
  have ended := indistinct 9 9 (fun ⟨_, same⟩ => nomatch same) (fun ⟨_, same⟩ => nomatch same)
  exact ⟨_, _, rfl, rfl, rfl, rfl, ended⟩

end Lox
