import Mathlib.Data.List.Forall2
import Lox.Proofs.Run.Composed
import Lox.Proofs.Scope.Lockstep
import Lox.Proofs.Scope.Tandem
set_option autoImplicit false

/-! Runs in tandem. The same tree, worked on in paired scopes of two machines in tandem, comes to
the same on both; also in a scope of the copy that only shows the other one, as long as the tree
declares nothing there. The two runs may be given different numbers of steps, so one may be cut
short. -/

namespace Lox

/-! ### Runs that are cut short -/

/-- The outcome of a run that was given too few steps. -/
def Run.Exhausts {α : Type} (outcome : EStateM.Result Interrupt Machine α) : Prop :=
  ∃ later, outcome = .error .exhausted later

/-- Which of two runs may have been given too few steps. -/
inductive Short where
  | first
  | second
  | either

namespace Short

variable {α β : Type} {short : Short}

def Excuses (outcome : EStateM.Result Interrupt Machine α)
    (other : EStateM.Result Interrupt Machine β) : Short → Prop
  | first => Run.Exhausts outcome
  | second => Run.Exhausts other
  | either => Run.Exhausts outcome ∨ Run.Exhausts other

/-- The run that may not be cut short has enough steps for what the other can do, where the second
run goes down some levels more. -/
def Allows (levels steps others : Nat) : Short → Prop
  | first => steps + levels ≤ others
  | second => others ≤ steps
  | either => True

theorem Excuses.imp {γ δ : Type} {outcome : EStateM.Result Interrupt Machine α}
    {other : EStateM.Result Interrupt Machine β} {whole : EStateM.Result Interrupt Machine γ}
    {wholeOther : EStateM.Result Interrupt Machine δ} (excuses : short.Excuses outcome other)
    (passes : Run.Exhausts outcome → Run.Exhausts whole)
    (otherPasses : Run.Exhausts other → Run.Exhausts wholeOther) :
    short.Excuses whole wholeOther := by
  cases short with
  | first => exact passes excuses
  | second => exact otherPasses excuses
  | either => exact excuses.imp passes otherPasses

variable {levels steps others : Nat}

theorem Allows.down (allows : short.Allows (levels + 1) steps (others + 1)) :
    short.Allows levels steps others := by
  cases short with
  | first => exact Nat.le_of_succ_le_succ allows
  | second => exact Nat.le_of_succ_le allows
  | either => trivial

theorem Allows.fewer (allows : short.Allows (levels + 1) steps others) :
    short.Allows levels steps others := by
  cases short with
  | first => exact Nat.le_of_succ_le allows
  | second => exact allows
  | either => trivial

theorem Allows.level (allows : short.Allows levels steps others) : short.Allows 0 steps others := by
  cases short with
  | first => exact Nat.le_trans (Nat.le_add_right _ _) allows
  | second => exact allows
  | either => trivial

theorem Allows.both (allows : short.Allows 0 (steps + 1) (others + 1)) :
    short.Allows 0 steps others := by
  cases short with
  | first => exact Nat.le_of_succ_le_succ allows
  | second => exact Nat.le_of_succ_le_succ allows
  | either => trivial

variable {outcome : EStateM.Result Interrupt Machine α}
  {other : EStateM.Result Interrupt Machine β}

theorem Allows.excuses_first (allows : short.Allows 0 0 others) (cut : Run.Exhausts outcome)
    (otherCut : others = 0 → Run.Exhausts other) : short.Excuses outcome other := by
  cases short with
  | first => exact cut
  | second => exact otherCut (Nat.le_zero.mp allows)
  | either => exact Or.inl cut

theorem Allows.excuses_second (allows : short.Allows levels steps 0) (more : 0 < steps + levels)
    (cut : Run.Exhausts other) : short.Excuses outcome other := by
  cases short with
  | first => exact absurd allows (Nat.not_le_of_lt more)
  | second => exact cut
  | either => exact Or.inr cut

end Short

/-! ### Actions -/

/-- What matches behind an action that has no result. -/
def Tandem.Done (_tandem : Tandem) (_done _copyDone : Unit) : Prop :=
  True

/-- The outcomes match on machines that a tandem leads to. -/
def Tandem.Ends {α β : Type} (tandem : Tandem) (good : Tandem → α → β → Prop) :
    EStateM.Result Interrupt Machine α → EStateM.Result Interrupt Machine β → Prop
  | .ok result machine, .ok other copy =>
    ∃ pairs, tandem.Leads ⟨machine, copy, pairs⟩ ∧ good ⟨machine, copy, pairs⟩ result other
  | .error interrupt machine, .error other copy =>
    ∃ pairs, tandem.Leads ⟨machine, copy, pairs⟩ ∧
      (⟨machine, copy, pairs⟩ : Tandem).Fails interrupt other
  | _, _ => False

theorem Tandem.Ends.cases {α β : Type} {tandem : Tandem} {good : Tandem → α → β → Prop}
    {outcome : EStateM.Result Interrupt Machine α} {other : EStateM.Result Interrupt Machine β}
    (ends : tandem.Ends good outcome other) :
    (∃ (later : Tandem) (result : α) (same : β), outcome = .ok result later.machine ∧
        other = .ok same later.copy ∧ tandem.Leads later ∧ good later result same) ∨
      ∃ (later : Tandem) (interrupt same : Interrupt), outcome = .error interrupt later.machine ∧
        other = .error same later.copy ∧ tandem.Leads later ∧ later.Fails interrupt same := by
  cases outcome with
  | ok result machine =>
      cases other with
      | ok same copy =>
          obtain ⟨pairs, leads, holds⟩ := ends
          exact Or.inl ⟨⟨machine, copy, pairs⟩, result, same, rfl, rfl, leads, holds⟩
      | error => exact ends.elim
  | error interrupt machine =>
      cases other with
      | ok => exact ends.elim
      | error same copy =>
          obtain ⟨pairs, leads, fails⟩ := ends
          exact Or.inr ⟨⟨machine, copy, pairs⟩, interrupt, same, rfl, rfl, leads, fails⟩

/-- An action and its copy, done on the machines of a tandem, come to matching outcomes to which an
earlier tandem leads, unless one that may is cut short. -/
def Run.Matches {α β : Type} (short : Short) (base tandem : Tandem) (good : Tandem → α → β → Prop)
    (action : Run α) (copy : Run β) : Prop :=
  short.Excuses (action tandem.machine) (copy tandem.copy) ∨
    base.Ends good (action tandem.machine) (copy tandem.copy)

namespace Run

variable {α β γ δ : Type} {short : Short} {base tandem : Tandem} {settings : Settings}
variable {good : Tandem → α → β → Prop} {scope other : ScopeId} {value partner : Value}

theorem Exhausts.bind {first : Run α} {second : α → Run β} {machine : Machine}
    (cut : Exhausts (first machine)) : Exhausts ((first >>= second) machine) := by
  obtain ⟨later, ran⟩ := cut
  refine ⟨later, ?_⟩
  change EStateM.bind first second machine = _
  unfold EStateM.bind
  rw [ran]

theorem Exhausts.releasing {body : Run α} {machine : Machine} (cut : Exhausts (body machine)) :
    Exhausts (Run.releasing settings scope body machine) := by
  obtain ⟨later, ran⟩ := cut
  unfold Run.releasing
  rw [ran]
  exact ⟨_, rfl⟩

theorem Exhausts.returned {body : Run Unit} {machine : Machine} (cut : Exhausts (body machine)) :
    Exhausts (Run.returned body machine) := by
  obtain ⟨later, ran⟩ := cut
  unfold Run.returned
  rw [ran]
  exact ⟨_, rfl⟩

namespace Matches

theorem ends {action : Run α} {copy : Run β}
    (matching : base.Ends good (action tandem.machine) (copy tandem.copy)) :
    Matches short base tandem good action copy :=
  Or.inr matching

theorem pure {result : α} {same : β} (leads : base.Leads tandem) (holds : good tandem result same) :
    Matches short base tandem good (Pure.pure result) (Pure.pure same) :=
  ends ⟨tandem.pairs, leads, holds⟩

theorem throw {interrupt same : Interrupt} (leads : base.Leads tandem)
    (fails : tandem.Fails interrupt same) :
    Matches short base tandem good (MonadExcept.throw interrupt) (MonadExcept.throw same) :=
  ends ⟨tandem.pairs, leads, fails⟩

theorem fail (leads : base.Leads tandem) (line : Nat) (error : RuntimeError) :
    Matches short base tandem good (Run.fail line error) (Run.fail line error) :=
  throw leads (.plain _ rfl)

/-- What is behind the first actions is the start of the second ones. -/
theorem bind {middle : Tandem → γ → δ → Prop} {first : Run γ} {copyFirst : Run δ}
    {second : γ → Run α} {copySecond : δ → Run β}
    (matching : Matches short tandem tandem middle first copyFirst) (leads : base.Leads tandem)
    (others : ∀ later result same, tandem.Leads later → middle later result same →
      Matches short base later good (second result) (copySecond same)) :
    Matches short base tandem good (first >>= second) (copyFirst >>= copySecond) := by
  rcases matching with cut | ends
  · exact Or.inl (cut.imp Exhausts.bind Exhausts.bind)
  · unfold Matches
    change short.Excuses (EStateM.bind first second tandem.machine)
        (EStateM.bind copyFirst copySecond tandem.copy) ∨
      base.Ends good (EStateM.bind first second tandem.machine)
        (EStateM.bind copyFirst copySecond tandem.copy)
    unfold EStateM.bind
    rcases ends.cases with ⟨later, result, same, ran, copyRan, further, holds⟩ |
      ⟨later, interrupt, same, ran, copyRan, further, fails⟩
    · rw [ran, copyRan]
      exact others later result same further holds
    · rw [ran, copyRan]
      exact Or.inr ⟨later.pairs, leads.trans further, fails⟩

/-- Behind its last work a tandem may be seen from an earlier one. -/
theorem earlier {action : Run α} {copy : Run β}
    (matching : Matches short tandem tandem good action copy) (leads : base.Leads tandem) :
    Matches short base tandem good action copy := by
  refine matching.imp_right ?_
  intro ends
  rcases ends.cases with ⟨later, result, same, ran, copyRan, further, holds⟩ |
    ⟨later, interrupt, same, ran, copyRan, further, fails⟩
  · rw [ran, copyRan]
    exact ⟨later.pairs, leads.trans further, holds⟩
  · rw [ran, copyRan]
    exact ⟨later.pairs, leads.trans further, fails⟩

end Matches

/-! ### Single actions -/

theorem lookup_matches (works : tandem.Works scope other) (name : Token) :
    Matches short tandem tandem Tandem.Carries (lookup scope name) (lookup other name) := by
  refine .ends ?_
  have leads := works.matched.leads
  unfold lookup
  rcases rel_cases (works.matched.get?_rel works.shows name.lexeme) with
    ⟨free, copyFree⟩ | ⟨value, partner, found, copyFound, carries⟩
  · rw [free, copyFree]
    exact ⟨tandem.pairs, leads, .plain _ rfl⟩
  · rw [found, copyFound]
    exact ⟨tandem.pairs, leads, carries⟩

theorem define_matches (matched : tandem.Matched) (pair : tandem.pairs scope other) (name : Token)
    (carries : tandem.Carries value partner) :
    Matches short tandem tandem Tandem.Done (define scope name value)
      (define other name partner) :=
  .ends ⟨tandem.pairs, matched.define pair name.lexeme carries, trivial⟩

theorem assign_matches (works : tandem.Works scope other) (name : Token)
    (carries : tandem.Carries value partner) :
    Matches short tandem tandem Tandem.Done (assign scope name value)
      (assign other name partner) := by
  refine .ends ?_
  have matched := works.matched
  unfold assign
  rcases matched.arenas.assign_cases matched.grounded.rooted matched.copyGrounded.rooted works.shows
    name.lexeme value partner with ⟨free, copyFree⟩ | ⟨owner, copyOwner, pair, owned, copyOwned⟩
  · rw [free, copyFree]
    exact ⟨tandem.pairs, matched.leads, .plain _ rfl⟩
  · rw [owned, copyOwned]
    exact ⟨tandem.pairs, matched.define pair name.lexeme carries, trivial⟩

/-- A declaration captures the scope that its function closes over. -/
theorem declare_matches (matched : tandem.Matched) (pair : tandem.pairs scope other) (name : Token)
    (declaration : FunctionDeclaration) :
    Matches short tandem tandem Tandem.Done
      (do
        capture scope
        define scope name (.callable (.closure declaration scope)))
      (do
        capture other
        define other name (.callable (.closure declaration other))) := by
  have captured := matched.capture pair
  have carries : (tandem.withArenas (tandem.machine.arena.capture scope)
      (tandem.copy.arena.capture other)).Carries (.callable (.closure declaration scope))
      (.callable (.closure declaration other)) :=
    ⟨.closure declaration pair, Arena.captures_capture (matched.arenas.lt_size pair),
      Arena.captures_capture (matched.arenas.copy_lt_size pair)⟩
  have defined := captured.matched.define pair name.lexeme carries
  exact .ends ⟨tandem.pairs, captured.trans defined, trivial⟩

theorem push_matches (works : tandem.Works scope other) :
    Matches short tandem tandem
      (fun later inner copyInner => later = tandem.opened scope other ∧
        inner = tandem.machine.arena.size ∧ copyInner = tandem.copy.arena.size)
      (push scope) (push other) :=
  .ends ⟨(tandem.opened scope other).pairs, works.opened, rfl, rfl, rfl⟩

theorem print_matches (matched : tandem.Matched) (same : value.Matches tandem.pairs partner) :
    Matches short tandem tandem Tandem.Done (print value) (print partner) := by
  refine .ends ?_
  have leads : ∀ output : Output, tandem.Leads
      ⟨{ tandem.machine with output }, { tandem.copy with output }, tandem.pairs⟩ := by
    intro output
    have machine := matched.grounded.leads_of_arena (rfl : { tandem.machine with output }.arena = _)
    have copy :=
      matched.copyGrounded.leads_of_arena (rfl : { tandem.copy with output }.arena = _)
    exact ⟨⟨machine.grounded, copy.grounded, matched.arenas, matched.callDepth, rfl⟩, machine, copy,
      fun _ _ _ => Iff.rfl, fun _ _ _ => rfl⟩
  unfold print
  rw [same.text_eq, matched.output]
  cases tandem.machine.output.write (value.text ++ "\n").toUTF8 with
  | mk output error =>
      cases error with
      | none => exact ⟨tandem.pairs, leads output, trivial⟩
      | some error => exact ⟨tandem.pairs, leads output, .plain _ rfl⟩

end Run

/-! ### Operations -/

namespace Value.Matches

variable {pairs : Pairing} {left right partner copyPartner : Value}

/-- No operation makes a function, so the results are the same. -/
theorem unary_eq (same : left.Matches pairs partner) (operation : UnaryOperation) :
    operation.apply partner = operation.apply left := by
  cases same with
  | literal => rfl
  | clock => rfl
  | closure => cases operation <;> rfl

theorem binary_eq (leftSame : left.Matches pairs partner)
    (rightSame : right.Matches pairs copyPartner)
    (single : ∀ {id other first second : ScopeId}, pairs id first → pairs other second →
      (id = other ↔ first = second)) (operation : BinaryOperation) :
    operation.apply partner copyPartner = operation.apply left right := by
  have same := leftSame.same_eq rightSame single
  cases operation with
  | equal =>
      change Except.ok (Value.bool (partner.same copyPartner)) = .ok (.bool (left.same right))
      rw [same]
  | notEqual =>
      change Except.ok (Value.bool !partner.same copyPartner) = .ok (.bool !left.same right)
      rw [same]
  | add | arithmetic | comparison =>
      cases leftSame with
      | literal left => cases rightSame <;> cases left <;> rfl
      | clock => cases rightSame <;> rfl
      | closure =>
          cases rightSame with
          | literal right => cases right <;> rfl
          | clock => rfl
          | closure => rfl

end Value.Matches

namespace Run

variable {short : Short} {base tandem : Tandem} {settings : Settings}
variable {left right partner copyPartner : Value}

theorem ofOperation_matches (matched : tandem.Matched) (line : Nat)
    {outcome : Except RuntimeError Value}
    (plain : ∀ value, outcome = .ok value → ∃ literal, value = .literal literal) :
    Matches short tandem tandem Tandem.Carries (ofOperation line outcome)
      (ofOperation line outcome) := by
  cases outcome with
  | error error => exact .fail matched.leads line error
  | ok value =>
      obtain ⟨literal, rfl⟩ := plain value rfl
      exact .pure matched.leads ⟨.literal literal, trivial, trivial⟩

theorem applyUnary_matches (matched : tandem.Matched) (operator : Token)
    (same : left.Matches tandem.pairs partner) :
    Matches short tandem tandem Tandem.Carries (Evaluator.applyUnary operator left)
      (Evaluator.applyUnary operator partner) := by
  unfold Evaluator.applyUnary
  cases UnaryOperation.ofKind? operator.kind with
  | none => exact .throw matched.leads (.plain _ rfl)
  | some operation =>
      dsimp only
      rw [same.unary_eq operation]
      exact ofOperation_matches matched _ fun _ applied => UnaryOperation.apply_literal applied

theorem applyBinary_matches (matched : tandem.Matched) (operator : Token)
    (leftSame : left.Matches tandem.pairs partner)
    (rightSame : right.Matches tandem.pairs copyPartner) :
    Matches short tandem tandem Tandem.Carries (Evaluator.applyBinary operator left right)
      (Evaluator.applyBinary operator partner copyPartner) := by
  unfold Evaluator.applyBinary
  cases BinaryOperation.ofKind? operator.kind with
  | none => exact .throw matched.leads (.plain _ rfl)
  | some operation =>
      dsimp only
      rw [leftSame.binary_eq rightSame matched.arenas.single operation]
      exact ofOperation_matches matched _ fun _ applied => BinaryOperation.apply_literal applied

/-! ### Scopes and calls that are left -/

/-- Both sides leave a scope that was opened behind the earlier tandem. -/
theorem releasing_matches {body copyBody : Run Unit} {inner copyInner : ScopeId}
    (matching : Matches short base tandem Tandem.Done body copyBody) (matched : base.Matched)
    (new : base.machine.arena.size ≤ inner) (copyNew : base.copy.arena.size ≤ copyInner) :
    Matches short base tandem Tandem.Done (releasing settings inner body)
      (releasing settings copyInner copyBody) := by
  rcases matching with cut | ends
  · exact Or.inl (cut.imp Exhausts.releasing Exhausts.releasing)
  · refine .ends ?_
    have left : ∀ later : Tandem, base.Leads later → base.Leads
        (later.cut (later.machine.leave settings inner) (later.copy.leave settings copyInner)) :=
      fun later leads => leads.cut matched (leads.matched.grounded.cuts_leave settings inner)
        (leads.matched.copyGrounded.cuts_leave settings copyInner)
        (Machine.le_size_leave settings leads.machine.grows new)
        (Machine.le_size_leave settings leads.copy.grows copyNew)
    unfold releasing
    rcases ends.cases with ⟨later, _done, _same, ran, copyRan, leads, _holds⟩ |
      ⟨later, interrupt, same, ran, copyRan, leads, fails⟩
    · rw [ran, copyRan]
      exact ⟨_, left later leads, trivial⟩
    · rw [ran, copyRan]
      exact ⟨_, left later leads, fails.cut (leads.matched.grounded.cuts_leave settings inner)
        (leads.matched.copyGrounded.cuts_leave settings copyInner)⟩

/-- Only the copy leaves a scope. -/
theorem releasing_copy_matches {body copyBody : Run Unit} {copyInner : ScopeId}
    (matching : Matches short base tandem Tandem.Done body copyBody) (matched : base.Matched)
    (copyNew : base.copy.arena.size ≤ copyInner) :
    Matches short base tandem Tandem.Done body (releasing settings copyInner copyBody) := by
  rcases matching with cut | ends
  · exact Or.inl (cut.imp id Exhausts.releasing)
  · refine .ends ?_
    have left : ∀ later : Tandem, base.Leads later → base.Leads
        (later.cut later.machine (later.copy.leave settings copyInner)) :=
      fun later leads => leads.cut matched leads.matched.grounded.cuts
        (leads.matched.copyGrounded.cuts_leave settings copyInner) leads.machine.grows
        (Machine.le_size_leave settings leads.copy.grows copyNew)
    unfold releasing
    rcases ends.cases with ⟨later, _done, _same, ran, copyRan, leads, _holds⟩ |
      ⟨later, interrupt, same, ran, copyRan, leads, fails⟩
    · rw [ran, copyRan]
      exact ⟨_, left later leads, trivial⟩
    · rw [ran, copyRan]
      exact ⟨_, left later leads, fails.cut leads.matched.grounded.cuts
        (leads.matched.copyGrounded.cuts_leave settings copyInner)⟩

theorem returned_matches {body copyBody : Run Unit}
    (matching : Matches short base tandem Tandem.Done body copyBody) :
    Matches short base tandem Tandem.Carries (returned body) (returned copyBody) := by
  rcases matching with cut | ends
  · exact Or.inl (cut.imp Exhausts.returned Exhausts.returned)
  · refine .ends ?_
    unfold returned
    rcases ends.cases with ⟨later, _done, _same, ran, copyRan, leads, _holds⟩ |
      ⟨later, interrupt, same, ran, copyRan, leads, fails⟩
    · rw [ran, copyRan]
      exact ⟨later.pairs, leads, .literal .nil, trivial, trivial⟩
    · rw [ran, copyRan]
      cases fails with
      | returning carries => exact ⟨later.pairs, leads, carries⟩
      | plain _ holds =>
          cases interrupt with
          | returning value => cases holds
          | failure | callDepth | output | stuck | exhausted =>
              exact ⟨later.pairs, leads, .plain _ rfl⟩

theorem counted_of_fits {call : Run Value} {machine : Machine}
    (fits : ¬ settings.maxCallDepth ≤ machine.callDepth) :
    counted settings call machine = match call machine.enterCall with
      | .ok value later => .ok value later.leaveCall
      | .error interrupt later => .error interrupt later.leaveCall := by
  unfold counted Machine.enterCall
  rw [if_neg fits]
  cases call { machine with callDepth := machine.callDepth + 1 } <;> rfl

/-- A call counts on both sides. -/
theorem counted_matches {call copyCall : Run Value} (matched : tandem.Matched)
    (matching : Matches short tandem.enterCall tandem.enterCall Tandem.Carries call copyCall) :
    Matches short tandem tandem Tandem.Carries (counted settings call)
      (counted settings copyCall) := by
  unfold Matches
  by_cases full : settings.maxCallDepth ≤ tandem.machine.callDepth
  · have copyFull := full
    rw [← matched.callDepth] at copyFull
    refine Or.inr ?_
    unfold counted
    rw [if_pos full, if_pos copyFull]
    exact ⟨tandem.pairs, matched.leads, .plain _ rfl⟩
  · have copyFits := full
    rw [← matched.callDepth] at copyFits
    rw [counted_of_fits full, counted_of_fits copyFits]
    rcases matching with cut | ends
    · refine Or.inl (cut.imp ?_ ?_) <;> rintro ⟨later, ran⟩
      · exact ⟨later.leaveCall, by rw [show call tandem.machine.enterCall = _ from ran]⟩
      · exact ⟨later.leaveCall, by rw [show copyCall tandem.copy.enterCall = _ from ran]⟩
    · rcases ends.cases with ⟨later, value, same, ran, copyRan, leads, carries⟩ |
        ⟨later, interrupt, same, ran, copyRan, leads, fails⟩
      · rw [show call tandem.machine.enterCall = _ from ran,
          show copyCall tandem.copy.enterCall = _ from copyRan]
        exact Or.inr ⟨later.pairs, leads.leaveCall, carries.leaveCall⟩
      · rw [show call tandem.machine.enterCall = _ from ran,
          show copyCall tandem.copy.enterCall = _ from copyRan]
        exact Or.inr ⟨later.pairs, leads.leaveCall, fails.leaveCall⟩

/-- By induction on the rounds of the first loop. -/
theorem loop_matches {condition copyCondition : Run Bool} {body copyBody : Run Unit}
    {rounds copyRounds : Nat} (allows : short.Allows 0 rounds copyRounds)
    (matched : tandem.Matched)
    (decides : ∀ later, tandem.Leads later →
      Matches short later later (fun _ holds same => same = holds) condition copyCondition)
    (repeats : ∀ later, tandem.Leads later → Matches short later later Tandem.Done body copyBody) :
    Matches short tandem tandem Tandem.Done (loop condition body rounds)
      (loop copyCondition copyBody copyRounds) := by
  induction rounds generalizing copyRounds tandem with
  | zero =>
      refine Or.inl (allows.excuses_first ⟨tandem.machine, rfl⟩ ?_)
      intro none
      rw [none]
      exact ⟨tandem.copy, rfl⟩
  | succ rounds ih =>
      cases copyRounds with
      | zero => exact Or.inl (allows.excuses_second (Nat.succ_pos _) ⟨tandem.copy, rfl⟩)
      | succ copyRounds =>
          unfold loop
          refine (decides tandem matched.leads).bind matched.leads
            fun later holds same leads agrees => ?_
          subst agrees
          cases same with
          | false => exact .pure leads trivial
          | true =>
              refine (repeats later leads).bind leads fun last _ _ further _ => ?_
              have whole := leads.trans further
              refine (ih allows.both whole.matched ?_ ?_).earlier whole
              · exact fun next onwards => decides next (whole.trans onwards)
              · exact fun next onwards => repeats next (whole.trans onwards)

end Run

/-! ### Trees -/

/-- The two come to the same in scopes that show the same. -/
structure Evaluator.Matches (short : Short) (worker copy : Evaluator) : Prop where
  evaluate : ∀ {tandem : Tandem} {scope other : ScopeId} (expression : Expr),
    tandem.Works scope other →
    Run.Matches short tandem tandem Tandem.Carries (worker.evaluate scope expression)
      (copy.evaluate other expression)
  execute : ∀ {tandem : Tandem} {scope other : ScopeId} (statement : Stmt),
    tandem.Works scope other → (statement.declaredNames = [] ∨ tandem.pairs scope other) →
    Run.Matches short tandem tandem Tandem.Done (worker.execute scope statement)
      (copy.execute other statement)
  rounds : short.Allows 0 worker.rounds copy.rounds

/-- Lists of matching values. -/
def Tandem.CarriesAll (tandem : Tandem) : List Value → List Value → Prop :=
  List.Forall₂ tandem.Carries

theorem Tandem.Leads.carriesAll {tandem later : Tandem} (leads : tandem.Leads later)
    {values partners : List Value} (carries : tandem.CarriesAll values partners) :
    later.CarriesAll values partners :=
  carries.imp fun _ _ => leads.carries

theorem Value.Matches.arity_eq {pairs : Pairing} {function partner : Callable}
    (same : (Value.callable function).Matches pairs (.callable partner)) :
    partner.arity = function.arity := by
  cases same <;> rfl

namespace Evaluator.Matches

open Run

variable {short : Short} {worker copy : Evaluator} {settings : Settings} {tandem : Tandem}
variable {scope other : ScopeId}

section Trees

variable (all : worker.Matches short copy)
include all

theorem executeAll (works : tandem.Works scope other) {statements : List Stmt}
    (declares : ∀ statement ∈ statements, statement.declaredNames = [] ∨ tandem.pairs scope other) :
    Run.Matches short tandem tandem Tandem.Done (worker.executeAll scope statements)
      (copy.executeAll other statements) := by
  induction statements generalizing tandem with
  | nil => exact .pure works.matched.leads trivial
  | cons first others ih =>
      obtain ⟨here, there⟩ := List.forall_mem_cons.mp declares
      refine (all.execute first works here).bind works.matched.leads fun later _ _ leads _ => ?_
      refine (ih (leads.works works) ?_).earlier leads
      exact fun statement member => (there statement member).imp_right (leads.pair works.matched)

theorem evaluateAll (works : tandem.Works scope other) (expressions : List Expr) :
    Run.Matches short tandem tandem Tandem.CarriesAll (worker.evaluateAll scope expressions)
      (copy.evaluateAll other expressions) := by
  induction expressions generalizing tandem with
  | nil => exact .pure works.matched.leads .nil
  | cons first others ih =>
      refine (all.evaluate first works).bind works.matched.leads fun later _ _ leads value => ?_
      refine (ih (leads.works works)).bind leads fun last _ _ further values => ?_
      exact .pure (leads.trans further) (.cons (further.carries value) values)

/-- In paired scopes that were opened behind an earlier tandem everything may be declared. -/
theorem executeBlock {base : Tandem} {inner copyInner : ScopeId} (matched : base.Matched)
    (leads : base.Leads tandem) (pair : tandem.pairs inner copyInner)
    (new : base.machine.arena.size ≤ inner) (copyNew : base.copy.arena.size ≤ copyInner)
    (statements : List Stmt) :
    Run.Matches short base tandem Tandem.Done (worker.executeBlock settings inner statements)
      (copy.executeBlock settings copyInner statements) := by
  have declares : ∀ statement ∈ statements,
      statement.declaredNames = [] ∨ tandem.pairs inner copyInner :=
    fun _ _ => Or.inr pair
  have body := all.executeAll (.of_pair leads.matched pair) declares
  exact releasing_matches (body.earlier leads) matched new copyNew

omit all in
theorem defineAll (matched : tandem.Matched) (pair : tandem.pairs scope other)
    (parameters : List Token) {arguments partners : List Value}
    (carries : tandem.CarriesAll arguments partners) :
    Run.Matches short tandem tandem Tandem.Done (Evaluator.defineAll scope parameters arguments)
      (Evaluator.defineAll other parameters partners) := by
  induction parameters generalizing tandem arguments partners with
  | nil => exact .pure matched.leads trivial
  | cons parameter parameters ih =>
      cases carries with
      | nil => exact .pure matched.leads trivial
      | cons first others =>
          refine (define_matches matched pair parameter first).bind matched.leads
            fun later _ _ leads _ => ?_
          exact (ih leads.matched (leads.pair matched pair) (leads.carriesAll others)).earlier leads

theorem invoke (matched : tandem.Matched) {arguments partners : List Value}
    (carries : tandem.CarriesAll arguments partners) {function partner : Callable}
    (called : tandem.Carries (.callable function) (.callable partner)) :
    Run.Matches short tandem tandem Tandem.Carries (worker.invoke settings arguments function)
      (copy.invoke settings partners partner) := by
  obtain ⟨same, anchored, copyAnchored⟩ := called
  cases same with
  | clock => exact .pure matched.leads ⟨.literal _, trivial, trivial⟩
  | closure declaration pair =>
      refine (push_matches (.of_pair matched pair)).bind matched.leads
        fun later inner copyInner leads opened => ?_
      obtain ⟨rfl, rfl, rfl⟩ := opened
      refine (defineAll leads.matched (Or.inr ⟨rfl, rfl⟩) declaration.parameters
        (leads.carriesAll carries)).bind leads fun last _ _ further _ => ?_
      have inside := further.pair leads.matched (Or.inr ⟨rfl, rfl⟩)
      exact returned_matches (all.executeBlock matched (leads.trans further) inside
        (Nat.le_refl _) (Nat.le_refl _) declaration.body)

theorem evaluateOptional (works : tandem.Works scope other) (value : Option Expr) :
    Run.Matches short tandem tandem Tandem.Carries (worker.evaluateOptional scope value)
      (copy.evaluateOptional other value) := by
  cases value with
  | none => exact .pure works.matched.leads ⟨.literal _, trivial, trivial⟩
  | some value => exact all.evaluate value works

theorem isTrue (works : tandem.Works scope other) (condition : Expr) :
    Run.Matches short tandem tandem (fun _ holds same => same = holds)
      (worker.isTrue scope condition) (copy.isTrue other condition) := by
  refine (all.evaluate condition works).bind works.matched.leads fun later _ _ leads carries => ?_
  exact .pure leads carries.same.isTruthy_eq

theorem evaluateNode (works : tandem.Works scope other) (expression : Expr) :
    Run.Matches short tandem tandem Tandem.Carries
      (worker.evaluateNode settings scope expression)
      (copy.evaluateNode settings other expression) := by
  have start := works.matched.leads
  cases expression with
  | literal value => exact .pure start ⟨.literal value, trivial, trivial⟩
  | «variable» name => exact lookup_matches works name
  | grouping inner => exact all.evaluate inner works
  | assign name value =>
      refine (all.evaluate value works).bind start fun later _ _ leads carries => ?_
      refine (assign_matches (leads.works works) name carries).bind leads
        fun last _ _ further _ => ?_
      exact .pure (leads.trans further) (further.carries carries)
  | unary operator operand =>
      refine (all.evaluate operand works).bind start fun later _ _ leads carries => ?_
      exact (applyUnary_matches leads.matched operator carries.same).earlier leads
  | binary left operator right =>
      refine (all.evaluate left works).bind start fun later _ _ leads first => ?_
      refine (all.evaluate right (leads.works works)).bind leads fun last _ _ further second => ?_
      exact (applyBinary_matches further.matched operator (further.carries first).same
        second.same).earlier (leads.trans further)
  | logical left operator right =>
      refine (all.evaluate left works).bind start fun later value _ leads carries => ?_
      dsimp only
      rw [carries.same.isTruthy_eq]
      by_cases settled :
          (if operator.kind == .orWord then value.isTruthy else !value.isTruthy) = true
      · rw [if_pos settled, if_pos settled]
        exact .pure leads carries
      · rw [if_neg settled, if_neg settled]
        exact (all.evaluate right (leads.works works)).earlier leads
  | conditional condition question thenBranch elseBranch =>
      refine (all.evaluate condition works).bind start fun later _ _ leads carries => ?_
      have inside := leads.works works
      obtain ⟨same, anchored, copyAnchored⟩ := carries
      cases same with
      | clock | closure => exact .fail leads _ _
      | literal value =>
          cases value with
          | bool truth =>
              cases truth with
              | true => exact (all.evaluate thenBranch inside).earlier leads
              | false => exact (all.evaluate elseBranch inside).earlier leads
          | nil | number | string => exact .fail leads _ _
  | call callee paren arguments =>
      refine (all.evaluate callee works).bind start fun later value partner leads called => ?_
      have apply : ∀ function copyFunction : Callable,
          later.Carries (.callable function) (.callable copyFunction) →
          Run.Matches short tandem later Tandem.Carries
            (do
              let arguments ← worker.evaluateAll scope arguments
              if arguments.length = function.arity then
                counted settings (worker.invoke settings arguments function)
              else fail paren.line (.wrongArity function.arity arguments.length))
            (do
              let arguments ← copy.evaluateAll other arguments
              if arguments.length = copyFunction.arity then
                counted settings (copy.invoke settings arguments copyFunction)
              else fail paren.line (.wrongArity copyFunction.arity arguments.length)) := by
        intro function copyFunction called
        refine (all.evaluateAll (leads.works works) arguments).bind leads
          fun last given partners further carries => ?_
        rw [← carries.length_eq, called.same.arity_eq]
        by_cases right : given.length = function.arity
        · rw [if_pos right, if_pos right]
          refine (counted_matches further.matched ?_).earlier (leads.trans further)
          have entered := carries.imp fun _ _ => Tandem.Carries.enterCall
          exact all.invoke further.matched.enterCall entered (further.carries called).enterCall
        · rw [if_neg right, if_neg right]
          exact .fail (leads.trans further) _ _
      cases value with
      | literal literal =>
          cases called.same
          exact .fail leads _ _
      | callable function =>
          cases partner with
          | literal => cases called.same
          | callable copyFunction => exact apply function copyFunction called

theorem executeNode (works : tandem.Works scope other) (statement : Stmt)
    (declares : statement.declaredNames = [] ∨ tandem.pairs scope other) :
    Run.Matches short tandem tandem Tandem.Done (worker.executeNode settings scope statement)
      (copy.executeNode settings other statement) := by
  have matched := works.matched
  have start := matched.leads
  cases statement with
  | expression value =>
      exact (all.evaluate value works).bind start fun _ _ _ leads _ => .pure leads trivial
  | print value =>
      refine (all.evaluate value works).bind start fun later _ _ leads carries => ?_
      exact (print_matches leads.matched carries.same).earlier leads
  | returning keyword value =>
      refine (all.evaluateOptional works value).bind start fun later _ _ leads carries => ?_
      exact .throw leads (.returning carries)
  | «variable» name initializer =>
      obtain pair := declares.resolve_left (by simp [Stmt.declaredNames])
      refine (all.evaluateOptional works initializer).bind start
        fun later _ _ leads carries => ?_
      exact (define_matches leads.matched (leads.pair matched pair) name carries).earlier leads
  | function label name parameters body =>
      obtain pair := declares.resolve_left (by simp [Stmt.declaredNames])
      exact declare_matches matched pair name ⟨label, name, parameters, body⟩
  | block statements =>
      refine (push_matches works).bind start fun later inner copyInner leads opened => ?_
      obtain ⟨rfl, rfl, rfl⟩ := opened
      exact all.executeBlock matched leads (Or.inr ⟨rfl, rfl⟩) (Nat.le_refl _) (Nat.le_refl _)
        statements
  | branch condition thenBranch elseBranch =>
      refine (all.isTrue works condition).bind start fun later holds same leads agrees => ?_
      subst agrees
      have inside := leads.works works
      have still : tandem.pairs scope other → later.pairs scope other := leads.pair matched
      cases elseBranch with
      | none =>
          cases same with
          | true => exact (all.execute thenBranch inside (declares.imp_right still)).earlier leads
          | false => exact .pure leads trivial
      | some elseBranch =>
          rw [Stmt.declaredNames, List.append_eq_nil_iff] at declares
          cases same with
          | true =>
              exact (all.execute thenBranch inside (declares.imp And.left still)).earlier leads
          | false =>
              exact (all.execute elseBranch inside (declares.imp And.right still)).earlier leads
  | loop condition body =>
      refine loop_matches all.rounds matched ?_ ?_
      · exact fun later leads => all.isTrue (leads.works works) condition
      · exact fun later leads => all.execute body (leads.works works)
          (declares.imp_right (leads.pair matched))

end Trees

end Evaluator.Matches

/-- By induction on the levels that the first run may work on. -/
theorem evaluator_matches (settings : Settings) {short : Short} {steps others : Nat}
    (allows : short.Allows 0 steps others) :
    (evaluator settings steps).Matches short (evaluator settings others) := by
  induction steps generalizing others with
  | zero =>
      constructor
      · intro tandem scope other expression _works
        refine Or.inl (allows.excuses_first ⟨tandem.machine, rfl⟩ ?_)
        rintro rfl
        exact ⟨tandem.copy, rfl⟩
      · intro tandem scope other statement _works _declares
        refine Or.inl (allows.excuses_first ⟨tandem.machine, rfl⟩ ?_)
        rintro rfl
        exact ⟨tandem.copy, rfl⟩
      · exact allows
  | succ steps ih =>
      cases others with
      | zero =>
          constructor
          · exact fun {tandem} _ _ _ _ =>
              Or.inl (allows.excuses_second (Nat.succ_pos _) ⟨tandem.copy, rfl⟩)
          · exact fun {tandem} _ _ _ _ _ =>
              Or.inl (allows.excuses_second (Nat.succ_pos _) ⟨tandem.copy, rfl⟩)
          · exact allows
      | succ others =>
          rw [evaluator_succ, evaluator_succ]
          have below := ih allows.both
          exact ⟨fun expression works => below.evaluateNode works expression,
            fun statement works declares => below.executeNode works statement declares, allows⟩

end Lox
