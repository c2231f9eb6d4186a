import Lox.Proofs.Grammar.Derivation
import Lox.Proofs.Grammar.Following
set_option autoImplicit false

/-! What rules do on the tokens of a course. If the levels that are left suffice, a rule reads all of
them, gives the value and notes the reports. If not, and there is nothing to report, it fails at the
first token that is too deep. Courses are put together as rules are. -/

namespace Lox

namespace Course

variable {room : Nat} {first second course : Course}

@[simp] theorem spots_append : (first ++ second).spots = first.spots ++ second.spots :=
  rfl

@[simp] theorem reports_append : (first ++ second).reports = first.reports ++ second.reports :=
  rfl

@[simp] theorem nothing_append : nothing ++ course = course :=
  rfl

@[simp] theorem append_nothing : course ++ nothing = course := by
  change (⟨course.spots ++ [], course.reports ++ []⟩ : Course) = course
  rw [List.append_nil, List.append_nil]

theorem append_assoc (third : Course) : first ++ second ++ third = first ++ (second ++ third) := by
  change (⟨first.spots ++ second.spots ++ third.spots,
    first.reports ++ second.reports ++ third.reports⟩ : Course) = _
  rw [List.append_assoc, List.append_assoc]
  rfl

@[simp] theorem tokens_append : (first ++ second).tokens = first.tokens ++ second.tokens :=
  List.map_append

@[simp] theorem tokens_nothing : nothing.tokens = [] :=
  rfl

@[simp] theorem tokens_token (read : Token) : (token read).tokens = [read] :=
  rfl

theorem tokens_cons_ne_nil (read : Token) : (token read ++ course).tokens ≠ [] :=
  List.cons_ne_nil _ _

@[simp] theorem tokens_report (noted : SyntaxReport) : (report noted).tokens = [] :=
  rfl

@[simp] theorem tokens_deeper : course.deeper.tokens = course.tokens := by
  unfold tokens deeper
  rw [List.map_map]
  rfl

@[simp] theorem reports_deeper : course.deeper.reports = course.reports :=
  rfl

theorem beyond?_append :
    (first ++ second).beyond? room = (first.beyond? room).or (second.beyond? room) := by
  unfold beyond?
  rw [spots_append, List.find?_append]
  cases first.spots.find? (room < ·.depth) <;> rfl

theorem beyond?_deeper : course.deeper.beyond? (room + 1) = course.beyond? room := by
  unfold beyond? deeper
  rw [List.find?_map, Option.map_map]
  simp only [Function.comp_def, Nat.add_lt_add_iff_right]

/-- Where no level is left, the first token of a deeper course is too deep. -/
theorem beyond?_deeper_zero : course.deeper.beyond? 0 = course.tokens.head? := by
  unfold beyond? deeper tokens
  cases course.spots with
  | nil => rfl
  | cons spot spots => simp

end Course

namespace Parser

variable {α β : Type}

/-- What comes of a course that starts at a state, with some levels left. -/
def Meets (room : Nat) (course : Course) (value : α) (rest : List Token) (state : ParserState)
    (outcome : EStateM.Result SyntaxReport ParserState α) : Prop :=
  match course.beyond? room with
  | none => outcome = .ok value { state with rest, reports := state.reports ++ course.reports }
  | some token =>
    course.reports = [] →
      ∃ after, outcome = .error ⟨token, .tooMuchNesting⟩ after ∧ after.reports = state.reports

/-- What a rule does in front of the tokens of a course, and others behind them, with some levels left
below the limit and inside some function bodies. -/
def Performs (limit room functions : Nat) (rule : Parser α) (course : Course) (value : α)
    (rest : List Token) : Prop :=
  ∀ state : ParserState, state.rest = course.tokens ++ rest → state.nesting + room = limit →
    state.functionDepth = functions → Meets room course value rest state (rule state)

section

variable {limit room functions : Nat} {rule : Parser α} {next : α → Parser β}
variable {course more : Course} {value : α} {last : β} {rest : List Token}

/-- What is done at the level itself succeeds. -/
theorem Performs.of_ok (shallow : course.beyond? room = none)
    (ran : ∀ state : ParserState, state.rest = course.tokens ++ rest →
      state.functionDepth = functions →
      rule state = .ok value { state with rest, reports := state.reports ++ course.reports }) :
    Performs limit room functions rule course value rest := by
  intro state left _nesting depth
  unfold Meets
  rw [shallow]
  exact ran state left depth

/-- A rule that gives a value and does nothing else. -/
theorem Performs.of_same
    (ran : ∀ state : ParserState, state.rest = rest → state.functionDepth = functions →
      rule state = .ok value state) :
    Performs limit room functions rule .nothing value rest := by
  refine of_ok rfl fun state left depth => ?_
  have same : ({ state with rest, reports := state.reports ++ [] } : ParserState) = state := by
    rw [List.append_nil, ← show state.rest = rest from left]
  exact (ran state left depth).trans (congrArg _ same.symm)

theorem Performs.pure (value : α) (rest : List Token) :
    Performs limit room functions (Pure.pure value) .nothing value rest :=
  of_same fun _state _left _depth => rfl

/-- One rule behind the other goes through one course behind the other. -/
theorem Performs.bind
    (first : Performs limit room functions rule course value (more.tokens ++ rest))
    (second : Performs limit room functions (next value) more last rest) :
    Performs limit room functions (rule >>= next) (course ++ more) last rest := by
  intro state left nesting depth
  rw [Course.tokens_append, List.append_assoc] at left
  have ran := first state left nesting depth
  unfold Meets at ran ⊢
  rw [Course.beyond?_append]
  cases reached : course.beyond? room with
  | some token =>
      rw [reached] at ran
      intro quiet
      obtain ⟨after, failed, kept⟩ := ran (List.append_eq_nil_iff.mp quiet).1
      exact ⟨after, bind_error failed, kept⟩
  | none =>
      rw [reached] at ran
      rw [Option.none_or, bind_eq ran]
      have continued := second { state with
        rest := more.tokens ++ rest, reports := state.reports ++ course.reports } rfl nesting depth
      unfold Meets at continued
      cases reachedThen : more.beyond? room with
      | none =>
          rw [reachedThen] at continued
          rw [Course.reports_append, ← List.append_assoc]
          exact continued
      | some token =>
          rw [reachedThen] at continued
          intro quiet
          obtain ⟨quietFirst, quietSecond⟩ := List.append_eq_nil_iff.mp quiet
          obtain ⟨after, failed, kept⟩ := continued quietSecond
          refine ⟨after, failed, kept.trans ?_⟩
          rw [quietFirst, List.append_nil]

/-- A rule that reads nothing stands in front of another one. -/
theorem Performs.look {rule : Parser α}
    (first : Performs limit room functions rule .nothing value (course.tokens ++ rest))
    (second : Performs limit room functions (next value) course last rest) :
    Performs limit room functions (rule >>= next) course last rest :=
  first.bind second

/-- A rule that reads nothing stands behind another one. -/
theorem Performs.finish (first : Performs limit room functions rule course value rest)
    (second : Performs limit room functions (next value) .nothing last rest) :
    Performs limit room functions (rule >>= next) course last rest := by
  have whole : Performs limit room functions (rule >>= next) (course ++ .nothing) last rest :=
    first.bind second
  rw [Course.append_nothing] at whole
  exact whole

theorem Performs.map {transform : α → β}
    (performs : Performs limit room functions rule course value rest) :
    Performs limit room functions (do return transform (← rule)) course (transform value) rest :=
  performs.finish (.pure (transform value) rest)

theorem Performs.fmap (transform : α → β)
    (performs : Performs limit room functions rule course value rest) :
    Performs limit room functions (transform <$> rule) course (transform value) rest := by
  rw [map_eq_pure_bind]
  exact performs.map

/-- A choice that depends on how many function bodies are open. -/
theorem Performs.get_bind {next : ParserState → Parser β} {chosen : Parser β}
    (same : ∀ state : ParserState, state.functionDepth = functions → next state = chosen)
    (second : Performs limit room functions chosen course last rest) :
    Performs limit room functions (get >>= next) course last rest := by
  intro state left nesting depth
  change Meets room course last rest state (next state state)
  rw [same state depth]
  exact second state left nesting depth

/-! ### Single tokens -/

variable {wanted : TokenKind → Bool} {token : Token} {kind : TokenKind} {item : Expected}

theorem Performs.accept_bind {next : Option Token → Parser β} (isWanted : wanted token.kind = true)
    (second : Performs limit room functions (next (some token)) more last rest) :
    Performs limit room functions (accept wanted >>= next) (.token token ++ more) last rest := by
  refine Performs.bind ?_ second
  refine of_ok (by simp [Course.beyond?, Course.token]) fun state left _depth => ?_
  rw [accept_found left isWanted]
  exact congrArg _ (by rw [show (Course.token token).reports = [] from rfl, List.append_nil]; rfl)

/-- A rule that is over with one token. -/
theorem Performs.accepted {next : Option Token → Parser β} (isWanted : wanted token.kind = true)
    (second : Performs limit room functions (next (some token)) .nothing last rest) :
    Performs limit room functions (accept wanted >>= next) (.token token) last rest := by
  have read := Performs.accept_bind isWanted second
  rw [Course.append_nothing] at read
  exact read

theorem Performs.skip_bind {next : Option Token → Parser β}
    (other : begins wanted (course.tokens ++ rest) = false)
    (second : Performs limit room functions (next none) course last rest) :
    Performs limit room functions (accept wanted >>= next) course last rest := by
  refine Performs.look (of_same fun state left _depth => ?_) second
  refine accept_missing ?_
  rw [left, Bool.not_eq_true]
  exact other

theorem Performs.expect_bind {next : Token → Parser β} (isKind : token.kind = kind)
    (second : Performs limit room functions (next token) more last rest) :
    Performs limit room functions (expect kind item >>= next) (.token token ++ more) last rest := by
  unfold expect
  rw [bind_assoc]
  exact Performs.accept_bind (beq_iff_eq.mpr isKind) second

/-- A token that closes a rule. -/
theorem Performs.closing {next : Token → Parser β} (isKind : token.kind = kind)
    (second : Performs limit room functions (next token) .nothing last rest) :
    Performs limit room functions (expect kind item >>= next) (.token token) last rest := by
  unfold expect
  rw [bind_assoc]
  exact Performs.accepted (beq_iff_eq.mpr isKind) second

theorem Performs.nextIs_bind {next : Bool → Parser β}
    (second : Performs limit room functions (next (begins wanted (course.tokens ++ rest))) course
      last rest) :
    Performs limit room functions (nextIs wanted >>= next) course last rest := by
  refine Performs.look (of_same fun state left _depth => ?_) second
  change EStateM.Result.ok (begins wanted state.rest) state = _
  rw [left]

theorem Performs.note_bind {next : Unit → Parser β} {report : SyntaxReport}
    (second : Performs limit room functions (next ()) course last rest) :
    Performs limit room functions (note report >>= next) (.report report ++ course) last rest := by
  refine Performs.bind (of_ok rfl fun state left _depth => ?_) second
  rw [← show state.rest = course.tokens ++ rest from left]
  rfl

/-- A rule that is over with a report. -/
theorem Performs.noted {next : Unit → Parser β} {report : SyntaxReport}
    (second : Performs limit room functions (next ()) .nothing last rest) :
    Performs limit room functions (note report >>= next) (.report report) last rest := by
  have told : Performs limit room functions (note report >>= next) (.report report ++ .nothing)
      last rest := Performs.note_bind second
  rw [Course.append_nothing] at told
  exact told

theorem Performs.noteHere_bind {next : Unit → Parser β} {error : SyntaxError} {first : Token}
    {others : List Token} (starts : course.tokens = first :: others)
    (second : Performs limit room functions (next ()) course last rest) :
    Performs limit room functions (noteHere error >>= next) (.report ⟨first, error⟩ ++ course) last
      rest := by
  refine Performs.bind (of_ok rfl fun state left _depth => ?_) second
  have here : state.next = first := by
    rw [ParserState.next, show state.rest = course.tokens ++ rest from left, starts]
    rfl
  rw [← show state.rest = course.tokens ++ rest from left, ← here]
  rfl

/-! ### Levels and function bodies -/

/-- A change of state around a rule, which may count as another level. -/
theorem Meets.between {state : ParserState} {enter leave : ParserState → ParserState} {inside : Nat}
    {inner : Course} (deep : course.beyond? room = inner.beyond? inside)
    (told : course.reports = inner.reports) (entered : (enter state).reports = state.reports)
    (kept : ∀ after, (leave after).reports = after.reports)
    (left : ∀ reports, leave { enter state with rest, reports } = { state with rest, reports })
    (meets : Meets inside inner value rest (enter state) (rule (enter state))) :
    Meets room course value rest state (between enter leave rule state) := by
  unfold Meets at meets ⊢
  unfold Parser.between
  rw [deep, told]
  cases reached : inner.beyond? inside with
  | none =>
      rw [reached] at meets
      simp only [meets, left, entered]
  | some token =>
      rw [reached] at meets
      intro quiet
      obtain ⟨after, failed, same⟩ := meets quiet
      exact ⟨leave after, by simp only [failed], ((kept after).trans same).trans entered⟩

theorem Performs.insideFunction
    (performs : Performs limit room (functions + 1) rule course value rest) :
    Performs limit room functions (insideFunction rule) course value rest := by
  intro state left nesting depth
  exact Meets.between rfl rfl rfl (by exact fun _ => rfl) (by exact fun _ => rfl)
    (performs { state with functionDepth := state.functionDepth + 1 } left nesting
      (congrArg (· + 1) depth))

/-- Below the limit a rule opens a level. -/
theorem Performs.nested (performs : Performs limit room functions rule course value rest) :
    Performs limit (room + 1) functions (nested limit rule) course.deeper value rest := by
  intro state left nesting depth
  rw [Course.tokens_deeper] at left
  have below : ¬ limit ≤ state.nesting := by omega
  have opens : Parser.nested limit rule state
      = between (fun state => { state with nesting := state.nesting + 1 })
          (fun state => { state with nesting := state.nesting - 1 }) rule state := by
    change (if limit ≤ state.nesting then failHere .tooMuchNesting else _ : Parser α) state = _
    rw [if_neg below]
  have inside : state.nesting + 1 + room = limit := by omega
  rw [opens]
  exact Meets.between Course.beyond?_deeper rfl rfl (by exact fun _ => rfl) (by exact fun _ => rfl)
    (performs { state with nesting := state.nesting + 1 } left inside depth)

/-- At the limit a rule fails at its first token. -/
theorem Performs.refused (some : course.tokens ≠ []) (value : α) (rest : List Token) :
    Performs limit 0 functions (failHere .tooMuchNesting) course.deeper value rest := by
  intro state left _nesting _depth
  rw [Course.tokens_deeper] at left
  unfold Meets
  rw [Course.beyond?_deeper_zero]
  cases tokens : course.tokens with
  | nil => exact absurd tokens some
  | cons first others =>
      rw [tokens] at left
      have here : state.next = first := by
        rw [ParserState.next, left]
        rfl
      rw [← here]
      exact fun _quiet => ⟨state, rfl, rfl⟩

/-- A family of rules, one for each number of levels that are left. -/
theorem Performs.deeper (outer inner : Nat → Parser α)
    (closed : outer 0 = failHere .tooMuchNesting)
    (opens : ∀ room, outer (room + 1) = Parser.nested limit (inner room))
    (performs : ∀ room, Performs limit room functions (inner room) course value rest)
    (some : course.tokens ≠ []) (room : Nat) :
    Performs limit room functions (outer room) course.deeper value rest := by
  cases room with
  | zero =>
      rw [closed]
      exact refused some value rest
  | succ room =>
      rw [opens]
      exact (performs room).nested

/-! ### Loops -/

/-- What a loop goes through, in at most as many rounds as there are tokens. -/
def Loops (limit room functions : Nat) (step : α → Parser (Option α)) (start : α) (course : Course)
    (value : α) (rest : List Token) : Prop :=
  ∀ rounds : List Token, course.tokens.length ≤ rounds.length →
    Performs limit room functions (repeatFor step rounds start) course value rest

variable {step : α → Parser (Option α)} {start middle : α}

theorem Loops.stop (idle : Performs limit room functions (step start) .nothing none rest) :
    Loops limit room functions step start .nothing start rest := by
  intro rounds _enough
  cases rounds with
  | nil => exact .pure start rest
  | cons round rounds => exact idle.look (.pure start rest)

theorem Loops.turn {final : α}
    (turned : Performs limit room functions (step start) course (some middle)
      (more.tokens ++ rest))
    (some : course.tokens ≠ []) (others : Loops limit room functions step middle more final rest) :
    Loops limit room functions step start (course ++ more) final rest := by
  intro rounds enough
  rw [Course.tokens_append, List.length_append] at enough
  have positive := List.length_pos_iff.mpr some
  cases rounds with
  | nil => exact absurd enough (by rw [List.length_nil]; omega)
  | cons round rounds =>
      rw [List.length_cons] at enough
      exact turned.bind (others rounds (by omega))

theorem Loops.repeating (loops : Loops limit room functions step start course value rest) :
    Performs limit room functions (repeating step start) course value rest := by
  intro state left nesting depth
  have enough : course.tokens.length ≤ state.rest.length := by
    rw [left, List.length_append]
    exact Nat.le_add_right _ _
  exact loops state.rest enough state left nesting depth

/-- Items are gathered as long as there are some. What stands behind an item is good, and then so is
what stands behind the one in front of it. -/
theorem Performs.many {item : Parser (Option α)} {readings : List (Reading α)}
    (good : List Token → Prop) (behind : good rest)
    (idle : Performs limit room functions item .nothing none rest)
    (each : ∀ reading ∈ readings, ∀ rest, good rest →
      Performs limit room functions item reading.course (some reading.value) rest ∧
        reading.course.tokens ≠ [] ∧ good (reading.course.tokens ++ rest)) :
    Performs limit room functions (many item) (.all (readings.map (·.course)))
      (readings.map (·.value)) rest := by
  have looped : ∀ found,
      Loops limit room functions (fun found => return (← item).map (· :: found)) found
        (.all (readings.map (·.course))) ((readings.map Reading.value).reverse ++ found) rest ∧
      good ((Course.all (readings.map (·.course))).tokens ++ rest) := by
    induction readings with
    | nil => exact fun found => ⟨.stop (idle.finish (.pure _ rest)), behind⟩
    | cons reading readings ih =>
        intro found
        rw [List.forall_mem_cons] at each
        obtain ⟨loops, fine⟩ := ih each.2 (reading.value :: found)
        obtain ⟨performs, some, fineToo⟩ := each.1 _ fine
        rw [List.map_cons, List.map_cons, List.reverse_cons, List.append_assoc,
          List.singleton_append]
        refine ⟨Loops.turn (performs.finish (.pure _ _)) some loops, ?_⟩
        change good ((reading.course ++ Course.all (readings.map (·.course))).tokens ++ rest)
        rw [Course.tokens_append, List.append_assoc]
        exact fineToo
  have gathered : Performs limit room functions (Parser.many item)
      (.all (readings.map (·.course))) ((readings.map Reading.value).reverse ++ []).reverse rest :=
    (looped []).1.repeating.map
  rw [List.append_nil, List.reverse_reverse] at gathered
  exact gathered

end

end Parser

end Lox
