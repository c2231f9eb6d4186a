import Lox.Proofs.Run.Composed
import Lox.Proofs.Scope.Moves
set_option autoImplicit false

/-! Runs that keep to some scopes. If a set of scopes is closed under enclosing links and under the
scopes that bound functions close over, a run that starts in it stays in it and in the scopes that
it opens itself. Two machines that agree on the set do the same, whatever the other scopes hold. -/

namespace Lox

namespace Value

/-- The scope that a function value closes over. -/
def closure? : Value → Option ScopeId
  | callable (.closure _ scope) => some scope
  | _ => none

end Value

/-- Whatever a scope leads to is in the set. -/
structure Scope.Within (inside : ScopeId → Prop) (scope : Scope Value) : Prop where
  outward : ∀ outer ∈ scope.enclosing, inside outer
  bound : ∀ (name : String) (value : Value), scope.bindings.get? name = some value →
    ∀ closure ∈ value.closure?, inside closure

/-- A set of scopes with those that are opened during a run, and what the run may declare. The run
starts from an arena, and has a twin; both have printed something before. -/
structure Region where
  base : Arena Value
  inside : ScopeId → Prop
  declares : ScopeId → String → Prop
  inside_of_opened : ∀ id, base.size ≤ id → inside id
  declares_of_opened : ∀ id name, base.size ≤ id → declares id name
  printed : ByteArray
  printedOther : ByteArray

namespace Region

variable (region : Region)

def terms : Terms where
  value value := ∀ closure ∈ value.closure?, region.inside closure
  scope := region.inside
  opened id := region.base.size ≤ id
  declares := region.declares
  literal _ _ member := nomatch member
  closure declaration id := by simp [Value.closure?]
  scope_of_opened := region.inside_of_opened
  declares_of_opened := region.declares_of_opened

/-- What has become of the arena and of its twin: nothing leads out of the region, the twins agree
there, the scopes outside are as they were, and no scope has lost a name or got one that may not be
declared in it. -/
structure Holds (arena other : Arena Value) : Prop where
  longer : region.base.size ≤ arena.size
  size : other.size = arena.size
  closed : ∀ (id : ScopeId) (scope : Scope Value), region.inside id →
    arena.scopes[id]? = some scope → scope.Within region.inside
  agree : ∀ id, region.inside id → other.scopes[id]? = arena.scopes[id]?
  spared : ∀ id, ¬ region.inside id → arena.scopes[id]? = region.base.scopes[id]?
  names : ∀ (id : ScopeId) (old : Scope Value), region.base.scopes[id]? = some old →
    ∃ new, arena.scopes[id]? = some new ∧ ∀ name,
      (old.bindings.binds name = true → new.bindings.binds name = true) ∧
      (new.bindings.binds name = true → old.bindings.binds name = true ∨ region.declares id name)

namespace Holds

variable {region} {arena other : Arena Value} (holds : region.Holds arena other)
variable {scope : ScopeId} {name : String} {value : Value}
include holds

/-- Looking for a name from inside outwards stays inside, and finds the same in the twin. -/
theorem ownerWithin (inside : region.inside scope) (name : String) (reach : Nat) :
    other.ownerWithin name reach scope = arena.ownerWithin name reach scope ∧
      ∀ owner, arena.ownerWithin name reach scope = some owner →
        region.inside owner ∧
          ∃ found, arena.scopes[owner]? = some found ∧ found.bindings.binds name = true := by
  induction reach generalizing scope with
  | zero => exact ⟨rfl, fun _ found => nomatch found⟩
  | succ reach ih =>
      unfold Arena.ownerWithin
      rw [holds.agree scope inside]
      cases there : arena.scopes[scope]? with
      | none => exact ⟨rfl, fun _ found => nomatch found⟩
      | some found =>
          dsimp only
          by_cases bound : found.bindings.binds name = true
          · rw [if_pos bound, if_pos bound]
            refine ⟨rfl, fun owner same => ?_⟩
            cases same
            exact ⟨inside, found, there, bound⟩
          · rw [if_neg bound, if_neg bound]
            cases link : found.enclosing with
            | none => exact ⟨rfl, fun _ found => nomatch found⟩
            | some outer => exact ih ((holds.closed scope found inside there).outward outer link)

theorem get? (inside : region.inside scope) (name : String) :
    other.get? scope name = arena.get? scope name ∧
      ∀ value, arena.get? scope name = some value → region.terms.value value := by
  obtain ⟨same, owned⟩ := holds.ownerWithin inside name (scope + 1)
  unfold Arena.get? Arena.owner?
  rw [same]
  cases found : arena.ownerWithin name (scope + 1) scope with
  | none => exact ⟨rfl, fun _ found => nomatch found⟩
  | some owner =>
      obtain ⟨ownerInside, home, there, _bound⟩ := owned owner found
      simp only [Option.bind_eq_bind, Option.bind_some, holds.agree owner ownerInside, there,
        true_and]
      exact (holds.closed owner home ownerInside there).bound name

/-- One scope of the region may be changed, if the change leads nowhere else. -/
theorem modify {change : Scope Value → Scope Value} {next nextOther : Arena Value}
    (inside : region.inside scope) (size : next.size = arena.size)
    (sizeOther : nextOther.size = other.size)
    (looks : ∀ id, next.scopes[id]?
      = if scope = id then arena.scopes[id]?.map change else arena.scopes[id]?)
    (looksOther : ∀ id, nextOther.scopes[id]?
      = if scope = id then other.scopes[id]?.map change else other.scopes[id]?)
    (within : ∀ old, old.Within region.inside → (change old).Within region.inside)
    (names : ∀ old, arena.scopes[scope]? = some old → ∀ name,
      (old.bindings.binds name = true → (change old).bindings.binds name = true) ∧
      ((change old).bindings.binds name = true →
        old.bindings.binds name = true ∨ region.declares scope name)) :
    region.Holds next nextOther where
  longer := size ▸ holds.longer
  size := sizeOther.trans (holds.size.trans size.symm)
  closed := by
    intro id found idInside there
    rw [looks] at there
    split at there
    · obtain ⟨old, here, rfl⟩ := Option.map_eq_some_iff.mp there
      exact within old (holds.closed id old idInside here)
    · exact holds.closed id found idInside there
  agree := by
    intro id idInside
    rw [looks, looksOther, holds.agree id idInside]
  spared := by
    intro id outside
    have apart : scope ≠ id := fun same => outside (same ▸ inside)
    rw [looks, if_neg apart, holds.spared id outside]
  names := by
    intro id first there
    obtain ⟨old, here, since⟩ := holds.names id first there
    rw [looks, here]
    by_cases same : scope = id
    · subst same
      rw [if_pos rfl]
      refine ⟨change old, rfl, fun name => ?_⟩
      obtain ⟨stays, new⟩ := names old here name
      obtain ⟨stayed, gained⟩ := since name
      exact ⟨fun bound => stays (stayed bound), fun bound => (new bound).elim gained Or.inr⟩
    · rw [if_neg same]
      exact ⟨old, rfl, since⟩

theorem define (inside : region.inside scope) (within : region.terms.value value)
    (allowed : ∀ old, arena.scopes[scope]? = some old →
      old.bindings.binds name = true ∨ region.declares scope name) :
    region.Holds (arena.define scope name value) (other.define scope name value) := by
  refine holds.modify inside (Arena.size_define _ _ _ _) (Arena.size_define _ _ _ _)
    (fun id => Arena.scopes_define _ _ _ _ _) (fun id => Arena.scopes_define _ _ _ _ _) ?_ ?_
  · intro old leads
    refine ⟨leads.outward, fun bound found there => ?_⟩
    rw [Bindings.get?_insert] at there
    split at there
    · cases there
      exact within
    · exact leads.bound bound found there
  · intro old here bound
    simp only [Bindings.binds, Bindings.get?_insert]
    by_cases same : name = bound
    · subst same
      simpa [Bindings.binds] using allowed old here
    · rw [if_neg same]
      exact ⟨fun stays => stays, Or.inl⟩

theorem capture (inside : region.inside scope) :
    region.Holds (arena.capture scope) (other.capture scope) :=
  holds.modify inside (Arena.size_capture _ _) (Arena.size_capture _ _)
    (fun _ => Arena.scopes_capture _ _ _) (fun _ => Arena.scopes_capture _ _ _)
    (fun _ leads => ⟨leads.outward, leads.bound⟩) fun _ _ _ => ⟨id, Or.inl⟩

/-- Both twins open the same scope, which is none of those before. -/
theorem push (inside : region.inside scope) :
    (other.push scope).1 = (arena.push scope).1 ∧ region.base.size ≤ (arena.push scope).1 ∧
      region.Holds (arena.push scope).2 (other.push scope).2 := by
  refine ⟨holds.size, holds.longer, ?_⟩
  have longer := holds.longer
  constructor
  · rw [Arena.size_push]
    exact Nat.le_succ_of_le longer
  · rw [Arena.size_push, Arena.size_push, holds.size]
  · intro id found idInside there
    rw [Arena.scopes_push] at there
    split at there
    · cases there
      refine ⟨fun outer member => ?_, fun _ _ bound => nomatch bound⟩
      cases member
      exact inside
    · exact holds.closed id found idInside there
  · intro id idInside
    rw [Arena.scopes_push, Arena.scopes_push, holds.size, holds.agree id idInside]
  · intro id outside
    have old : id ≠ arena.size := fun same => outside (region.inside_of_opened id (same ▸ longer))
    rw [Arena.scopes_push, if_neg old, holds.spared id outside]
  · intro id first there
    have old : id ≠ arena.size :=
      Nat.ne_of_lt (Nat.lt_of_lt_of_le (Arena.lt_size_of_getElem? there) longer)
    rw [Arena.scopes_push, if_neg old]
    exact holds.names id first there

theorem isReleasable (inside : region.inside scope) :
    other.isReleasable scope = arena.isReleasable scope := by
  unfold Arena.isReleasable
  rw [holds.size, holds.agree scope inside]

theorem release (opened : region.base.size ≤ scope) :
    region.Holds (arena.release scope) (other.release scope) := by
  have inside := region.inside_of_opened scope opened
  have same := holds.isReleasable inside
  constructor
  · rw [Arena.size_release]
    split
    · next taken =>
        have last := ((Arena.isReleasable_iff arena scope).mp taken).2.1
        rw [← last]
        exact opened
    · exact holds.longer
  · rw [Arena.size_release, Arena.size_release, same, holds.size]
  · intro id found idInside there
    rw [Arena.scopes_release] at there
    split at there
    · cases there
    · exact holds.closed id found idInside there
  · intro id idInside
    rw [Arena.scopes_release, Arena.scopes_release, same, holds.agree id idInside]
  · intro id outside
    have apart : id ≠ scope := fun same => outside (same ▸ inside)
    rw [Arena.scopes_release, if_neg fun both => apart both.2, holds.spared id outside]
  · intro id first there
    have apart : id ≠ scope :=
      Nat.ne_of_lt (Nat.lt_of_lt_of_le (Arena.lt_size_of_getElem? there) opened)
    rw [Arena.scopes_release, if_neg fun both => apart both.2]
    exact holds.names id first there

end Holds

/-! ### Twin machines -/

/-- Two machines whose arenas are twins, with the same calls in progress and the same room to print
in, which have printed the same since the start. -/
structure Twins (machine other : Machine) : Prop where
  arenas : region.Holds machine.arena other.arena
  depth : other.callDepth = machine.callDepth
  room : other.output.room = machine.output.room
  written : ∃ bytes, machine.output.written = region.printed ++ bytes ∧
    other.output.written = region.printedOther ++ bytes

/-- Twins behind an action that came to the same. -/
inductive Same {α : Type} (post : α → Prop) :
    EStateM.Result Interrupt Machine α → EStateM.Result Interrupt Machine α → Prop
  | ok {result : α} {later laterOther : Machine} (twins : region.Twins later laterOther)
      (holds : post result) : Same post (.ok result later) (.ok result laterOther)
  | error {interrupt : Interrupt} {later laterOther : Machine}
      (twins : region.Twins later laterOther)
      (holds : ∀ value, interrupt = .returning value → region.terms.value value) :
      Same post (.error interrupt later) (.error interrupt laterOther)

def Confines {α : Type} (post : α → Prop) (action : Run α) : Prop :=
  ∀ machine other, region.Twins machine other → region.Same post (action machine) (action other)

variable {region} {machine other : Machine}

namespace Twins

/-- The arenas are all that differs from before. -/
theorem of_arenas (twins : region.Twins machine other) {arena arenaOther : Arena Value}
    (holds : region.Holds arena arenaOther) :
    region.Twins { machine with arena } { other with arena := arenaOther } :=
  ⟨holds, twins.depth, twins.room, twins.written⟩

theorem of_depth (twins : region.Twins machine other) {depth depthOther : Nat}
    (same : depthOther = depth) :
    region.Twins { machine with callDepth := depth } { other with callDepth := depthOther } :=
  ⟨twins.arenas, same, twins.room, twins.written⟩

/-- Both outputs take the same part of what is written. -/
theorem write (twins : region.Twins machine other) (bytes : ByteArray) :
    (other.output.write bytes).2 = (machine.output.write bytes).2 ∧
      region.Twins { machine with output := (machine.output.write bytes).1 }
        { other with output := (other.output.write bytes).1 } := by
  obtain ⟨before, printed, printedOther⟩ := twins.written
  have longer : ∀ more, ∃ bytes, machine.output.written ++ more = region.printed ++ bytes ∧
      other.output.written ++ more = region.printedOther ++ bytes := by
    intro more
    refine ⟨before ++ more, ?_, ?_⟩
    · rw [printed, ByteArray.append_assoc]
    · rw [printedOther, ByteArray.append_assoc]
  unfold Output.write
  rw [twins.room]
  cases machine.output.room with
  | none => exact ⟨rfl, twins.arenas, twins.depth, rfl, longer bytes⟩
  | some room =>
      by_cases fits : bytes.size ≤ room
      · simp only [if_pos fits]
        exact ⟨trivial, twins.arenas, twins.depth, rfl, longer bytes⟩
      · simp only [if_neg fits]
        exact ⟨trivial, twins.arenas, twins.depth, rfl, longer _⟩

end Twins

section Actions

variable {α β : Type} {post : α → Prop}

theorem bind_confines {middle : α → Prop} {post : β → Prop} {first : Run α} {second : α → Run β}
    (confines : region.Confines middle first)
    (others : ∀ result, middle result → region.Confines post (second result)) :
    region.Confines post (first >>= second) := by
  intro machine other twins
  have same := confines machine other twins
  change region.Same post (EStateM.bind first second machine) (EStateM.bind first second other)
  unfold EStateM.bind
  generalize first machine = outcome, first other = outcomeOther at same ⊢
  cases same with
  | ok twins holds => exact others _ holds _ _ twins
  | error twins holds => exact .error twins holds

theorem lookup_confines {scope : ScopeId} (inside : region.inside scope) (name : Token) :
    region.Confines region.terms.value (Run.lookup scope name) := by
  intro machine other twins
  obtain ⟨same, within⟩ := twins.arenas.get? inside name.lexeme
  unfold Run.lookup
  rw [same]
  cases found : machine.arena.get? scope name.lexeme with
  | some value => exact .ok twins (within value found)
  | none => exact .error twins fun _ same => nomatch same

theorem assign_confines {scope : ScopeId} (inside : region.inside scope) (name : Token)
    {value : Value} (within : region.terms.value value) :
    region.Confines (fun _ => True) (Run.assign scope name value) := by
  intro machine other twins
  obtain ⟨same, owned⟩ := twins.arenas.ownerWithin inside name.lexeme (scope + 1)
  unfold Run.assign Arena.assign Arena.owner?
  rw [same]
  cases found : machine.arena.ownerWithin name.lexeme (scope + 1) scope with
  | none => exact .error twins fun _ same => nomatch same
  | some owner =>
      obtain ⟨ownerInside, home, there, bound⟩ := owned owner found
      refine .ok (twins.of_arenas (twins.arenas.define ownerInside within ?_)) trivial
      intro old here
      rw [there] at here
      cases here
      exact Or.inl bound

theorem define_confines {scope : ScopeId} (inside : region.inside scope) {name : Token}
    (declares : region.declares scope name.lexeme) {value : Value}
    (within : region.terms.value value) :
    region.Confines (fun _ => True) (Run.define scope name value) := fun _ _ twins =>
  .ok (twins.of_arenas (twins.arenas.define inside within fun _ _ => Or.inr declares)) trivial

theorem push_confines {enclosing : ScopeId} (inside : region.inside enclosing) :
    region.Confines region.terms.opened (Run.push enclosing) := by
  intro machine other twins
  obtain ⟨same, opened, holds⟩ := twins.arenas.push inside
  change region.Same _ (.ok (machine.arena.push enclosing).1 _)
    (.ok (other.arena.push enclosing).1 _)
  rw [same]
  exact .ok (twins.of_arenas holds) opened

theorem print_confines (value : Value) : region.Confines (fun _ => True) (Run.print value) := by
  intro machine other twins
  obtain ⟨same, still⟩ := twins.write (value.text ++ "\n").toUTF8
  unfold Run.print
  generalize machine.output.write (value.text ++ "\n").toUTF8 = wrote,
    other.output.write (value.text ++ "\n").toUTF8 = wroteOther at same still ⊢
  obtain ⟨output, error⟩ := wrote
  obtain ⟨outputOther, errorOther⟩ := wroteOther
  cases same
  cases error with
  | none => exact .ok still trivial
  | some error => exact .error still fun _ same => nomatch same

theorem releasing_confines (settings : Settings) {scope : ScopeId}
    (opened : region.base.size ≤ scope) {body : Run α} (confines : region.Confines post body) :
    region.Confines post (Run.releasing settings scope body) := by
  intro machine other twins
  have left : ∀ {later laterOther : Machine}, region.Twins later laterOther →
      region.Twins (later.leave settings scope) (laterOther.leave settings scope) := by
    intro later laterOther twins
    unfold Machine.leave
    split
    · exact twins.of_arenas (twins.arenas.release opened)
    · exact twins
  have same := confines machine other twins
  unfold Run.releasing
  generalize body machine = outcome, body other = outcomeOther at same ⊢
  cases same with
  | ok twins holds => exact .ok (left twins) holds
  | error twins holds => exact .error (left twins) holds

theorem counted_confines (settings : Settings) {call : Run α}
    (confines : region.Confines post call) :
    region.Confines post (Run.counted settings call) := by
  intro machine other twins
  have deeper : other.callDepth + 1 = machine.callDepth + 1 := congrArg (· + 1) twins.depth
  have same := confines _ _ (twins.of_depth deeper)
  unfold Run.counted
  rw [twins.depth]
  split
  · exact .error twins fun _ same => nomatch same
  · rw [twins.depth] at same
    generalize call { machine with callDepth := machine.callDepth + 1 } = outcome,
      call { other with callDepth := machine.callDepth + 1 } = outcomeOther at same ⊢
    cases same with
    | ok twins holds => exact .ok (twins.of_depth (congrArg (· - 1) twins.depth)) holds
    | error twins holds => exact .error (twins.of_depth (congrArg (· - 1) twins.depth)) holds

theorem returned_confines {body : Run Unit} (confines : region.Confines (fun _ => True) body) :
    region.Confines region.terms.value (Run.returned body) := by
  intro machine other twins
  have same := confines machine other twins
  unfold Run.returned
  generalize body machine = outcome, body other = outcomeOther at same ⊢
  cases same with
  | ok twins _ => exact .ok twins fun _ member => nomatch member
  | @error interrupt _ _ twins holds =>
      cases interrupt with
      | returning value => exact .ok twins (holds value rfl)
      | failure | callDepth | output | stuck | exhausted =>
          exact .error twins fun _ same => nomatch same

end Actions

/-- Nothing that is run leaves the region. -/
theorem confines_composes (region : Region) :
    Run.Composes region.terms (fun post action => region.Confines post action) where
  pure _ holds _ _ twins := .ok twins holds
  throw _ _ returns _ _ twins := .error twins returns
  bind := bind_confines
  lookup _ name inside := lookup_confines inside name
  assign _ name _ inside within := assign_confines inside name within
  define _ _ _ inside declares within := define_confines inside declares within
  capture _ inside _ _ twins := .ok (twins.of_arenas (twins.arenas.capture inside)) trivial
  push _ inside := push_confines inside
  print := print_confines
  releasing settings _ opened confines := releasing_confines settings opened confines
  counted settings confines := counted_confines settings confines
  returned := returned_confines

end Region

end Lox
