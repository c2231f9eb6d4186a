import Lox.Proofs.Scope.Lexical
import Lox.Proofs.Scope.Uses
set_option autoImplicit false

/-! To which scope a name belongs. A name is looked up, given a value and bound in three different
ways, and all of them agree on its owner, the first scope outwards that binds it. What one of them
changes is seen from exactly those scopes whose way to the owner no other scope cuts off. -/

namespace Lox

namespace Arena

variable {α : Type}

/-- Going outwards from a scope leads to another one, and no scope before that binds the name. -/
inductive Passes (arena : Arena α) (name : String) : ScopeId → ScopeId → Prop
  | here (id : ScopeId) : Passes arena name id id
  | outward {id outer far : ScopeId} {scope : Scope α} (here : arena.scopes[id]? = some scope)
      (free : scope.bindings.binds name = false) (link : scope.enclosing = some outer)
      (rest : Passes arena name outer far) : Passes arena name id far

/-- The first scope outwards that binds a name. -/
structure Owns (arena : Arena α) (name : String) (id owner : ScopeId) : Prop where
  passes : arena.Passes name id owner
  binds : ∃ scope, arena.scopes[owner]? = some scope ∧ scope.bindings.binds name = true

/-- All that differs in the later arena is what one name stands for in one scope. -/
structure Rebinds (arena : Arena α) (owner : ScopeId) (name : String) (value : α)
    (later : Arena α) : Prop where
  size : later.size = arena.size
  scopes : ∀ id old, arena.scopes[id]? = some old → ∃ new, later.scopes[id]? = some new ∧
    new.enclosing = old.enclosing ∧ new.captured = old.captured ∧
    ∀ other, new.bindings.get? other
      = if id = owner ∧ other = name then some value else old.bindings.get? other

theorem rebinds_define (arena : Arena α) (owner : ScopeId) (name : String) (value : α) :
    arena.Rebinds owner name value (arena.define owner name value) := by
  refine ⟨size_define arena owner name value, ?_⟩
  intro id old found
  rw [scopes_define, found]
  by_cases same : owner = id
  · rw [if_pos same]
    refine ⟨_, rfl, rfl, rfl, fun other => ?_⟩
    rw [Bindings.get?_insert]
    by_cases again : name = other
    · rw [if_pos again, if_pos ⟨same.symm, again.symm⟩]
    · rw [if_neg again, if_neg fun both => again both.2.symm]
  · rw [if_neg same]
    refine ⟨old, rfl, rfl, rfl, fun other => ?_⟩
    rw [if_neg fun both => same both.1.symm]

/-! ### Owners -/

variable {arena later : Arena α} {name : String} {id owner : ScopeId} {scope : Scope α}

theorem Owns.here_iff (here : arena.scopes[id]? = some scope)
    (bound : scope.bindings.binds name = true) : arena.Owns name id owner ↔ owner = id := by
  constructor
  · intro owns
    cases owns.passes with
    | here => rfl
    | outward also free _link _rest =>
        rw [here] at also
        cases also
        rw [bound] at free
        cases free
  · rintro rfl
    exact ⟨.here _, scope, here, bound⟩

theorem Owns.outward_iff (here : arena.scopes[id]? = some scope)
    (free : scope.bindings.binds name = false) :
    arena.Owns name id owner ↔
      ∃ outer, scope.enclosing = some outer ∧ arena.Owns name outer owner := by
  constructor
  · intro owns
    obtain ⟨passes, holder, found, bound⟩ := owns
    cases passes with
    | here =>
        rw [here] at found
        cases found
        rw [free] at bound
        cases bound
    | @outward _ outer _ _ also _free link rest =>
        rw [here] at also
        cases also
        exact ⟨outer, link, rest, holder, found, bound⟩
  · intro further
    obtain ⟨outer, link, owns⟩ := further
    exact ⟨.outward here free link owns.passes, owns.binds⟩

/-- The owner is the one that is looked for. -/
theorem owns_iff (rooted : arena.Rooted) (inside : id < arena.size) (name : String)
    (owner : ScopeId) : arena.Owns name id owner ↔ arena.owner? id name = some owner := by
  refine rooted.outward_induction ?_ inside
  intro id scope here outwards
  rw [rooted.owner?_eq here]
  cases bound : scope.bindings.binds name with
  | true =>
      rw [if_pos rfl, Owns.here_iff here bound, Option.some_inj]
      exact eq_comm
  | false =>
      rw [if_neg Bool.false_ne_true, Owns.outward_iff here bound, Option.bind_eq_some_iff]
      exact exists_congr fun outer => and_congr_right fun link => (outwards outer link).2

/-- What a name stands for is what its owner binds it to. -/
theorem Owns.get?_eq (rooted : arena.Rooted) (inside : id < arena.size)
    (owns : arena.Owns name id owner) :
    ∃ scope value, arena.scopes[owner]? = some scope ∧ scope.bindings.get? name = some value ∧
      arena.get? id name = some value := by
  obtain ⟨scope, found, bound⟩ := owns.binds
  obtain ⟨value, same⟩ := Option.isSome_iff_exists.mp bound
  refine ⟨scope, value, found, same, ?_⟩
  rw [get?, (owns_iff rooted inside name owner).mp owns]
  change (arena.scopes[owner]?.bind fun scope => scope.bindings.get? name) = _
  rw [found]
  exact same

theorem owner?_unowned (rooted : arena.Rooted) (inside : id < arena.size)
    (unowned : ∀ owner, ¬ arena.Owns name id owner) : arena.owner? id name = none := by
  cases found : arena.owner? id name with
  | none => rfl
  | some owner => exact absurd ((owns_iff rooted inside name owner).mpr found) (unowned owner)

/-! ### One binding changed -/

namespace Rebinds

variable {other : ScopeId} {value : α} (rebinds : arena.Rebinds owner name value later)
include rebinds

/-- The change is seen from all scopes on whose way to the owner nothing binds the name. -/
theorem get?_passing (rooted : later.Rooted) (inside : owner < arena.size)
    (passes : arena.Passes name id owner) : later.get? id name = some value := by
  induction passes with
  | here id =>
      obtain ⟨old, found⟩ := exists_of_lt_size inside
      obtain ⟨new, there, _link, _mark, bindings⟩ := rebinds.scopes id old found
      rw [rooted.get?_eq there, bindings, if_pos ⟨rfl, rfl⟩]
      rfl
  | @outward id outer far scope here free link _rest ih =>
      obtain ⟨new, there, linked, _mark, bindings⟩ := rebinds.scopes id scope here
      rw [rooted.get?_eq there, bindings]
      split
      · rfl
      · have absent : scope.bindings.get? name = none :=
          Option.isNone_iff_eq_none.mp (Option.isSome_eq_false_iff.mp free)
        rw [absent, linked, link]
        exact ih rebinds inside

/-- No other name and no other scope sees it. -/
theorem get?_apart (rooted : arena.Rooted) (laterRooted : later.Rooted)
    (inside : id < arena.size) (second : String)
    (apart : ¬ (second = name ∧ arena.Passes name id owner)) :
    later.get? id second = arena.get? id second := by
  revert apart
  refine rooted.outward_induction ?_ inside
  intro id scope here outwards apart
  obtain ⟨new, there, linked, _mark, bindings⟩ := rebinds.scopes id scope here
  have kept : new.bindings.get? second = scope.bindings.get? second := by
    rw [bindings, if_neg]
    intro changed
    obtain ⟨rfl, same⟩ := changed
    exact apart ⟨same, .here id⟩
  rw [rooted.get?_eq here, laterRooted.get?_eq there, kept, linked]
  cases bound : scope.bindings.get? second with
  | some meaning => rfl
  | none =>
      cases link : scope.enclosing with
      | none => rfl
      | some outer =>
          refine (outwards outer link).2 fun both => ?_
          obtain ⟨rfl, passes⟩ := both
          have free : scope.bindings.binds second = false := by
            rw [Bindings.binds, bound]
            rfl
          exact apart ⟨rfl, .outward here free link passes⟩

end Rebinds

end Arena

/-! ### In a run -/

/-- All that differs in the later machine is one binding, and looking names up tells where the change
is seen. -/
structure Machine.Rebinds (machine : Machine) (owner : ScopeId) (name : String) (value : Value)
    (seen : ScopeId → String → Prop) (later : Machine) : Prop where
  beside : later = { machine with arena := later.arena }
  arena : machine.arena.Rebinds owner name value later.arena
  changed : ∀ (other : ScopeId) (second : Token), other < machine.arena.size →
    seen other second.lexeme → Run.lookup other second later = .ok value later
  unchanged : ∀ (other : ScopeId) (second : Token), other < machine.arena.size →
    ¬ seen other second.lexeme →
      Run.answer (Run.lookup other second later) = Run.answer (Run.lookup other second machine)

theorem Machine.rebinds_define {machine : Machine} {owner : ScopeId}
    (rooted : machine.arena.Rooted) (inside : owner < machine.arena.size) (name : String)
    (value : Value) {seen : ScopeId → String → Prop}
    (sees : ∀ other second, seen other second ↔
      second = name ∧ machine.arena.Passes name other owner) :
    machine.Rebinds owner name value seen
      { machine with arena := machine.arena.define owner name value } := by
  have rebinds := Arena.rebinds_define machine.arena owner name value
  have laterRooted := rooted.define owner name value
  refine ⟨rfl, rebinds, ?_, ?_⟩
  · intro other second _there shown
    obtain ⟨same, passes⟩ := (sees other second.lexeme).mp shown
    have new := rebinds.get?_passing laterRooted inside passes
    unfold Run.lookup
    rw [same, new]
  · intro other second there hidden
    have old := rebinds.get?_apart rooted laterRooted there second.lexeme
      (fun both => hidden ((sees other second.lexeme).mpr both))
    unfold Run.lookup
    rw [old]
    cases machine.arena.get? other second.lexeme <;> rfl

namespace Run

variable {machine : Machine} {id owner : ScopeId}

/-- A walk through the arena as a part of a run. Neither a walk that leaves the arena nor one that
goes on for ever is a run-time error. -/
def ofWalk {α : Type} (walk : Walk Value α) : Run α := fun machine =>
  match walk ⟨machine.arena, []⟩ with
  | .ok result walker => .ok result { machine with arena := walker.arena }
  | .error (.failure failure) walker =>
    .error (.failure failure) { machine with arena := walker.arena }
  | .error .outside walker => .error .stuck { machine with arena := walker.arena }
  | .error .exhausted walker => .error .exhausted { machine with arena := walker.arena }

theorem lookup_eq_walk (rooted : machine.arena.Rooted) (inside : id < machine.arena.size)
    (name : Token) {fuel : Nat} (enough : id < fuel) :
    lookup id name machine = ofWalk (Walk.lookUp name fuel (some id)) machine := by
  obtain ⟨path, _falls, ends⟩ := Walk.lookUp_ends rooted inside name
  unfold ofWalk lookup
  rw [ends fuel enough []]
  cases machine.arena.get? id name.lexeme <;> rfl

theorem assign_eq_walk (rooted : machine.arena.Rooted) (inside : id < machine.arena.size)
    (name : Token) (value : Value) {fuel : Nat} (enough : id < fuel) :
    assign id name value machine = ofWalk (Walk.overwrite name value fuel (some id)) machine := by
  obtain ⟨path, _falls, ends⟩ := Walk.overwrite_ends rooted inside name value
  unfold ofWalk assign
  rw [ends fuel enough []]
  rcases machine.arena.assign id name.lexeme value with ⟨found, later⟩
  cases found <;> rfl

theorem lookup_owned (rooted : machine.arena.Rooted) (inside : id < machine.arena.size)
    {name : Token} (owns : machine.arena.Owns name.lexeme id owner) :
    ∃ scope found, machine.arena.scopes[owner]? = some scope ∧
      scope.bindings.get? name.lexeme = some found ∧
      lookup id name machine = .ok found machine := by
  obtain ⟨scope, found, here, bound, same⟩ := owns.get?_eq rooted inside
  refine ⟨scope, found, here, bound, ?_⟩
  unfold lookup
  rw [same]

theorem assign_owned (rooted : machine.arena.Rooted) (inside : id < machine.arena.size)
    {name : Token} (value : Value) (owns : machine.arena.Owns name.lexeme id owner) :
    assign id name value machine
      = .ok () { machine with arena := machine.arena.define owner name.lexeme value } := by
  unfold assign Arena.assign
  rw [(Arena.owns_iff rooted inside name.lexeme owner).mp owns]

theorem lookup_unowned (rooted : machine.arena.Rooted) (inside : id < machine.arena.size)
    {name : Token} (unowned : ∀ owner, ¬ machine.arena.Owns name.lexeme id owner) :
    lookup id name machine = .error (.failure (.undefined name)) machine := by
  unfold lookup Arena.get?
  rw [Arena.owner?_unowned rooted inside unowned]
  rfl

theorem assign_unowned (rooted : machine.arena.Rooted) (inside : id < machine.arena.size)
    {name : Token} (value : Value)
    (unowned : ∀ owner, ¬ machine.arena.Owns name.lexeme id owner) :
    assign id name value machine = .error (.failure (.undefined name)) machine := by
  unfold assign Arena.assign
  rw [Arena.owner?_unowned rooted inside unowned]

/-- Looking a name up, giving it a value and binding it agree on its owner, in every arena that can
come about. The first two are walks outwards, each for itself, and both succeed if the name has an
owner, and otherwise fail alike and change nothing. A value given to a name is then found from the
scopes with the same owner, and a name that is bound from those that reach the scope before another
owner. All other lookups give what they gave, and nothing else in the machine differs. -/
theorem names_belong_to_owners {operations : List (Arena.Operation Value)}
    (uses : Arena.initial.Uses operations machine.arena) (inside : id < machine.arena.size)
    (name : Token) (value : Value) :
    (∀ fuel, id < fuel →
      lookup id name machine = ofWalk (Walk.lookUp name fuel (some id)) machine ∧
      assign id name value machine
        = ofWalk (Walk.overwrite name value fuel (some id)) machine) ∧
    ((∃ found, lookup id name machine = .ok found machine) ↔
      ∃ later, assign id name value machine = .ok () later) ∧
    (∀ owner, machine.arena.Owns name.lexeme id owner →
      (∃ scope found, machine.arena.scopes[owner]? = some scope ∧
        scope.bindings.get? name.lexeme = some found ∧
        lookup id name machine = .ok found machine) ∧
      ∃ later, assign id name value machine = .ok () later ∧
        machine.Rebinds owner name.lexeme value
          (fun other second => second = name.lexeme ∧ machine.arena.Owns name.lexeme other owner)
          later) ∧
    ((∀ owner, ¬ machine.arena.Owns name.lexeme id owner) →
      lookup id name machine = .error (.failure (.undefined name)) machine ∧
      assign id name value machine = .error (.failure (.undefined name)) machine) ∧
    ∃ later, define id name value machine = .ok () later ∧
      machine.Rebinds id name.lexeme value
        (fun other second => second = name.lexeme ∧ machine.arena.Passes name.lexeme other id)
        later := by
  have rooted := uses.rooted_of_initial
  have owned : ∀ owner, machine.arena.Owns name.lexeme id owner → owner < machine.arena.size := by
    intro owner owns
    obtain ⟨scope, found, _bound⟩ := owns.binds
    exact Arena.lt_size_of_getElem? found
  refine ⟨?_, ?_, ?_, ?_, ?_⟩
  · intro fuel enough
    exact ⟨lookup_eq_walk rooted inside name enough, assign_eq_walk rooted inside name value enough⟩
  · by_cases owner : ∃ owner, machine.arena.Owns name.lexeme id owner
    · obtain ⟨owner, owns⟩ := owner
      obtain ⟨_scope, found, _here, _bound, same⟩ := lookup_owned rooted inside owns
      exact iff_of_true ⟨found, same⟩ ⟨_, assign_owned rooted inside value owns⟩
    · have unowned := not_exists.mp owner
      rw [lookup_unowned rooted inside unowned, assign_unowned rooted inside value unowned]
      exact iff_of_false (fun found => nomatch found) (fun later => nomatch later)
  · intro owner owns
    refine ⟨lookup_owned rooted inside owns, _, assign_owned rooted inside value owns, ?_⟩
    apply machine.rebinds_define rooted (owned owner owns)
    intro other second
    exact and_congr_right fun _same =>
      ⟨Arena.Owns.passes, fun passes => ⟨passes, owns.binds⟩⟩
  · intro unowned
    exact ⟨lookup_unowned rooted inside unowned, assign_unowned rooted inside value unowned⟩
  · exact ⟨_, rfl, machine.rebinds_define rooted inside name.lexeme value fun _ _ => Iff.rfl⟩

end Run

namespace Shadowed

def operations : List (Arena.Operation Value) :=
  [.define 0 "price" (.string "low"), .push 0, .define 1 "price" (.string "high"), .push 1, .push 0]

def machine : Machine :=
  ⟨operations.foldl Arena.after Arena.initial, 0, .unlimited⟩

def price : Token :=
  ⟨.identifier, "price", .nil, 1⟩

theorem used : Arena.initial.Uses operations machine.arena :=
  .more (by decide) <| .more (by decide) <| .more (by decide) <| .more (by decide) <|
    .more (by decide) <| .done machine.arena

theorem owned : machine.arena.Owns "price" 2 1 :=
  ⟨.outward rfl rfl rfl (.here 1), _, rfl, rfl⟩

/-- The price that is set is the inner one, and the scope beside keeps the price it had. -/
theorem inner_price_set :
    Arena.initial.Uses operations machine.arena ∧ 2 < machine.arena.size ∧
      ∃ later, Run.assign 2 price .nil machine = .ok () later ∧
        Run.lookup 1 price later = .ok .nil later ∧
        Run.answer (Run.lookup 3 price later) = .ok (.string "low") := by
  have inside : 2 < machine.arena.size := by decide
  obtain ⟨_walks, _both, assigns, _fails, _defines⟩ :=
    Run.names_belong_to_owners used inside price .nil
  obtain ⟨_looks, later, same, rebinds⟩ := assigns 1 owned
  have beside : 3 < machine.arena.size := by decide
  have elsewhere : ¬ machine.arena.Owns "price" 3 1 := by
    rw [Arena.owns_iff used.rooted_of_initial beside]
    decide
  refine ⟨used, inside, later, same, ?_, ?_⟩
  · exact rebinds.changed 1 price (by decide) ⟨rfl, .here 1, _, rfl, rfl⟩
  · exact rebinds.unchanged 3 price beside fun both => elsewhere both.2

end Shadowed

end Lox
