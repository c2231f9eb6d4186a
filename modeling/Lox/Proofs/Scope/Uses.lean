import Lox.Proofs.Scope.Walk
set_option autoImplicit false

/-! Arenas that are used in any order. Scopes may be pushed, captured, left and written to in an
order that no program would have, through places that have been given to another scope since; the
arena stays rooted, and what has been captured stays, with all that encloses it. -/

namespace Lox

namespace Arena

variable {α : Type}

/-- What can be done with an arena. -/
inductive Operation (α : Type) where
  | push (enclosing : ScopeId)
  | capture (scope : ScopeId)
  | release (scope : ScopeId)
  | define (scope : ScopeId) (name : String) (value : α)
  | assign (scope : ScopeId) (name : String) (value : α)
  | get (scope : ScopeId) (name : String)

/-- The scope on which an operation is done. -/
def Operation.scope : Operation α → ScopeId
  | push enclosing => enclosing
  | capture scope => scope
  | release scope => scope
  | define scope _ _ => scope
  | assign scope _ _ => scope
  | get scope _ => scope

/-- The arena behind an operation. -/
def after (arena : Arena α) : Operation α → Arena α
  | .push enclosing => (arena.push enclosing).2
  | .capture scope => arena.capture scope
  | .release scope => arena.release scope
  | .define scope name value => arena.define scope name value
  | .assign scope name value => (arena.assign scope name value).2
  | .get _ _ => arena

/-- Operations one after the other, each on a scope that is there at the time. -/
inductive Uses : Arena α → List (Operation α) → Arena α → Prop
  | done (arena : Arena α) : Uses arena [] arena
  | more {arena later : Arena α} {operation : Operation α} {operations : List (Operation α)}
      (inside : operation.scope < arena.size) (rest : Uses (arena.after operation) operations later) :
      Uses arena (operation :: operations) later

/-- The scopes up to a place are there again, with their links and with all names they had. -/
def Retains (last : ScopeId) (arena later : Arena α) : Prop :=
  ∀ id ≤ last, ∀ old, arena.scopes[id]? = some old →
    ∃ new, later.scopes[id]? = some new ∧ new.enclosing = old.enclosing ∧
      ∀ name, old.bindings.binds name = true → new.bindings.binds name = true

/-! ### Rooted arenas -/

variable {arena later : Arena α}

theorem Rooted.after (rooted : arena.Rooted) {operation : Operation α}
    (inside : operation.scope < arena.size) : (arena.after operation).Rooted := by
  cases operation with
  | push enclosing => exact rooted.push inside
  | capture scope => exact rooted.capture scope
  | release scope => exact rooted.release scope
  | define scope name value => exact rooted.define scope name value
  | assign scope name value => exact rooted.assign scope name value
  | get scope name => exact rooted

theorem Uses.rooted {operations : List (Operation α)} (uses : arena.Uses operations later)
    (rooted : arena.Rooted) : later.Rooted := by
  induction uses with
  | done => exact rooted
  | more inside _rest ih => exact ih (rooted.after inside)

/-- Every arena that comes from the initial one is rooted. -/
theorem Uses.rooted_of_initial {operations : List (Operation α)}
    (uses : initial.Uses operations later) : later.Rooted :=
  uses.rooted rooted_initial

/-- Leaving a scope takes the last one away, or changes nothing. -/
theorem release_cases (arena : Arena α) (id : ScopeId) :
    arena.release id = arena ∨
      id ≠ globalScope ∧ id + 1 = arena.size ∧
        ∃ last, last.captured = false ∧ (arena.release id).scopes.push last = arena.scopes := by
  by_cases taken : arena.isReleasable id = true
  · obtain ⟨inner, isLast, last, found, free⟩ := (isReleasable_iff arena id).mp taken
    have shrunk : (arena.release id).scopes.size = id := by
      have size := size_release arena id
      rwa [if_pos taken, ← isLast, Nat.add_sub_cancel] at size
    refine Or.inr ⟨inner, isLast, last, free, ?_⟩
    apply Array.ext_getElem?
    intro place
    rw [Array.getElem?_push, shrunk, scopes_release]
    by_cases here : place = id
    · rw [if_pos here, here, found]
    · rw [if_neg here, if_neg fun both => here both.2]
  · exact Or.inl (if_neg taken)

/-! ### Captured scopes -/

namespace Retains

variable {middle : Arena α} {last : ScopeId}

theorem refl (last : ScopeId) (arena : Arena α) : arena.Retains last arena :=
  fun _id _within old found => ⟨old, found, rfl, fun _name bound => bound⟩

theorem trans (first : arena.Retains last middle) (second : middle.Retains last later) :
    arena.Retains last later := by
  intro id within old found
  obtain ⟨between, here, link, names⟩ := first id within old found
  obtain ⟨new, there, nextLink, nextNames⟩ := second id within between here
  exact ⟨new, there, nextLink.trans link, fun name bound => nextNames name (names name bound)⟩

theorem push (arena : Arena α) (enclosing : ScopeId) :
    arena.Retains last (arena.push enclosing).2 := by
  intro id _within old found
  refine ⟨old, ?_, rfl, fun _name bound => bound⟩
  rw [scopes_push, if_neg (Nat.ne_of_lt (lt_size_of_getElem? found))]
  exact found

theorem capture (arena : Arena α) (scope : ScopeId) :
    arena.Retains last (arena.capture scope) := by
  intro id _within old found
  rw [scopes_capture, found]
  split
  · exact ⟨{ old with captured := true }, rfl, rfl, fun _name bound => bound⟩
  · exact ⟨old, rfl, rfl, fun _name bound => bound⟩

theorem define (arena : Arena α) (scope : ScopeId) (name : String) (value : α) :
    arena.Retains last (arena.define scope name value) := by
  intro id _within old found
  rw [scopes_define, found]
  split
  · exact ⟨_, rfl, rfl, fun other bound => old.bindings.binds_insert name value bound⟩
  · exact ⟨old, rfl, rfl, fun _name bound => bound⟩

theorem assign (arena : Arena α) (scope : ScopeId) (name : String) (value : α) :
    arena.Retains last (arena.assign scope name value).2 := by
  unfold Arena.assign
  split
  · exact define arena _ name value
  · exact refl last arena

/-- A scope that is captured keeps the scopes below it from being taken away. -/
theorem release (captured : arena.Captures last) (scope : ScopeId) :
    arena.Retains last (arena.release scope) := by
  intro id within old found
  refine ⟨old, ?_, rfl, fun _name bound => bound⟩
  rw [scopes_release, if_neg]
  · exact found
  · intro holds
    obtain ⟨taken, rfl⟩ := holds
    obtain ⟨_inner, isLast, top, there, free⟩ := (isReleasable_iff arena id).mp taken
    obtain ⟨scope, here, marked⟩ := captured
    have below : last < id + 1 := isLast ▸ lt_size_of_getElem? here
    have same : last = id := Nat.le_antisymm (Nat.le_of_lt_succ below) within
    rw [same, there] at here
    cases here
    rw [free] at marked
    cases marked

end Retains

theorem Captures.after {id : ScopeId} (captured : arena.Captures id) (operation : Operation α) :
    (arena.after operation).Captures id ∧ arena.Retains id (arena.after operation) := by
  cases operation with
  | push enclosing => exact ⟨captured.push enclosing, .push arena enclosing⟩
  | capture scope => exact ⟨captured.capture scope, .capture arena scope⟩
  | release scope => exact ⟨captured.release scope, .release captured scope⟩
  | define scope name value =>
      exact ⟨captured.define scope name value, .define arena scope name value⟩
  | assign scope name value =>
      exact ⟨captured.assign scope name value, .assign arena scope name value⟩
  | get scope name => exact ⟨captured, .refl id arena⟩

theorem Captures.uses {id : ScopeId} (captured : arena.Captures id)
    {operations : List (Operation α)} (uses : arena.Uses operations later) :
    later.Captures id ∧ arena.Retains id later := by
  induction uses with
  | done arena => exact ⟨captured, .refl id arena⟩
  | @more arena later operation operations inside rest ih =>
      obtain ⟨stays, retains⟩ := captured.after operation
      obtain ⟨still, further⟩ := ih stays
      exact ⟨still, retains.trans further⟩

/-- An arena is sound however it is used. The global scope is there and encloses the others, each of
which was opened behind the one that encloses it; so both walks end, with fuel for as many scopes as
there are up to the first, and the places they visit only fall. A new scope gets the place behind
the last. Leaving a scope takes the last one away, or changes nothing. And what is captured stays,
with all scopes that were there before it. -/
theorem sound_however_used {operations further : List (Operation α)}
    (uses : initial.Uses operations arena) (goesOn : arena.Uses further later) {id : ScopeId}
    (inside : id < arena.size) :
    arena.Rooted ∧
      (∀ name : Token, ∃ path, arena.Falls id path ∧ ∀ fuel, id < fuel →
        Walk.lookUp name fuel (some id) ⟨arena, []⟩
          = Walk.found name ⟨arena, path⟩ (arena.get? id name.lexeme)) ∧
      (∀ (name : Token) (value : α), ∃ path, arena.Falls id path ∧ ∀ fuel, id < fuel →
        Walk.overwrite name value fuel (some id) ⟨arena, []⟩
          = Walk.assigned name path (arena.assign id name.lexeme value)) ∧
      ((arena.push id).1 = arena.size ∧
        (arena.push id).2.scopes = arena.scopes.push ⟨some id, [], false⟩) ∧
      (arena.release id = arena ∨
        id ≠ globalScope ∧ id + 1 = arena.size ∧
          ∃ last, last.captured = false ∧ (arena.release id).scopes.push last = arena.scopes) ∧
      (arena.capture id).Captures id ∧
      (arena.Captures id → later.Captures id ∧ arena.Retains id later) := by
  have rooted := uses.rooted_of_initial
  refine ⟨rooted, ?_, ?_, ⟨rfl, rfl⟩, release_cases arena id, captures_capture inside, ?_⟩
  · intro name
    obtain ⟨path, falls, ends⟩ := Walk.lookUp_ends rooted inside name
    exact ⟨path, falls, fun fuel enough => ends fuel enough []⟩
  · intro name value
    obtain ⟨path, falls, ends⟩ := Walk.overwrite_ends rooted inside name value
    exact ⟨path, falls, fun fuel enough => ends fuel enough []⟩
  · intro captured
    exact captured.uses goesOn

end Arena

namespace Disorderly

/-- The second scope is left before the third, which is inside it; later the place of the third is
given to another scope. -/
def operations : List (Arena.Operation Nat) :=
  [.push 0, .define 1 "kept" 7, .push 1, .release 1, .capture 1, .release 2, .push 0]

/-- Everything is left, some of it twice. -/
def further : List (Arena.Operation Nat) :=
  [.release 1, .assign 2 "kept" 8, .release 2, .release 1, .release 0]

def arena : Arena Nat :=
  operations.foldl Arena.after Arena.initial

def later : Arena Nat :=
  further.foldl Arena.after arena

theorem used : Arena.initial.Uses operations arena :=
  .more (by decide) <| .more (by decide) <| .more (by decide) <| .more (by decide) <|
    .more (by decide) <| .more (by decide) <| .more (by decide) <| .done arena

theorem goes_on : arena.Uses further later :=
  .more (by decide) <| .more (by decide) <| .more (by decide) <| .more (by decide) <|
    .more (by decide) <| .done later

theorem captured : arena.Captures 1 :=
  ⟨⟨some 0, [("kept", 7)], true⟩, rfl, rfl⟩

theorem captured_stays :
    Arena.initial.Uses operations arena ∧ arena.Uses further later ∧ 1 < arena.size ∧
      arena.Rooted ∧ later.Captures 1 ∧ arena.Retains 1 later := by
  have inside : 1 < arena.size := by decide
  obtain ⟨rooted, _reads, _writes, _opens, _leaves, _marks, stays⟩ :=
    Arena.sound_however_used used goes_on inside
  exact ⟨used, goes_on, inside, rooted, stays captured⟩

end Disorderly

end Lox
