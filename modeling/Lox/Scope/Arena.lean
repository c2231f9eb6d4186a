set_option autoImplicit false

/-! Scopes and their arena. A scope is named by its place in the arena, hangs off an enclosing scope
that was opened before it, and is taken away only while it is the last one and no closure has
captured it. A name belongs to the nearest scope that binds it, going outwards. -/

namespace Lox

/-- Names and what they stand for. Each name occurs once. -/
abbrev Bindings (α : Type) := List (String × α)

namespace Bindings

variable {α : Type}

def get? : Bindings α → String → Option α
  | [], _ => none
  | (bound, meaning) :: rest, name => if bound = name then some meaning else get? rest name

def binds (bindings : Bindings α) (name : String) : Bool :=
  (bindings.get? name).isSome

/-- Gives a name a new meaning, in its old place if it has one. -/
def insert (name : String) (value : α) : Bindings α → Bindings α
  | [] => [(name, value)]
  | (bound, meaning) :: rest =>
    if bound = name then (name, value) :: rest else (bound, meaning) :: insert name value rest

/-- The inserted name has the new meaning, and every other name its old one. -/
theorem get?_insert (bindings : Bindings α) (name other : String) (value : α) :
    (bindings.insert name value).get? other
      = if name = other then some value else bindings.get? other := by
  induction bindings with
  | nil => rfl
  | cons head rest ih =>
    obtain ⟨bound, meaning⟩ := head
    by_cases here : bound = name
    · subst here
      by_cases same : bound = other <;> simp [insert, get?, same]
    · by_cases same : bound = other
      · subst same
        simp [insert, get?, here, Ne.symm here]
      · simp [insert, get?, here, same, ih]

end Bindings

abbrev ScopeId := Nat

structure Scope (α : Type) where
  enclosing : Option ScopeId
  bindings : Bindings α
  captured : Bool

structure Arena (α : Type) where
  scopes : Array (Scope α)

namespace Arena

variable {α : Type}

/-- The scope that is always there. -/
def globalScope : ScopeId := 0

/-- An arena with an empty global scope. -/
def initial : Arena α where
  scopes := #[⟨none, [], false⟩]

def size (arena : Arena α) : Nat :=
  arena.scopes.size

/-- Opens a scope inside another one. -/
def push (arena : Arena α) (enclosing : ScopeId) : ScopeId × Arena α :=
  (arena.size, { arena with scopes := arena.scopes.push ⟨some enclosing, [], false⟩ })

/-- Keeps a scope for ever. -/
def capture (arena : Arena α) (id : ScopeId) : Arena α :=
  { arena with scopes := arena.scopes.modify id ({ · with captured := true }) }

/-- Whether leaving a scope takes it away. -/
def isReleasable (arena : Arena α) (id : ScopeId) : Bool :=
  id != globalScope && id + 1 == arena.size && arena.scopes[id]?.any (!·.captured)

/-- Leaves a scope. -/
def release (arena : Arena α) (id : ScopeId) : Arena α :=
  if arena.isReleasable id then { arena with scopes := arena.scopes.pop } else arena

/-- Binds a name in a scope. -/
def define (arena : Arena α) (id : ScopeId) (name : String) (value : α) : Arena α :=
  let bind (scope : Scope α) : Scope α :=
    { scope with bindings := scope.bindings.insert name value }
  { arena with scopes := arena.scopes.modify id bind }

/-- The nearest scope, from the given one outwards, that binds a name; looks at no more scopes than
it is told to. -/
def ownerWithin (arena : Arena α) (name : String) : (reach : Nat) → ScopeId → Option ScopeId
  | 0, _ => none
  | reach + 1, id =>
    match arena.scopes[id]? with
    | none => none
    | some scope =>
      if scope.bindings.binds name then some id
      else
        match scope.enclosing with
        | none => none
        | some outer => ownerWithin arena name reach outer

/-- The scope to which a name belongs. Going outwards the places in the arena only fall. -/
def owner? (arena : Arena α) (id : ScopeId) (name : String) : Option ScopeId :=
  arena.ownerWithin name (id + 1) id

/-- What a name stands for. -/
def get? (arena : Arena α) (id : ScopeId) (name : String) : Option α := do
  let owner ← arena.owner? id name
  let scope ← arena.scopes[owner]?
  scope.bindings.get? name

/-- Gives a name a new value in the scope to which it belongs, and tells whether there is one. -/
def assign (arena : Arena α) (id : ScopeId) (name : String) (value : α) : Bool × Arena α :=
  match arena.owner? id name with
  | some owner => (true, arena.define owner name value)
  | none => (false, arena)

@[simp] theorem size_initial : (initial : Arena α).size = 1 := rfl

@[simp] theorem size_push (arena : Arena α) (enclosing : ScopeId) :
    (arena.push enclosing).2.size = arena.size + 1 := by
  simp [push, size]

@[simp] theorem size_capture (arena : Arena α) (id : ScopeId) :
    (arena.capture id).size = arena.size := by
  simp [capture, size]

@[simp] theorem size_define (arena : Arena α) (id : ScopeId) (name : String) (value : α) :
    (arena.define id name value).size = arena.size := by
  simp [define, size]

@[simp] theorem size_assign (arena : Arena α) (id : ScopeId) (name : String) (value : α) :
    (arena.assign id name value).2.size = arena.size := by
  unfold assign
  split
  · exact size_define _ _ _ _
  · rfl

/-- Leaving a scope takes away one scope or none. -/
theorem size_release (arena : Arena α) (id : ScopeId) :
    (arena.release id).size = if arena.isReleasable id then arena.size - 1 else arena.size := by
  unfold release
  split <;> simp [size]

end Arena

end Lox
