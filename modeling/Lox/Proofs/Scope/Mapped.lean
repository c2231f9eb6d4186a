import Lox.Proofs.Scope.Rooted
set_option autoImplicit false

/-! Arenas of which every value is replaced by another one. Scopes stay where they are, with the
names that they bind; what is done to the arena with a value can be done to the other one with the
value that replaces it. -/

namespace Lox

variable {α β : Type} (replace : α → β)

def Bindings.mapValues (bindings : Bindings α) : Bindings β :=
  List.map (fun (name, value) => (name, replace value)) bindings

def Scope.mapValues (scope : Scope α) : Scope β where
  enclosing := scope.enclosing
  bindings := scope.bindings.mapValues replace
  captured := scope.captured

def Arena.mapValues (arena : Arena α) : Arena β where
  scopes := arena.scopes.map (Scope.mapValues replace)

namespace Bindings

theorem get?_mapValues (bindings : Bindings α) (name : String) :
    (bindings.mapValues replace).get? name = (bindings.get? name).map replace := by
  induction bindings with
  | nil => rfl
  | cons head rest ih =>
      obtain ⟨bound, meaning⟩ := head
      change (if bound = name then some (replace meaning)
        else (Bindings.mapValues replace rest).get? name) = _
      rw [ih, get?]
      split <;> rfl

theorem binds_mapValues (bindings : Bindings α) (name : String) :
    (bindings.mapValues replace).binds name = bindings.binds name := by
  simp [binds, get?_mapValues]

theorem mapValues_insert (bindings : Bindings α) (name : String) (value : α) :
    (bindings.insert name value).mapValues replace
      = (bindings.mapValues replace).insert name (replace value) := by
  induction bindings with
  | nil => rfl
  | cons head rest ih =>
      obtain ⟨bound, meaning⟩ := head
      change mapValues replace (if bound = name then _ else _) =
        if bound = name then _ else (bound, replace meaning) :: insert name (replace value) _
      split
      · rfl
      · exact congrArg ((bound, replace meaning) :: ·) ih

end Bindings

namespace Arena

theorem ext_scopes {arena other : Arena α}
    (same : ∀ id : ScopeId, arena.scopes[id]? = other.scopes[id]?) : arena = other := by
  obtain ⟨scopes⟩ := arena
  obtain ⟨otherScopes⟩ := other
  exact congrArg Arena.mk (Array.ext_getElem? same)

variable (arena : Arena α)

theorem scopes_mapValues (id : ScopeId) :
    (arena.mapValues replace).scopes[id]? = arena.scopes[id]?.map (Scope.mapValues replace) :=
  Array.getElem?_map

@[simp] theorem size_mapValues : (arena.mapValues replace).size = arena.size :=
  Array.size_map

theorem mapValues_initial : (initial : Arena α).mapValues replace = initial := by
  simp [initial, mapValues, Scope.mapValues, Bindings.mapValues]

theorem mapValues_push (enclosing : ScopeId) :
    (arena.push enclosing).2.mapValues replace = ((arena.mapValues replace).push enclosing).2 := by
  apply ext_scopes
  intro id
  rw [scopes_mapValues, scopes_push, scopes_push, scopes_mapValues, size_mapValues]
  split <;> rfl

theorem mapValues_capture (captured : ScopeId) :
    (arena.capture captured).mapValues replace = (arena.mapValues replace).capture captured := by
  apply ext_scopes
  intro id
  rw [scopes_mapValues, scopes_capture, scopes_capture, scopes_mapValues]
  split
  · rw [Option.map_map, Option.map_map]
    rfl
  · rfl

theorem mapValues_define (owner : ScopeId) (name : String) (value : α) :
    (arena.define owner name value).mapValues replace
      = (arena.mapValues replace).define owner name (replace value) := by
  apply ext_scopes
  intro id
  rw [scopes_mapValues, scopes_define, scopes_define, scopes_mapValues]
  split
  · rw [Option.map_map, Option.map_map]
    congr 1
    funext scope
    exact congrArg (fun bindings => Scope.mk scope.enclosing bindings scope.captured)
      (scope.bindings.mapValues_insert replace name value)
  · rfl

theorem isReleasable_mapValues (id : ScopeId) :
    (arena.mapValues replace).isReleasable id = arena.isReleasable id := by
  unfold isReleasable
  rw [scopes_mapValues, size_mapValues, Option.any_map]
  rfl

theorem mapValues_release (id : ScopeId) :
    (arena.release id).mapValues replace = (arena.mapValues replace).release id := by
  unfold release
  rw [isReleasable_mapValues]
  split
  · exact congrArg Arena.mk Array.map_pop
  · rfl

theorem ownerWithin_mapValues (name : String) (reach : Nat) (id : ScopeId) :
    (arena.mapValues replace).ownerWithin name reach id = arena.ownerWithin name reach id := by
  induction reach generalizing id with
  | zero => rfl
  | succ reach ih =>
      unfold ownerWithin
      rw [scopes_mapValues]
      cases arena.scopes[id]? with
      | none => rfl
      | some scope => simp only [Option.map_some, Scope.mapValues, Bindings.binds_mapValues, ih]

theorem owner?_mapValues (id : ScopeId) (name : String) :
    (arena.mapValues replace).owner? id name = arena.owner? id name :=
  arena.ownerWithin_mapValues replace name (id + 1) id

theorem get?_mapValues (id : ScopeId) (name : String) :
    (arena.mapValues replace).get? id name = (arena.get? id name).map replace := by
  unfold get?
  rw [owner?_mapValues]
  cases arena.owner? id name with
  | none => rfl
  | some owner =>
      change ((arena.mapValues replace).scopes[owner]?.bind _) = (arena.scopes[owner]?.bind _).map _
      rw [scopes_mapValues]
      cases arena.scopes[owner]? with
      | none => rfl
      | some scope => exact scope.bindings.get?_mapValues replace name

theorem assign_mapValues (id : ScopeId) (name : String) (value : α) :
    (arena.mapValues replace).assign id name (replace value)
      = ((arena.assign id name value).1, (arena.assign id name value).2.mapValues replace) := by
  unfold assign
  rw [owner?_mapValues]
  cases arena.owner? id name with
  | none => rfl
  | some owner => rw [mapValues_define]

end Arena

end Lox
