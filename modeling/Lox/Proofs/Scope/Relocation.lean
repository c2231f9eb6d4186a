import Mathlib.Logic.Function.Basic
import Lox.Proofs.Scope.Safety
set_option autoImplicit false

/-! Arenas in which nothing is ever taken away. Every scope of an arena from which scopes are taken
away has a place of its own in a larger one; the place of a scope stays the same as long as the
scope is there, and what is done in the one arena can be done in the larger one at those places. -/

namespace Lox

/-! ### Relocated values -/

def Callable.relocate (place : ScopeId → ScopeId) : Callable → Callable
  | closure declaration scope => closure declaration (place scope)
  | clock => clock

def Value.relocate (place : ScopeId → ScopeId) : Value → Value
  | literal value => literal value
  | callable function => callable (function.relocate place)

def Bindings.relocate (place : ScopeId → ScopeId) (bindings : Bindings Value) : Bindings Value :=
  bindings.map fun (name, value) => (name, value.relocate place)

def Scope.relocate (place : ScopeId → ScopeId) (scope : Scope Value) : Scope Value where
  enclosing := scope.enclosing.map place
  bindings := scope.bindings.relocate place
  captured := scope.captured

def Interrupt.relocate (place : ScopeId → ScopeId) : Interrupt → Interrupt
  | returning value => returning (value.relocate place)
  | interrupt => interrupt

namespace Callable

variable (place : ScopeId → ScopeId)

@[simp] theorem arity_relocate (function : Callable) :
    (function.relocate place).arity = function.arity := by
  cases function <;> rfl

@[simp] theorem text_relocate (function : Callable) :
    (function.relocate place).text = function.text := by
  cases function <;> rfl

end Callable

namespace Value

variable (place : ScopeId → ScopeId)

@[simp] theorem isTruthy_relocate (value : Value) :
    (value.relocate place).isTruthy = value.isTruthy := by
  cases value <;> rfl

@[simp] theorem text_relocate (value : Value) : (value.relocate place).text = value.text := by
  cases value with
  | literal => rfl
  | callable function => exact function.text_relocate place

end Value

/-- Where a closure is relocated to depends only on the scopes that are there. -/
theorem Value.relocate_congr {arena : Arena Value} {place other : ScopeId → ScopeId}
    (agree : ∀ id < arena.size, place id = other id) {value : Value}
    (anchored : value.Anchored arena) : value.relocate place = value.relocate other := by
  cases value with
  | literal => rfl
  | callable function =>
      cases function with
      | clock => rfl
      | closure declaration scope =>
          have same : place scope = other scope := agree scope (Arena.Captures.lt_size anchored)
          rw [relocate, relocate, Callable.relocate, Callable.relocate, same]

namespace Bindings

variable (place : ScopeId → ScopeId) (bindings : Bindings Value) (name : String)

theorem get?_relocate :
    (bindings.relocate place).get? name = (bindings.get? name).map (Value.relocate place) := by
  induction bindings with
  | nil => rfl
  | cons head rest ih =>
      obtain ⟨bound, value⟩ := head
      change (if bound = name then some (value.relocate place)
        else (Bindings.relocate place rest).get? name) = _
      by_cases here : bound = name
      · rw [if_pos here, get?, if_pos here]
        rfl
      · rw [if_neg here, get?, if_neg here]
        exact ih

theorem binds_relocate : (bindings.relocate place).binds name = bindings.binds name := by
  rw [binds, binds, get?_relocate, Option.isSome_map]

theorem insert_relocate (value : Value) :
    (bindings.relocate place).insert name (value.relocate place)
      = (bindings.insert name value).relocate place := by
  induction bindings with
  | nil => rfl
  | cons head rest ih =>
      obtain ⟨bound, old⟩ := head
      change (if bound = name then (name, value.relocate place) :: Bindings.relocate place rest
        else (bound, old.relocate place)
          :: (Bindings.relocate place rest).insert name (value.relocate place)) = _
      by_cases here : bound = name
      · rw [if_pos here, insert, if_pos here]
        rfl
      · rw [if_neg here, insert, if_neg here, ih]
        rfl

end Bindings

/-! ### Larger arenas -/

/-- Every scope of an arena has a place in the larger one, in the same order. -/
structure Arena.Embeds (place : ScopeId → ScopeId) (arena larger : Arena Value) : Prop where
  root : place globalScope = globalScope
  order : ∀ id other : ScopeId, id < other → other < arena.size → place id < place other
  scopes : ∀ id scope, arena.scopes[id]? = some scope →
    larger.scopes[place id]? = some (scope.relocate place)

namespace Arena

variable {place : ScopeId → ScopeId} {arena larger : Arena Value}

namespace Embeds

theorem place_lt (embeds : arena.Embeds place larger) {id : ScopeId} (inside : id < arena.size) :
    place id < larger.size := by
  obtain ⟨scope, found⟩ := exists_of_lt_size inside
  exact lt_size_of_getElem? (embeds.scopes id scope found)

theorem place_injective (embeds : arena.Embeds place larger) {id other : ScopeId}
    (inside : id < arena.size) (otherInside : other < arena.size) :
    place id = place other ↔ id = other := by
  constructor
  · intro same
    rcases Nat.lt_trichotomy id other with before | equal | behind
    · exact absurd same (Nat.ne_of_lt (embeds.order id other before otherInside))
    · exact equal
    · exact absurd same.symm (Nat.ne_of_lt (embeds.order other id behind inside))
  · exact congrArg place

theorem ownerWithin_eq (embeds : arena.Embeds place larger) (rooted : arena.Rooted)
    (name : String) {id : ScopeId} {reach largerReach : Nat} (inside : id < arena.size)
    (enough : id < reach) (largerEnough : place id < largerReach) :
    larger.ownerWithin name largerReach (place id)
      = (arena.ownerWithin name reach id).map place := by
  induction reach generalizing id largerReach with
  | zero => exact absurd enough (Nat.not_lt_zero id)
  | succ reach ih =>
      cases largerReach with
      | zero => exact absurd largerEnough (Nat.not_lt_zero _)
      | succ largerReach =>
          obtain ⟨scope, found⟩ := exists_of_lt_size inside
          rw [ownerWithin, ownerWithin, found, embeds.scopes id scope found]
          dsimp only [Scope.relocate]
          rw [Bindings.binds_relocate]
          by_cases bound : scope.bindings.binds name = true
          · rw [if_pos bound, if_pos bound]
            rfl
          · rw [if_neg bound, if_neg bound]
            cases link : scope.enclosing with
            | none => rfl
            | some outer =>
                have before := rooted.outer_lt found link
                have placed := embeds.order outer id before inside
                exact ih (Nat.lt_trans before inside)
                  (Nat.lt_of_lt_of_le before (Nat.le_of_lt_succ enough))
                  (Nat.lt_of_lt_of_le placed (Nat.le_of_lt_succ largerEnough))

theorem owner?_eq (embeds : arena.Embeds place larger) (rooted : arena.Rooted) (name : String)
    {id : ScopeId} (inside : id < arena.size) :
    larger.owner? (place id) name = (arena.owner? id name).map place :=
  embeds.ownerWithin_eq rooted name inside (Nat.lt_succ_self id) (Nat.lt_succ_self (place id))

end Embeds

theorem ownerWithin_inside {name : String} {reach : Nat} {id owner : ScopeId}
    (owned : arena.ownerWithin name reach id = some owner) : owner < arena.size := by
  induction reach generalizing id with
  | zero => cases owned
  | succ reach ih =>
      rw [ownerWithin] at owned
      split at owned
      · cases owned
      · next scope found =>
          split at owned
          · cases owned
            exact lt_size_of_getElem? found
          · split at owned
            · cases owned
            · exact ih owned

namespace Embeds

theorem get?_eq (embeds : arena.Embeds place larger) (rooted : arena.Rooted) (name : String)
    {id : ScopeId} (inside : id < arena.size) :
    larger.get? (place id) name = (arena.get? id name).map (Value.relocate place) := by
  rw [get?, get?, embeds.owner?_eq rooted name inside]
  cases owned : arena.owner? id name with
  | none => rfl
  | some owner =>
      obtain ⟨scope, found⟩ := exists_of_lt_size (ownerWithin_inside owned)
      change (larger.scopes[place owner]?.bind fun scope => scope.bindings.get? name)
        = (arena.scopes[owner]?.bind fun scope => scope.bindings.get? name).map _
      rw [found, embeds.scopes owner scope found]
      exact Bindings.get?_relocate place scope.bindings name

theorem define (embeds : arena.Embeds place larger) {owner : ScopeId}
    (inside : owner < arena.size) (name : String) (value : Value) :
    (arena.define owner name value).Embeds place
      (larger.define (place owner) name (value.relocate place)) where
  root := embeds.root
  order := by
    intro id other before behind
    rw [size_define] at behind
    exact embeds.order id other before behind
  scopes := by
    intro id scope found
    rw [scopes_define] at found ⊢
    by_cases here : owner = id
    · rw [if_pos here] at found
      obtain ⟨old, oldFound, rfl⟩ := Option.map_eq_some_iff.mp found
      rw [if_pos (congrArg place here), embeds.scopes id old oldFound]
      exact congrArg some (by
        dsimp only [Scope.relocate]
        rw [Bindings.insert_relocate])
    · rw [if_neg here] at found
      have elsewhere : ¬ place owner = place id :=
        fun same => here ((embeds.place_injective inside (lt_size_of_getElem? found)).mp same)
      rw [if_neg elsewhere]
      exact embeds.scopes id scope found

theorem assign (embeds : arena.Embeds place larger) (rooted : arena.Rooted) {id : ScopeId}
    (inside : id < arena.size) (name : String) (value : Value) :
    (larger.assign (place id) name (value.relocate place)).1 = (arena.assign id name value).1 ∧
      (arena.assign id name value).2.Embeds place
        (larger.assign (place id) name (value.relocate place)).2 := by
  rw [Arena.assign, Arena.assign, embeds.owner?_eq rooted name inside]
  cases owned : arena.owner? id name with
  | none => exact ⟨rfl, embeds⟩
  | some owner => exact ⟨rfl, embeds.define (ownerWithin_inside owned) name value⟩

theorem capture (embeds : arena.Embeds place larger) {captured : ScopeId}
    (inside : captured < arena.size) :
    (arena.capture captured).Embeds place (larger.capture (place captured)) where
  root := embeds.root
  order := by
    intro id other before behind
    rw [size_capture] at behind
    exact embeds.order id other before behind
  scopes := by
    intro id scope found
    rw [scopes_capture] at found ⊢
    by_cases here : captured = id
    · rw [if_pos here] at found
      obtain ⟨old, oldFound, rfl⟩ := Option.map_eq_some_iff.mp found
      rw [if_pos (congrArg place here), embeds.scopes id old oldFound]
      rfl
    · rw [if_neg here] at found
      have elsewhere : ¬ place captured = place id :=
        fun same => here ((embeds.place_injective inside (lt_size_of_getElem? found)).mp same)
      rw [if_neg elsewhere]
      exact embeds.scopes id scope found

theorem release (embeds : arena.Embeds place larger) (released : ScopeId) :
    (arena.release released).Embeds place larger where
  root := embeds.root
  order := by
    intro id other before behind
    rw [size_release] at behind
    apply embeds.order id other before
    split at behind
    · exact Nat.lt_of_lt_of_le behind (Nat.sub_le _ _)
    · exact behind
  scopes := by
    intro id scope found
    rw [scopes_release] at found
    split at found
    · cases found
    · exact embeds.scopes id scope found

end Embeds

end Arena

/-- The place of a scope that has just been opened is the last one of the larger arena. -/
def Arena.placeOpened (place : ScopeId → ScopeId) (arena larger : Arena Value) :
    ScopeId → ScopeId :=
  Function.update place arena.size larger.size

theorem Arena.placeOpened_of_lt (place : ScopeId → ScopeId) {arena : Arena Value}
    (larger : Arena Value) {id : ScopeId} (inside : id < arena.size) :
    placeOpened place arena larger id = place id :=
  Function.update_of_ne (Nat.ne_of_lt inside) _ _

theorem Arena.placeOpened_size (place : ScopeId → ScopeId) (arena larger : Arena Value) :
    placeOpened place arena larger arena.size = larger.size :=
  Function.update_self _ _ _

namespace Machine.Grounded

variable {machine : Machine}

/-- What a scope leads to and binds is there, so where it is relocated depends on nothing else. -/
theorem relocate_congr (grounded : machine.Grounded) {place other : ScopeId → ScopeId}
    (agree : ∀ id < machine.arena.size, place id = other id) {id : ScopeId}
    {scope : Scope Value} (found : machine.arena.scopes[id]? = some scope) :
    scope.relocate place = scope.relocate other := by
  have links : scope.enclosing.map place = scope.enclosing.map other := by
    cases link : scope.enclosing with
    | none => rfl
    | some outer =>
        have below : outer ≤ id := grounded.rooted.outward_le (.step found link (.refl outer))
        have inside := Nat.lt_of_le_of_lt below (Arena.lt_size_of_getElem? found)
        exact congrArg some (agree outer inside)
  have bound : scope.bindings.relocate place = scope.bindings.relocate other := by
    apply List.map_congr_left
    intro holds member
    rcases holds with ⟨name, value⟩
    have anchored := grounded.anchored value ⟨id, scope, name, found, member⟩
    exact congrArg (Prod.mk name) (Value.relocate_congr agree anchored)
  unfold Scope.relocate
  rw [links, bound]

theorem embeds_push (grounded : machine.Grounded) {place : ScopeId → ScopeId}
    {larger : Arena Value} (embeds : machine.arena.Embeds place larger) {enclosing : ScopeId}
    (inside : enclosing < machine.arena.size) :
    (machine.arena.push enclosing).2.Embeds (Arena.placeOpened place machine.arena larger)
      (larger.push (place enclosing)).2 where
  root := (Arena.placeOpened_of_lt place larger grounded.rooted.size_pos).trans embeds.root
  order := by
    intro id other before behind
    rw [Arena.size_push] at behind
    have idInside : id < machine.arena.size :=
      Nat.lt_of_lt_of_le before (Nat.le_of_lt_succ behind)
    rw [Arena.placeOpened_of_lt place larger idInside]
    by_cases new : other = machine.arena.size
    · rw [new, Arena.placeOpened_size]
      exact embeds.place_lt idInside
    · have otherInside := Nat.lt_of_le_of_ne (Nat.le_of_lt_succ behind) new
      rw [Arena.placeOpened_of_lt place larger otherInside]
      exact embeds.order id other before otherInside
  scopes := by
    intro id scope found
    have agree : ∀ id < machine.arena.size,
        place id = Arena.placeOpened place machine.arena larger id :=
      fun _id inside => (Arena.placeOpened_of_lt place larger inside).symm
    rw [Arena.scopes_push] at found
    by_cases new : id = machine.arena.size
    · rw [if_pos new] at found
      cases found
      rw [new, Arena.placeOpened_size, Arena.scopes_push, if_pos rfl, agree enclosing inside]
      rfl
    · rw [if_neg new] at found
      have idInside := Arena.lt_size_of_getElem? found
      have placed := embeds.scopes id scope found
      rw [Arena.placeOpened_of_lt place larger idInside, Arena.scopes_push,
        if_neg (Nat.ne_of_lt (embeds.place_lt idInside)), placed,
        grounded.relocate_congr agree found]

end Machine.Grounded

end Lox
