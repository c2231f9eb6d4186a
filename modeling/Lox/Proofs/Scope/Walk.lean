import Lox.Proofs.Scope.Rooted
import Lox.Run.Error
set_option autoImplicit false

/-! Walks outwards through an arena, scope by scope: one that looks a name up, and one that gives it
a value. Nothing holds by construction here. A walk may read where there is no scope, and is bounded
by nothing; so it runs on fuel, and notes which scopes it reads. In a rooted arena both walks end,
with the answers of `Arena.get?` and `Arena.assign`, and on the way the places only fall. -/

namespace Lox

structure Walker (α : Type) where
  arena : Arena α
  /-- The scopes that were read, in order. -/
  visited : List ScopeId

/-- Why a walk gives no result. -/
inductive WalkStop where
  /-- A scope was read that is not there. -/
  | outside
  | exhausted
  | failure (failure : RuntimeFailure)

abbrev Walk (α : Type) := EStateM WalkStop (Walker α)

namespace Walk

variable {α : Type}

def visit (id : ScopeId) : Walk α (Scope α) := do
  modify fun walker => { walker with visited := walker.visited ++ [id] }
  match (← get).arena.scopes[id]? with
  | some scope => return scope
  | none => throw .outside

def lookUp (name : Token) : (fuel : Nat) → Option ScopeId → Walk α α
  | _, none => throw (.failure (.undefined name))
  | 0, some _ => throw .exhausted
  | fuel + 1, some id => do
    let scope ← visit id
    match scope.bindings.get? name.lexeme with
    | some value => return value
    | none => lookUp name fuel scope.enclosing

def overwrite (name : Token) (value : α) : (fuel : Nat) → Option ScopeId → Walk α Unit
  | _, none => throw (.failure (.undefined name))
  | 0, some _ => throw .exhausted
  | fuel + 1, some id => do
    let scope ← visit id
    if scope.bindings.binds name.lexeme then
      modify fun walker => { walker with arena := walker.arena.define id name.lexeme value }
    else overwrite name value fuel scope.enclosing

/-- The end of a walk that looked a name up. -/
def found (name : Token) (walker : Walker α) : Option α → EStateM.Result WalkStop (Walker α) α
  | some value => .ok value walker
  | none => .error (.failure (.undefined name)) walker

/-- The end of a walk that gave a name a value, or found none to give it to. -/
def assigned (name : Token) (visited : List ScopeId) :
    Bool × Arena α → EStateM.Result WalkStop (Walker α) Unit
  | (true, arena) => .ok () ⟨arena, visited⟩
  | (false, arena) => .error (.failure (.undefined name)) ⟨arena, visited⟩

end Walk

namespace Arena

variable {α : Type} {arena : Arena α} {id : ScopeId}

/-- Places in the arena that only fall, from a scope on. -/
structure Falls (arena : Arena α) (id : ScopeId) (path : List ScopeId) : Prop where
  starts : path.head? = some id
  falls : path.Pairwise (· > ·)
  inside : ∀ scope ∈ path, scope < arena.size

namespace Falls

theorem single (inside : id < arena.size) : arena.Falls id [id] where
  starts := rfl
  falls := List.pairwise_singleton _ id
  inside := by
    intro scope among
    rw [List.mem_singleton.mp among]
    exact inside

theorem le {path : List ScopeId} (falls : arena.Falls id path) : ∀ scope ∈ path, scope ≤ id := by
  intro scope among
  cases path with
  | nil => cases among
  | cons first rest =>
      cases falls.starts
      rcases List.mem_cons.mp among with rfl | behind
      · exact Nat.le_refl _
      · exact Nat.le_of_lt (List.rel_of_pairwise_cons falls.falls behind)

theorem outward {outer : ScopeId} {path : List ScopeId} (falls : arena.Falls outer path)
    (before : outer < id) (inside : id < arena.size) : arena.Falls id (id :: path) where
  starts := rfl
  falls := List.pairwise_cons.mpr
    ⟨fun scope among => Nat.lt_of_le_of_lt (falls.le scope among) before, falls.falls⟩
  inside := List.forall_mem_cons.mpr ⟨inside, falls.inside⟩

end Falls

/-! ### One scope after the other -/

namespace Rooted

/-- What holds of a scope if it holds of the enclosing one holds of every scope. -/
@[elab_as_elim]
theorem outward_induction (rooted : arena.Rooted) {motive : ScopeId → Prop}
    (step : ∀ id scope, arena.scopes[id]? = some scope →
      (∀ outer, scope.enclosing = some outer → outer < id ∧ motive outer) → motive id)
    (inside : id < arena.size) : motive id := by
  induction id using Nat.strongRecOn with
  | ind id ih =>
      obtain ⟨scope, here⟩ := exists_of_lt_size inside
      refine step id scope here fun outer link => ?_
      have before := rooted.outer_lt here link
      exact ⟨before, ih outer before (Nat.lt_trans before inside)⟩

/-- How far a name is looked for does not matter if it is as far as the global scope. -/
theorem ownerWithin_congr (rooted : arena.Rooted) (name : String) {reach other : Nat}
    (enough : id < reach) (alsoEnough : id < other) :
    arena.ownerWithin name reach id = arena.ownerWithin name other id := by
  induction reach generalizing id other with
  | zero => exact absurd enough (Nat.not_lt_zero id)
  | succ reach ih =>
      cases other with
      | zero => exact absurd alsoEnough (Nat.not_lt_zero id)
      | succ other =>
          rw [ownerWithin, ownerWithin]
          cases found : arena.scopes[id]? with
          | none => rfl
          | some scope =>
              dsimp only
              cases link : scope.enclosing with
              | none => rfl
              | some outer =>
                  have before := rooted.outer_lt found link
                  have same := ih (Nat.lt_of_lt_of_le before (Nat.le_of_lt_succ enough))
                    (Nat.lt_of_lt_of_le before (Nat.le_of_lt_succ alsoEnough))
                  dsimp only
                  rw [same]

variable {scope : Scope α}

/-- A name that a scope does not bind belongs where it belongs from the enclosing scope. -/
theorem owner?_eq (rooted : arena.Rooted) (here : arena.scopes[id]? = some scope)
    (name : String) :
    arena.owner? id name
      = if scope.bindings.binds name then some id
        else scope.enclosing.bind (arena.owner? · name) := by
  rw [owner?, ownerWithin, here]
  dsimp only
  cases link : scope.enclosing with
  | none => rfl
  | some outer =>
      have before := rooted.outer_lt here link
      dsimp only
      rw [rooted.ownerWithin_congr name before (Nat.lt_succ_self outer)]
      rfl

theorem get?_eq (rooted : arena.Rooted) (here : arena.scopes[id]? = some scope)
    (name : String) :
    arena.get? id name
      = (scope.bindings.get? name).or (scope.enclosing.bind (arena.get? · name)) := by
  unfold get?
  rw [rooted.owner?_eq here]
  cases bound : scope.bindings.get? name with
  | some value =>
      have binds : scope.bindings.binds name = true := by
        rw [Bindings.binds, bound]
        rfl
      rw [if_pos binds]
      change (arena.scopes[id]?.bind fun scope => scope.bindings.get? name) = _
      rw [here]
      exact bound
  | none =>
      have free : ¬ scope.bindings.binds name = true := by
        rw [Bindings.binds, bound]
        exact Bool.false_ne_true
      rw [if_neg free]
      cases scope.enclosing <;> rfl

end Rooted

end Arena

/-! ### Walks -/

namespace Walk

variable {α : Type} {arena : Arena α} {id : ScopeId} {scope : Scope α}

theorem visit_here (here : arena.scopes[id]? = some scope) (visited : List ScopeId) :
    visit id ⟨arena, visited⟩ = .ok scope ⟨arena, visited ++ [id]⟩ := by
  change (match arena.scopes[id]? with
    | some scope => pure scope
    | none => throw WalkStop.outside : Walk α (Scope α)) ⟨arena, visited ++ [id]⟩ = _
  rw [here]
  rfl

theorem lookUp_none (name : Token) (fuel : Nat) :
    (lookUp name fuel none : Walk α α) = throw (.failure (.undefined name)) := by
  cases fuel <;> rfl

theorem overwrite_none (name : Token) (value : α) (fuel : Nat) :
    overwrite name value fuel none = throw (.failure (.undefined name)) := by
  cases fuel <;> rfl

variable {fuel : Nat}

theorem lookUp_here (here : arena.scopes[id]? = some scope) (name : Token) (enough : id < fuel)
    (visited : List ScopeId) :
    lookUp name fuel (some id) ⟨arena, visited⟩
      = (match scope.bindings.get? name.lexeme with
          | some value => pure value
          | none => lookUp name (fuel - 1) scope.enclosing : Walk α α)
        ⟨arena, visited ++ [id]⟩ := by
  cases fuel with
  | zero => exact absurd enough (Nat.not_lt_zero id)
  | succ fuel =>
      rw [lookUp]
      simp only [bind, EStateM.bind, visit_here here, Nat.add_sub_cancel]

theorem overwrite_here (here : arena.scopes[id]? = some scope) (name : Token) (value : α)
    (enough : id < fuel) (visited : List ScopeId) :
    overwrite name value fuel (some id) ⟨arena, visited⟩
      = if scope.bindings.binds name.lexeme then
          .ok () ⟨arena.define id name.lexeme value, visited ++ [id]⟩
        else overwrite name value (fuel - 1) scope.enclosing ⟨arena, visited ++ [id]⟩ := by
  cases fuel with
  | zero => exact absurd enough (Nat.not_lt_zero id)
  | succ fuel =>
      rw [overwrite]
      simp only [bind, EStateM.bind, visit_here here, Nat.add_sub_cancel]
      split <;> rfl

/-- Looking a name up ends, whatever fuel there is beyond the scope's own place. -/
theorem lookUp_ends (rooted : arena.Rooted) (inside : id < arena.size) (name : Token) :
    ∃ path, arena.Falls id path ∧ ∀ fuel, id < fuel → ∀ visited,
      lookUp name fuel (some id) ⟨arena, visited⟩
        = found name ⟨arena, visited ++ path⟩ (arena.get? id name.lexeme) := by
  refine rooted.outward_induction ?_ inside
  intro id scope here outwards
  have single : arena.Falls id [id] := .single (Arena.lt_size_of_getElem? here)
  cases bound : scope.bindings.get? name.lexeme with
  | some value =>
      refine ⟨[id], single, fun fuel enough visited => ?_⟩
      rw [lookUp_here here name enough, rooted.get?_eq here, bound]
      rfl
  | none =>
      cases link : scope.enclosing with
      | none =>
          refine ⟨[id], single, fun fuel enough visited => ?_⟩
          rw [lookUp_here here name enough, rooted.get?_eq here, bound, link, lookUp_none]
          rfl
      | some outer =>
          obtain ⟨before, path, falls, ends⟩ := outwards outer link
          refine ⟨id :: path, falls.outward before (single.inside id List.mem_cons_self), ?_⟩
          intro fuel enough visited
          have still : outer < fuel - 1 := Nat.lt_of_lt_of_le before (Nat.le_sub_one_of_lt enough)
          rw [lookUp_here here name enough, rooted.get?_eq here, bound, link]
          refine (ends _ still (visited ++ [id])).trans ?_
          rw [List.append_assoc]
          rfl

/-- Giving a name a value ends as well, in the scope where it would be found. -/
theorem overwrite_ends (rooted : arena.Rooted) (inside : id < arena.size) (name : Token)
    (value : α) :
    ∃ path, arena.Falls id path ∧ ∀ fuel, id < fuel → ∀ visited,
      overwrite name value fuel (some id) ⟨arena, visited⟩
        = assigned name (visited ++ path) (arena.assign id name.lexeme value) := by
  refine rooted.outward_induction ?_ inside
  intro id scope here outwards
  have single : arena.Falls id [id] := .single (Arena.lt_size_of_getElem? here)
  by_cases bound : scope.bindings.binds name.lexeme = true
  · refine ⟨[id], single, fun fuel enough visited => ?_⟩
    rw [overwrite_here here name value enough, Arena.assign, rooted.owner?_eq here, if_pos bound,
      if_pos bound]
    rfl
  · cases link : scope.enclosing with
    | none =>
        refine ⟨[id], single, fun fuel enough visited => ?_⟩
        rw [overwrite_here here name value enough, Arena.assign, rooted.owner?_eq here,
          if_neg bound, if_neg bound, link, overwrite_none]
        rfl
    | some outer =>
        obtain ⟨before, path, falls, ends⟩ := outwards outer link
        refine ⟨id :: path, falls.outward before (single.inside id List.mem_cons_self), ?_⟩
        intro fuel enough visited
        have still : outer < fuel - 1 := Nat.lt_of_lt_of_le before (Nat.le_sub_one_of_lt enough)
        rw [overwrite_here here name value enough, Arena.assign, rooted.owner?_eq here,
          if_neg bound, if_neg bound, link]
        refine (ends _ still (visited ++ [id])).trans ?_
        rw [List.append_assoc]
        rfl

end Walk

end Lox
