import Lox.Scope.Arena
set_option autoImplicit false

/-! Arenas in which every enclosing link leads inwards to an earlier scope and at last to the global
one, and what each operation does to the links, the captures and the values of an arena. -/

namespace Lox

namespace Bindings

variable {α : Type}

theorem mem_of_get? {bindings : Bindings α} {name : String} {value : α}
    (found : bindings.get? name = some value) : ∃ bound, (bound, value) ∈ bindings := by
  induction bindings with
  | nil => cases found
  | cons head rest ih =>
      obtain ⟨bound, meaning⟩ := head
      by_cases here : bound = name
      · rw [get?, if_pos here] at found
        cases found
        exact ⟨bound, List.mem_cons_self⟩
      · rw [get?, if_neg here] at found
        obtain ⟨other, member⟩ := ih found
        exact ⟨other, List.mem_cons_of_mem _ member⟩

theorem mem_insert {bindings : Bindings α} {name bound : String} {value meaning : α}
    (member : (bound, meaning) ∈ bindings.insert name value) :
    meaning = value ∨ (bound, meaning) ∈ bindings := by
  induction bindings with
  | nil =>
      cases List.mem_singleton.mp member
      exact Or.inl rfl
  | cons head rest ih =>
      obtain ⟨first, old⟩ := head
      by_cases here : first = name
      · rw [insert, if_pos here] at member
        rcases List.mem_cons.mp member with same | later
        · cases same
          exact Or.inl rfl
        · exact Or.inr (List.mem_cons_of_mem _ later)
      · rw [insert, if_neg here] at member
        rcases List.mem_cons.mp member with same | later
        · rw [same]
          exact Or.inr List.mem_cons_self
        · rcases ih later with new | kept
          · exact Or.inl new
          · exact Or.inr (List.mem_cons_of_mem _ kept)

/-- No name is lost. -/
theorem binds_insert (bindings : Bindings α) (name : String) (value : α) {other : String}
    (bound : bindings.binds other = true) : (bindings.insert name value).binds other = true := by
  unfold binds
  rw [get?_insert]
  split
  · rfl
  · exact bound

end Bindings

namespace Arena

variable {α : Type}

/-- The global scope is there and encloses all others, each of which was opened behind the scope
that encloses it. -/
structure Rooted (arena : Arena α) : Prop where
  root : ∃ scope, arena.scopes[globalScope]? = some scope ∧ scope.enclosing = none
  inward : ∀ id scope, arena.scopes[id]? = some scope → id ≠ globalScope →
    ∃ outer, scope.enclosing = some outer ∧ outer < id

def Captures (arena : Arena α) (id : ScopeId) : Prop :=
  ∃ scope, arena.scopes[id]? = some scope ∧ scope.captured = true

/-- Some scope binds some name to the value. -/
def Holds (arena : Arena α) (value : α) : Prop :=
  ∃ (id : ScopeId) (scope : Scope α) (name : String),
    arena.scopes[id]? = some scope ∧ (name, value) ∈ scope.bindings

/-- The scopes that are met from a scope outwards. -/
inductive Outward (arena : Arena α) : ScopeId → ScopeId → Prop
  | refl (id : ScopeId) : Outward arena id id
  | step {id outer far : ScopeId} {scope : Scope α} (here : arena.scopes[id]? = some scope)
      (link : scope.enclosing = some outer) (rest : Outward arena outer far) :
      Outward arena id far

theorem lt_size_of_getElem? {arena : Arena α} {id : ScopeId} {scope : Scope α}
    (found : arena.scopes[id]? = some scope) : id < arena.size := by
  obtain ⟨inside, _same⟩ := Array.getElem?_eq_some_iff.mp found
  exact inside

theorem exists_of_lt_size {arena : Arena α} {id : ScopeId} (inside : id < arena.size) :
    ∃ scope, arena.scopes[id]? = some scope :=
  ⟨arena.scopes[id], Array.getElem?_eq_getElem inside⟩

theorem Captures.lt_size {arena : Arena α} {id : ScopeId} (captured : arena.Captures id) :
    id < arena.size := by
  obtain ⟨scope, found, _marked⟩ := captured
  exact lt_size_of_getElem? found

/-! ### What the operations do to a scope -/

theorem scopes_push (arena : Arena α) (enclosing id : ScopeId) :
    (arena.push enclosing).2.scopes[id]?
      = if id = arena.size then some ⟨some enclosing, [], false⟩ else arena.scopes[id]? :=
  Array.getElem?_push

theorem scopes_capture (arena : Arena α) (captured id : ScopeId) :
    (arena.capture captured).scopes[id]?
      = if captured = id then arena.scopes[id]?.map ({ · with captured := true })
        else arena.scopes[id]? :=
  Array.getElem?_modify

theorem scopes_define (arena : Arena α) (owner id : ScopeId) (name : String) (value : α) :
    (arena.define owner name value).scopes[id]?
      = if owner = id then
          arena.scopes[id]?.map fun scope =>
            { scope with bindings := scope.bindings.insert name value }
        else arena.scopes[id]? :=
  Array.getElem?_modify

theorem isReleasable_iff (arena : Arena α) (id : ScopeId) :
    arena.isReleasable id = true ↔
      id ≠ globalScope ∧ id + 1 = arena.size ∧
        ∃ scope, arena.scopes[id]? = some scope ∧ scope.captured = false := by
  unfold isReleasable
  rw [Bool.and_eq_true, Bool.and_eq_true, bne_iff_ne, beq_iff_eq, Option.any_eq_true, and_assoc]
  constructor
  · intro holds
    rcases holds with ⟨inner, last, scope, found, free⟩
    exact ⟨inner, last, scope, found, by simpa using free⟩
  · intro whole
    rcases whole with ⟨inner, last, scope, found, free⟩
    exact ⟨inner, last, scope, found, by simpa using free⟩

theorem scopes_release (arena : Arena α) (released id : ScopeId) :
    (arena.release released).scopes[id]?
      = if arena.isReleasable released = true ∧ id = released then none
        else arena.scopes[id]? := by
  unfold release
  by_cases taken : arena.isReleasable released = true
  · rw [if_pos taken, Array.getElem?_pop]
    have last : Nat.succ released = arena.scopes.size :=
      ((isReleasable_iff arena released).mp taken).2.1
    by_cases same : id = released
    · have gone : ¬ id < arena.scopes.size - 1 := by
        rw [← last, same]
        exact Nat.lt_irrefl released
      have both : arena.isReleasable released = true ∧ id = released := ⟨taken, same⟩
      rw [if_neg gone, if_pos both]
    · have other : ¬ (arena.isReleasable released = true ∧ id = released) :=
        fun both => same both.2
      rw [if_neg other]
      by_cases before : id < arena.scopes.size - 1
      · rw [if_pos before]
      · rw [if_neg before, Array.getElem?_eq_none]
        rw [← last] at before ⊢
        exact Nat.lt_of_le_of_ne (Nat.le_of_not_lt before) (Ne.symm same)
  · have other : ¬ (arena.isReleasable released = true ∧ id = released) :=
      fun both => taken both.1
    rw [if_neg taken, if_neg other]

/-! ### Rooted arenas -/

theorem rooted_initial : (initial : Arena α).Rooted where
  root := ⟨⟨none, [], false⟩, rfl, rfl⟩
  inward := by
    intro id scope found inner
    have inside : id < 1 := lt_size_of_getElem? found
    exact absurd (Nat.lt_one_iff.mp inside) inner

namespace Rooted

variable {arena : Arena α}

theorem size_pos (rooted : arena.Rooted) : globalScope < arena.size := by
  obtain ⟨scope, found, _free⟩ := rooted.root
  exact lt_size_of_getElem? found

theorem of_links {other : Arena α} (rooted : arena.Rooted)
    (links : ∀ id : ScopeId, other.scopes[id]?.map (·.enclosing)
      = arena.scopes[id]?.map (·.enclosing)) : other.Rooted := by
  constructor
  · obtain ⟨scope, found, free⟩ := rooted.root
    have same := links globalScope
    rw [found] at same
    obtain ⟨scope', found', link⟩ := Option.map_eq_some_iff.mp same
    exact ⟨scope', found', link.trans free⟩
  · intro id scope found inner
    have same := links id
    rw [found] at same
    obtain ⟨scope', found', link⟩ := Option.map_eq_some_iff.mp same.symm
    obtain ⟨outer, linked, before⟩ := rooted.inward id scope' found' inner
    exact ⟨outer, link.symm.trans linked, before⟩

theorem push (rooted : arena.Rooted) {enclosing : ScopeId} (inside : enclosing < arena.size) :
    (arena.push enclosing).2.Rooted := by
  have positive := rooted.size_pos
  constructor
  · obtain ⟨scope, found, free⟩ := rooted.root
    refine ⟨scope, ?_, free⟩
    rw [scopes_push, if_neg (Nat.ne_of_lt positive)]
    exact found
  · intro id scope found inner
    rw [scopes_push] at found
    by_cases new : id = arena.size
    · rw [if_pos new] at found
      cases found
      exact ⟨enclosing, rfl, new ▸ inside⟩
    · rw [if_neg new] at found
      exact rooted.inward id scope found inner

theorem capture (rooted : arena.Rooted) (captured : ScopeId) :
    (arena.capture captured).Rooted := by
  apply rooted.of_links
  intro id
  rw [scopes_capture]
  split
  · rw [Option.map_map]
    rfl
  · rfl

theorem define (rooted : arena.Rooted) (owner : ScopeId) (name : String) (value : α) :
    (arena.define owner name value).Rooted := by
  apply rooted.of_links
  intro id
  rw [scopes_define]
  split
  · rw [Option.map_map]
    rfl
  · rfl

theorem assign (rooted : arena.Rooted) (id : ScopeId) (name : String) (value : α) :
    (arena.assign id name value).2.Rooted := by
  unfold Arena.assign
  split
  · exact rooted.define _ name value
  · exact rooted

theorem release (rooted : arena.Rooted) (released : ScopeId) :
    (arena.release released).Rooted := by
  constructor
  · obtain ⟨scope, found, free⟩ := rooted.root
    refine ⟨scope, ?_, free⟩
    rw [scopes_release, if_neg]
    · exact found
    · intro holds
      rcases holds with ⟨taken, same⟩
      exact ((isReleasable_iff arena released).mp taken).1 same.symm
  · intro id scope found inner
    rw [scopes_release] at found
    split at found
    · cases found
    · exact rooted.inward id scope found inner

theorem outer_lt (rooted : arena.Rooted) {id outer : ScopeId} {scope : Scope α}
    (found : arena.scopes[id]? = some scope) (link : scope.enclosing = some outer) :
    outer < id := by
  by_cases atRoot : id = globalScope
  · obtain ⟨root, rootFound, free⟩ := rooted.root
    rw [atRoot, rootFound] at found
    cases found
    rw [free] at link
    cases link
  · obtain ⟨next, linked, before⟩ := rooted.inward id scope found atRoot
    rw [link] at linked
    cases linked
    exact before

/-- Going outwards the places only fall, and all of them are in the arena. -/
theorem outward_le (rooted : arena.Rooted) {id far : ScopeId} (outward : arena.Outward id far) :
    far ≤ id := by
  induction outward with
  | refl id => exact Nat.le_refl id
  | step here link _rest ih => exact Nat.le_trans ih (Nat.le_of_lt (rooted.outer_lt here link))

end Rooted

/-! ### Captured scopes -/

namespace Captures

variable {arena : Arena α} {id : ScopeId}

theorem push (captured : arena.Captures id) (enclosing : ScopeId) :
    (arena.push enclosing).2.Captures id := by
  obtain ⟨scope, found, marked⟩ := captured
  refine ⟨scope, ?_, marked⟩
  rw [scopes_push, if_neg (Nat.ne_of_lt (lt_size_of_getElem? found))]
  exact found

theorem capture (captured : arena.Captures id) (other : ScopeId) :
    (arena.capture other).Captures id := by
  obtain ⟨scope, found, marked⟩ := captured
  by_cases same : other = id
  · refine ⟨{ scope with captured := true }, ?_, rfl⟩
    rw [scopes_capture, if_pos same, found]
    rfl
  · refine ⟨scope, ?_, marked⟩
    rw [scopes_capture, if_neg same]
    exact found

theorem define (captured : arena.Captures id) (owner : ScopeId) (name : String) (value : α) :
    (arena.define owner name value).Captures id := by
  obtain ⟨scope, found, marked⟩ := captured
  by_cases same : owner = id
  · refine ⟨{ scope with bindings := scope.bindings.insert name value }, ?_, marked⟩
    rw [scopes_define, if_pos same, found]
    rfl
  · refine ⟨scope, ?_, marked⟩
    rw [scopes_define, if_neg same]
    exact found

theorem assign (captured : arena.Captures id) (from' : ScopeId) (name : String) (value : α) :
    (arena.assign from' name value).2.Captures id := by
  unfold Arena.assign
  split
  · exact captured.define _ name value
  · exact captured

theorem release (captured : arena.Captures id) (released : ScopeId) :
    (arena.release released).Captures id := by
  obtain ⟨scope, found, marked⟩ := captured
  refine ⟨scope, ?_, marked⟩
  rw [scopes_release, if_neg]
  · exact found
  · intro holds
    rcases holds with ⟨taken, same⟩
    obtain ⟨_inner, _last, other, found', free⟩ := (isReleasable_iff arena released).mp taken
    rw [← same, found] at found'
    cases found'
    rw [marked] at free
    cases free

end Captures

theorem captures_capture {arena : Arena α} {id : ScopeId} (inside : id < arena.size) :
    (arena.capture id).Captures id := by
  obtain ⟨scope, found⟩ := exists_of_lt_size inside
  refine ⟨{ scope with captured := true }, ?_, rfl⟩
  rw [scopes_capture, if_pos rfl, found]
  rfl

/-! ### Values in scopes -/

theorem holds_of_get? {arena : Arena α} {id : ScopeId} {name : String} {value : α}
    (found : arena.get? id name = some value) : arena.Holds value := by
  obtain ⟨owner, _owned, rest⟩ := Option.bind_eq_some_iff.mp found
  obtain ⟨scope, here, bound⟩ := Option.bind_eq_some_iff.mp rest
  obtain ⟨other, member⟩ := Bindings.mem_of_get? bound
  exact ⟨owner, scope, other, here, member⟩

theorem holds_of_push {arena : Arena α} {enclosing : ScopeId} {value : α}
    (holds : (arena.push enclosing).2.Holds value) : arena.Holds value := by
  obtain ⟨id, scope, name, found, member⟩ := holds
  rw [scopes_push] at found
  split at found
  · cases found
    cases member
  · exact ⟨id, scope, name, found, member⟩

theorem holds_of_capture {arena : Arena α} {captured : ScopeId} {value : α}
    (holds : (arena.capture captured).Holds value) : arena.Holds value := by
  obtain ⟨id, scope, name, found, member⟩ := holds
  rw [scopes_capture] at found
  split at found
  · obtain ⟨old, found', rfl⟩ := Option.map_eq_some_iff.mp found
    exact ⟨id, old, name, found', member⟩
  · exact ⟨id, scope, name, found, member⟩

theorem holds_of_define {arena : Arena α} {owner : ScopeId} {name : String} {value meaning : α}
    (holds : (arena.define owner name value).Holds meaning) :
    meaning = value ∨ arena.Holds meaning := by
  obtain ⟨id, scope, bound, found, member⟩ := holds
  rw [scopes_define] at found
  split at found
  · obtain ⟨old, found', rfl⟩ := Option.map_eq_some_iff.mp found
    rcases Bindings.mem_insert member with new | kept
    · exact Or.inl new
    · exact Or.inr ⟨id, old, bound, found', kept⟩
  · exact Or.inr ⟨id, scope, bound, found, member⟩

theorem holds_of_assign {arena : Arena α} {id : ScopeId} {name : String} {value meaning : α}
    (holds : (arena.assign id name value).2.Holds meaning) :
    meaning = value ∨ arena.Holds meaning := by
  unfold assign at holds
  split at holds
  · exact holds_of_define holds
  · exact Or.inr holds

theorem holds_of_release {arena : Arena α} {released : ScopeId} {value : α}
    (holds : (arena.release released).Holds value) : arena.Holds value := by
  obtain ⟨id, scope, name, found, member⟩ := holds
  rw [scopes_release] at found
  split at found
  · cases found
  · exact ⟨id, scope, name, found, member⟩

end Arena

end Lox
