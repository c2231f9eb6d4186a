import Lox.Proofs.Run.Steps
import Lox.Proofs.Scope.Grounded
set_option autoImplicit false

/-! Arenas that look the same from within. Scopes of one arena are paired with scopes of another,
one to one; paired scopes bind the same names to the same values, up to the scopes of closures,
which are paired again, and lead to paired scopes. In the second arena there may be scopes without a
partner. Those on the way outwards from a scope with a partner are empty, so they hide no name. -/

namespace Lox

/-- Which scopes of one arena are paired with which scopes of another. -/
abbrev Pairing := ScopeId → ScopeId → Prop

/-- The values are the same but for the scopes that closures have captured, which are paired. -/
inductive Value.Matches (pairs : Pairing) : Value → Value → Prop
  | literal (value : Literal) : Matches pairs (.literal value) (.literal value)
  | clock : Matches pairs (.callable .clock) (.callable .clock)
  | closure (declaration : FunctionDeclaration) {scope other : ScopeId}
      (paired : pairs scope other) :
      Matches pairs (.callable (.closure declaration scope))
        (.callable (.closure declaration other))

/-- The same names, in the same order, with matching values. -/
inductive Bindings.Matches (pairs : Pairing) : Bindings Value → Bindings Value → Prop
  | nil : Matches pairs [] []
  | cons (name : String) {value other : Value} {rest others : Bindings Value}
      (same : value.Matches pairs other) (below : Matches pairs rest others) :
      Matches pairs ((name, value) :: rest) ((name, other) :: others)

namespace Arena

/-- From a scope of the second arena one comes to the partner of the given scope through nothing but
empty scopes without a partner. -/
inductive Shows (pairs : Pairing) (copy : Arena Value) (scope : ScopeId) : ScopeId → Prop
  | paired {id : ScopeId} (pair : pairs scope id) : Shows pairs copy scope id
  | through {id outer : ScopeId} {found : Scope Value} (here : copy.scopes[id]? = some found)
      (empty : found.bindings = []) (apart : ∀ other, ¬ pairs other id)
      (link : found.enclosing = some outer) (rest : Shows pairs copy scope outer) :
      Shows pairs copy scope id

/-- Paired scopes match. -/
structure ScopeMatches (pairs : Pairing) (copy : Arena Value) (scope other : Scope Value) :
    Prop where
  bindings : scope.bindings.Matches pairs other.bindings
  enclosing : Option.Rel (Shows pairs copy) scope.enclosing other.enclosing

structure Matches (pairs : Pairing) (arena copy : Arena Value) : Prop where
  single : ∀ {id other first second : ScopeId}, pairs id first → pairs other second →
    (id = other ↔ first = second)
  scopes : ∀ {id other : ScopeId}, pairs id other →
    ∃ scope partner, arena.scopes[id]? = some scope ∧ copy.scopes[other]? = some partner ∧
      ScopeMatches pairs copy scope partner

end Arena

/-! ### Values and bindings -/

namespace Value.Matches

variable {pairs later : Pairing} {value other : Value}

theorem isTruthy_eq (same : value.Matches pairs other) : other.isTruthy = value.isTruthy := by
  cases same <;> rfl

theorem text_eq (same : value.Matches pairs other) : other.text = value.text := by
  cases same <;> rfl

/-- Values match as long as the scopes that they have captured are paired. -/
theorem transfer {arena copy : Arena Value} (same : value.Matches pairs other)
    (anchored : value.Anchored arena) (copyAnchored : other.Anchored copy)
    (stays : ∀ id partner, arena.Captures id → copy.Captures partner → pairs id partner →
      later id partner) : value.Matches later other := by
  cases same with
  | literal value => exact .literal value
  | clock => exact .clock
  | closure declaration paired =>
      exact .closure declaration (stays _ _ anchored copyAnchored paired)

/-- Whether two functions are the same can be told from the partners of their scopes. -/
theorem same_eq {right partner : Value} (leftSame : value.Matches pairs other)
    (rightSame : right.Matches pairs partner)
    (single : ∀ {id other first second : ScopeId}, pairs id first → pairs other second →
      (id = other ↔ first = second)) : other.same partner = value.same right := by
  cases leftSame with
  | literal => cases rightSame <;> rfl
  | clock => cases rightSame <;> rfl
  | closure declaration paired =>
      cases rightSame with
      | literal => rfl
      | clock => rfl
      | closure another pairedRight =>
          refine congrArg (declaration.label == another.label && ·) ?_
          rw [Bool.eq_iff_iff, beq_iff_eq, beq_iff_eq]
          exact (single paired pairedRight).symm

end Value.Matches

namespace Bindings.Matches

variable {pairs later : Pairing} {bindings others : Bindings Value}

theorem refl (held : ∀ name value, (name, value) ∈ bindings → value.Matches pairs value) :
    bindings.Matches pairs bindings := by
  induction bindings with
  | nil => exact .nil
  | cons first rest ih =>
      refine .cons first.1 (held first.1 first.2 List.mem_cons_self) (ih ?_)
      exact fun name value member => held name value (List.mem_cons_of_mem _ member)

theorem get?_rel (same : bindings.Matches pairs others) (name : String) :
    Option.Rel (Value.Matches pairs) (bindings.get? name) (others.get? name) := by
  induction same with
  | nil => exact .none
  | cons bound value _below ih =>
      rw [get?, get?]
      by_cases here : bound = name
      · rw [if_pos here, if_pos here]
        exact .some value
      · rw [if_neg here, if_neg here]
        exact ih

theorem binds_eq (same : bindings.Matches pairs others) (name : String) :
    others.binds name = bindings.binds name := by
  unfold binds
  rcases rel_cases (same.get?_rel name) with ⟨free, copyFree⟩ | ⟨_, _, bound, copyBound, _⟩
  · rw [free, copyFree]
  · rw [bound, copyBound]
    rfl

theorem insert (same : bindings.Matches pairs others) (name : String) {value other : Value}
    (new : value.Matches pairs other) :
    (bindings.insert name value).Matches pairs (others.insert name other) := by
  induction same with
  | nil => exact .cons name new .nil
  | cons bound old below ih =>
      rw [Bindings.insert, Bindings.insert]
      by_cases here : bound = name
      · rw [if_pos here, if_pos here]
        exact .cons name new below
      · rw [if_neg here, if_neg here]
        exact .cons bound old ih

theorem transfer {arena copy : Arena Value} (same : bindings.Matches pairs others)
    (anchored : ∀ name value, (name, value) ∈ bindings → value.Anchored arena)
    (copyAnchored : ∀ name value, (name, value) ∈ others → value.Anchored copy)
    (stays : ∀ id partner, arena.Captures id → copy.Captures partner → pairs id partner →
      later id partner) : bindings.Matches later others := by
  induction same with
  | nil => exact .nil
  | cons name value _below ih =>
      have first := value.transfer (anchored name _ List.mem_cons_self)
        (copyAnchored name _ List.mem_cons_self) stays
      refine .cons name first (ih ?_ ?_)
      · exact fun bound held member => anchored bound held (List.mem_cons_of_mem _ member)
      · exact fun bound held member => copyAnchored bound held (List.mem_cons_of_mem _ member)

end Bindings.Matches

/-! ### Arenas -/

namespace Arena

variable {pairs later : Pairing} {arena copy : Arena Value} {scope id : ScopeId}

namespace Shows

/-- What is shown stays so while the empty scopes on the way are left alone. -/
theorem transfer {other : Arena Value} {limit : Nat} (shows : copy.Shows pairs scope id)
    (rooted : copy.Rooted) (inside : id < limit)
    (stays : ∀ partner < limit, pairs scope partner → later scope partner)
    (frame : ∀ (empty : ScopeId) (found : Scope Value), empty < limit →
      copy.scopes[empty]? = some found → (∀ partner, ¬ pairs partner empty) →
      other.scopes[empty]? = some found ∧ ∀ partner, ¬ later partner empty) :
    other.Shows later scope id := by
  induction shows with
  | @paired id pair => exact .paired (stays id inside pair)
  | through here empty apart link _rest ih =>
      obtain ⟨still, alone⟩ := frame _ _ inside here apart
      exact .through still empty alone link
        (ih (Nat.lt_trans (rooted.outer_lt here link) inside))

end Shows

namespace Matches

theorem lt_size (same : arena.Matches pairs copy) (pair : pairs scope id) : scope < arena.size := by
  obtain ⟨_scope, _partner, found, _rest⟩ := same.scopes pair
  exact lt_size_of_getElem? found

theorem copy_lt_size (same : arena.Matches pairs copy) (pair : pairs scope id) :
    id < copy.size := by
  obtain ⟨_scope, _partner, _found, paired, _same⟩ := same.scopes pair
  exact lt_size_of_getElem? paired

theorem shown_lt_size (same : arena.Matches pairs copy) (shows : copy.Shows pairs scope id) :
    scope < arena.size := by
  induction shows with
  | paired pair => exact same.lt_size pair
  | through _here _empty _apart _link _rest ih => exact ih

theorem shows_lt_size (same : arena.Matches pairs copy) (shows : copy.Shows pairs scope id) :
    id < copy.size := by
  cases shows with
  | paired pair => exact same.copy_lt_size pair
  | through here => exact lt_size_of_getElem? here

theorem ownerWithin_through {outer : ScopeId} {found : Scope Value}
    (here : copy.scopes[id]? = some found) (empty : found.bindings = [])
    (link : found.enclosing = some outer) (name : String) (reach : Nat) :
    copy.ownerWithin name (reach + 1) id = copy.ownerWithin name reach outer := by
  rw [ownerWithin, here]
  dsimp only
  rw [empty, link]
  rfl

/-- The owner of a name is paired with its owner in the second arena, where the way outwards is the
longer one; so the induction is on the reach there. -/
theorem ownerWithin_rel (same : arena.Matches pairs copy) (rooted : arena.Rooted)
    (copyRooted : copy.Rooted) (name : String) {reach copyReach : Nat}
    (shows : copy.Shows pairs scope id) (enough : scope < reach) (copyEnough : id < copyReach) :
    Option.Rel pairs (arena.ownerWithin name reach scope) (copy.ownerWithin name copyReach id) := by
  induction copyReach generalizing scope id reach with
  | zero => exact absurd copyEnough (Nat.not_lt_zero id)
  | succ copyReach ih =>
      cases shows with
      | through here empty apart link rest =>
          rw [ownerWithin_through here empty link]
          have before := copyRooted.outer_lt here link
          exact ih rest enough (Nat.lt_of_lt_of_le before (Nat.le_of_lt_succ copyEnough))
      | paired pair =>
          cases reach with
          | zero => exact absurd enough (Nat.not_lt_zero scope)
          | succ reach =>
              obtain ⟨held, partner, found, copyFound, bindings, enclosing⟩ := same.scopes pair
              rw [ownerWithin, ownerWithin, found, copyFound]
              dsimp only
              rw [bindings.binds_eq]
              by_cases bound : held.bindings.binds name = true
              · rw [if_pos bound, if_pos bound]
                exact .some pair
              · rw [if_neg bound, if_neg bound]
                rcases rel_cases enclosing with
                  ⟨link, copyLink⟩ | ⟨outer, far, link, copyLink, shows⟩
                · rw [link, copyLink]
                  exact .none
                · rw [link, copyLink]
                  have before := rooted.outer_lt found link
                  have copyBefore := copyRooted.outer_lt copyFound copyLink
                  exact ih shows (Nat.lt_of_lt_of_le before (Nat.le_of_lt_succ enough))
                    (Nat.lt_of_lt_of_le copyBefore (Nat.le_of_lt_succ copyEnough))

theorem owner?_rel (same : arena.Matches pairs copy) (rooted : arena.Rooted)
    (copyRooted : copy.Rooted) (shows : copy.Shows pairs scope id) (name : String) :
    Option.Rel pairs (arena.owner? scope name) (copy.owner? id name) :=
  same.ownerWithin_rel rooted copyRooted name shows (Nat.lt_succ_self scope) (Nat.lt_succ_self id)

/-- A name has the same meaning from a scope and from one that shows it. -/
theorem get?_rel (same : arena.Matches pairs copy) (rooted : arena.Rooted)
    (copyRooted : copy.Rooted) (shows : copy.Shows pairs scope id) (name : String) :
    Option.Rel (Value.Matches pairs) (arena.get? scope name) (copy.get? id name) := by
  unfold get?
  rcases rel_cases (same.owner?_rel rooted copyRooted shows name) with
    ⟨free, copyFree⟩ | ⟨owner, copyOwner, owned, copyOwned, pair⟩
  · rw [free, copyFree]
    exact .none
  · obtain ⟨held, partner, found, copyFound, bindings, _enclosing⟩ := same.scopes pair
    rw [owned, copyOwned]
    change Option.Rel _ (arena.scopes[owner]?.bind fun scope => scope.bindings.get? name)
      (copy.scopes[copyOwner]?.bind fun scope => scope.bindings.get? name)
    rw [found, copyFound]
    exact bindings.get?_rel name

/-- Paired scopes may be changed alike. -/
theorem modify {changed copyChanged : Arena Value} (same : arena.Matches pairs copy)
    (copyRooted : copy.Rooted) (pair : pairs scope id)
    {change copyChange : Scope Value → Scope Value}
    (scopes : ∀ other : ScopeId, changed.scopes[other]?
      = if scope = other then arena.scopes[other]?.map change else arena.scopes[other]?)
    (copyScopes : ∀ other : ScopeId, copyChanged.scopes[other]?
      = if id = other then copy.scopes[other]?.map copyChange else copy.scopes[other]?)
    (changes : ∀ held partner : Scope Value, held.bindings.Matches pairs partner.bindings →
      (change held).bindings.Matches pairs (copyChange partner).bindings)
    (links : ∀ held, (change held).enclosing = held.enclosing)
    (copyLinks : ∀ held, (copyChange held).enclosing = held.enclosing) :
    changed.Matches pairs copyChanged := by
  have shown : ∀ {inner far : ScopeId}, copy.Shows pairs inner far →
      copyChanged.Shows pairs inner far := by
    intro inner far shows
    refine shows.transfer copyRooted (same.shows_lt_size shows) (fun _ _ pair => pair) ?_
    intro empty found _inside here apart
    refine ⟨?_, apart⟩
    have other : ¬ id = empty := fun here => apart scope (here ▸ pair)
    rw [copyScopes, if_neg other]
    exact here
  refine ⟨same.single, ?_⟩
  intro other far paired
  obtain ⟨held, partner, found, copyFound, bindings, enclosing⟩ := same.scopes paired
  have outward : Option.Rel (Shows pairs copyChanged) held.enclosing partner.enclosing := by
    rcases rel_cases enclosing with ⟨link, copyLink⟩ | ⟨outer, copyOuter, link, copyLink, shows⟩
    · rw [link, copyLink]
      exact .none
    · rw [link, copyLink]
      exact .some (shown shows)
  by_cases here : scope = other
  · have copyHere : id = far := (same.single pair paired).mp here
    refine ⟨change held, copyChange partner, ?_, ?_, changes held partner bindings, ?_⟩
    · rw [scopes, if_pos here, found]
      rfl
    · rw [copyScopes, if_pos copyHere, copyFound]
      rfl
    · rw [links, copyLinks]
      exact outward
  · have copyElsewhere : ¬ id = far := fun copyHere => here ((same.single pair paired).mpr copyHere)
    refine ⟨held, partner, ?_, ?_, bindings, outward⟩
    · rw [scopes, if_neg here, found]
    · rw [copyScopes, if_neg copyElsewhere, copyFound]

theorem define (same : arena.Matches pairs copy) (copyRooted : copy.Rooted)
    (pair : pairs scope id) (name : String) {value other : Value}
    (new : value.Matches pairs other) :
    (arena.define scope name value).Matches pairs (copy.define id name other) :=
  same.modify copyRooted pair (scopes_define arena scope · name value)
    (scopes_define copy id · name other) (fun _ _ bindings => bindings.insert name new)
    (fun _ => rfl) fun _ => rfl

/-- An assignment is a definition in the scope that owns the name, or comes to nothing. -/
theorem assign_cases (same : arena.Matches pairs copy) (rooted : arena.Rooted)
    (copyRooted : copy.Rooted) (shows : copy.Shows pairs scope id) (name : String)
    (value other : Value) :
    (arena.assign scope name value = (false, arena) ∧ copy.assign id name other = (false, copy)) ∨
      ∃ owner partner, pairs owner partner ∧
        arena.assign scope name value = (true, arena.define owner name value) ∧
        copy.assign id name other = (true, copy.define partner name other) := by
  unfold assign
  rcases rel_cases (same.owner?_rel rooted copyRooted shows name) with
    ⟨free, copyFree⟩ | ⟨owner, partner, owned, copyOwned, pair⟩
  · rw [free, copyFree]
    exact Or.inl ⟨rfl, rfl⟩
  · rw [owned, copyOwned]
    exact Or.inr ⟨owner, partner, pair, rfl, rfl⟩

theorem capture (same : arena.Matches pairs copy) (copyRooted : copy.Rooted)
    (pair : pairs scope id) : (arena.capture scope).Matches pairs (copy.capture id) :=
  same.modify copyRooted pair (scopes_capture arena scope) (scopes_capture copy id)
    (fun _ _ bindings => bindings) (fun _ => rfl) fun _ => rfl

end Matches

/-- Two scopes still match where the scopes that they lead to, and those that their closures have
captured, are paired as before. -/
theorem ScopeMatches.transfer {machine other : Machine} (grounded : machine.Grounded)
    (copyGrounded : other.Grounded) {copy : Arena Value} {held partner : Scope Value}
    (found : machine.arena.scopes[scope]? = some held)
    (copyFound : other.arena.scopes[id]? = some partner)
    (same : ScopeMatches pairs other.arena held partner)
    (captured : ∀ inner far, machine.arena.Captures inner → other.arena.Captures far →
      pairs inner far → later inner far)
    (stays : ∀ inner far, inner < scope → far < id → pairs inner far → later inner far)
    (frame : ∀ (empty : ScopeId) (found : Scope Value), empty < id →
      other.arena.scopes[empty]? = some found → (∀ partner, ¬ pairs partner empty) →
      copy.scopes[empty]? = some found ∧ ∀ partner, ¬ later partner empty) :
    ScopeMatches later copy held partner := by
  constructor
  · refine same.bindings.transfer ?_ ?_ captured
    · exact fun name value member => grounded.anchored value ⟨scope, held, name, found, member⟩
    · exact fun name value member =>
        copyGrounded.anchored value ⟨id, partner, name, copyFound, member⟩
  · rcases rel_cases same.enclosing with ⟨link, copyLink⟩ | ⟨outer, far, link, copyLink, shows⟩
    · rw [link, copyLink]
      exact .none
    · rw [link, copyLink]
      have before := grounded.rooted.outer_lt found link
      have copyBefore := copyGrounded.rooted.outer_lt copyFound copyLink
      exact .some (shows.transfer copyGrounded.rooted copyBefore
        (fun next below pair => stays outer next before below pair) frame)

end Arena

end Lox
