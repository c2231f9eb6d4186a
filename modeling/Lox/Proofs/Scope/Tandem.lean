import Lox.Proofs.Scope.Pairing
set_option autoImplicit false

/-! Two machines in tandem. Their arenas match, and they print the same with as many calls in
progress. What leads from a tandem to a later one never touches pairs of scopes that were there:
pairs come with the scopes that are opened and go with those that are taken away. -/

namespace Lox

/-- Two machines, and which scopes of the one are paired with which scopes of the other. -/
structure Tandem where
  machine : Machine
  copy : Machine
  pairs : Pairing

namespace Tandem

variable {tandem middle later : Tandem} {scope other : ScopeId} {value partner : Value}

structure Matched (tandem : Tandem) : Prop where
  grounded : tandem.machine.Grounded
  copyGrounded : tandem.copy.Grounded
  arenas : tandem.machine.arena.Matches tandem.pairs tandem.copy.arena
  callDepth : tandem.copy.callDepth = tandem.machine.callDepth
  output : tandem.copy.output = tandem.machine.output

/-- A later tandem. What was there still is, and is paired as before; scopes of the copy without a
partner are as they were. -/
structure Leads (tandem later : Tandem) : Prop where
  matched : later.Matched
  machine : tandem.machine.Leads later.machine
  copy : tandem.copy.Leads later.copy
  pairs : ∀ id partner, id < tandem.machine.arena.size ∨ partner < tandem.copy.arena.size →
    (later.pairs id partner ↔ tandem.pairs id partner)
  apart : ∀ partner < tandem.copy.arena.size, (∀ id, ¬ tandem.pairs id partner) →
    later.copy.arena.scopes[partner]? = tandem.copy.arena.scopes[partner]?

/-- Matching values that neither machine loses. -/
structure Carries (tandem : Tandem) (value partner : Value) : Prop where
  same : value.Matches tandem.pairs partner
  anchored : value.Anchored tandem.machine.arena
  copyAnchored : partner.Anchored tandem.copy.arena

/-- Matching interrupts. -/
inductive Fails (tandem : Tandem) : Interrupt → Interrupt → Prop
  | returning {value partner : Value} (carries : tandem.Carries value partner) :
      Fails tandem (.returning value) (.returning partner)
  | plain (interrupt : Interrupt) (holds : interrupt.values = []) : Fails tandem interrupt interrupt

/-- Work goes on in a scope, and in one of the copy that shows it. -/
structure Works (tandem : Tandem) (scope other : ScopeId) : Prop where
  matched : tandem.Matched
  shows : tandem.copy.arena.Shows tandem.pairs scope other

/-! ### Later tandems -/

theorem Matched.leads (matched : tandem.Matched) : tandem.Leads tandem :=
  ⟨matched, matched.grounded.leads, matched.copyGrounded.leads, fun _ _ _ => Iff.rfl,
    fun _ _ _ => rfl⟩

namespace Leads

theorem trans (first : tandem.Leads middle) (second : middle.Leads later) : tandem.Leads later := by
  have grows := first.machine.grows
  have copyGrows := first.copy.grows
  refine ⟨second.matched, ?_, ?_, ?_, ?_⟩
  · exact ⟨second.machine.grounded, Nat.le_trans grows second.machine.grows,
      fun id captured => second.machine.captures id (first.machine.captures id captured)⟩
  · exact ⟨second.copy.grounded, Nat.le_trans copyGrows second.copy.grows,
      fun id captured => second.copy.captures id (first.copy.captures id captured)⟩
  · intro id partner inside
    have still : id < middle.machine.arena.size ∨ partner < middle.copy.arena.size :=
      inside.imp (Nat.lt_of_lt_of_le · grows) (Nat.lt_of_lt_of_le · copyGrows)
    exact (second.pairs id partner still).trans (first.pairs id partner inside)
  · intro partner inside alone
    have aloneLater : ∀ id, ¬ middle.pairs id partner :=
      fun id pair => alone id ((first.pairs id partner (Or.inr inside)).mp pair)
    rw [second.apart partner (Nat.lt_of_lt_of_le inside copyGrows) aloneLater]
    exact first.apart partner inside alone

theorem pair (leads : tandem.Leads later) (matched : tandem.Matched)
    (pair : tandem.pairs scope other) : later.pairs scope other :=
  (leads.pairs scope other (Or.inl (matched.arenas.lt_size pair))).mpr pair

theorem carries (leads : tandem.Leads later) (carries : tandem.Carries value partner) :
    later.Carries value partner where
  same := by
    refine carries.same.transfer carries.anchored carries.copyAnchored ?_
    exact fun id far captured _ pair => (leads.pairs id far (Or.inl captured.lt_size)).mpr pair
  anchored := carries.anchored.mono leads.machine.captures
  copyAnchored := carries.copyAnchored.mono leads.copy.captures

theorem works (leads : tandem.Leads later) (works : tandem.Works scope other) :
    later.Works scope other := by
  have inside := works.matched.arenas.shows_lt_size works.shows
  refine ⟨leads.matched, works.shows.transfer works.matched.copyGrounded.rooted inside ?_ ?_⟩
  · exact fun partner below pair => (leads.pairs scope partner (Or.inr below)).mpr pair
  · intro empty found below here alone
    refine ⟨?_, fun partner pair => alone partner ((leads.pairs _ _ (Or.inr below)).mp pair)⟩
    rw [leads.apart empty below alone]
    exact here

end Leads

theorem Works.of_pair (matched : tandem.Matched) (pair : tandem.pairs scope other) :
    tandem.Works scope other :=
  ⟨matched, .paired pair⟩

/-! ### Values that are looked up, bound and captured -/

/-- The tandem with other arenas. -/
def withArenas (tandem : Tandem) (arena copyArena : Arena Value) : Tandem where
  machine := { tandem.machine with arena }
  copy := { tandem.copy with arena := copyArena }
  pairs := tandem.pairs

theorem Matched.get?_rel (matched : tandem.Matched)
    (shows : tandem.copy.arena.Shows tandem.pairs scope other) (name : String) :
    Option.Rel tandem.Carries (tandem.machine.arena.get? scope name)
      (tandem.copy.arena.get? other name) := by
  rcases rel_cases (matched.arenas.get?_rel matched.grounded.rooted matched.copyGrounded.rooted
    shows name) with ⟨free, copyFree⟩ | ⟨value, partner, found, copyFound, same⟩
  · rw [free, copyFree]
    exact .none
  · rw [found, copyFound]
    exact .some ⟨same, matched.grounded.anchored value (Arena.holds_of_get? found),
      matched.copyGrounded.anchored partner (Arena.holds_of_get? copyFound)⟩

theorem Matched.define (matched : tandem.Matched) (pair : tandem.pairs scope other) (name : String)
    (carries : tandem.Carries value partner) :
    tandem.Leads (tandem.withArenas (tandem.machine.arena.define scope name value)
      (tandem.copy.arena.define other name partner)) := by
  have leads := matched.grounded.define scope name carries.anchored
  have copyLeads := matched.copyGrounded.define other name carries.copyAnchored
  have arenas := matched.arenas.define matched.copyGrounded.rooted pair name carries.same
  refine ⟨⟨leads.grounded, copyLeads.grounded, arenas, matched.callDepth, matched.output⟩, leads,
    copyLeads, fun _ _ _ => Iff.rfl, ?_⟩
  intro apart _inside alone
  have elsewhere : ¬ other = apart := fun here => alone scope (here ▸ pair)
  exact (Arena.scopes_define _ _ _ _ _).trans (if_neg elsewhere)

theorem Matched.capture (matched : tandem.Matched) (pair : tandem.pairs scope other) :
    tandem.Leads (tandem.withArenas (tandem.machine.arena.capture scope)
      (tandem.copy.arena.capture other)) := by
  have leads := matched.grounded.capture scope
  have copyLeads := matched.copyGrounded.capture other
  have arenas := matched.arenas.capture matched.copyGrounded.rooted pair
  refine ⟨⟨leads.grounded, copyLeads.grounded, arenas, matched.callDepth, matched.output⟩, leads,
    copyLeads, fun _ _ _ => Iff.rfl, ?_⟩
  intro apart _inside alone
  have elsewhere : ¬ other = apart := fun here => alone scope (here ▸ pair)
  exact (Arena.scopes_capture _ _ _).trans (if_neg elsewhere)

/-! ### Calls -/

def enterCall (tandem : Tandem) : Tandem :=
  ⟨tandem.machine.enterCall, tandem.copy.enterCall, tandem.pairs⟩

def leaveCall (tandem : Tandem) : Tandem :=
  ⟨tandem.machine.leaveCall, tandem.copy.leaveCall, tandem.pairs⟩

theorem Matched.enterCall (matched : tandem.Matched) : tandem.enterCall.Matched where
  grounded := matched.grounded.of_arena rfl
  copyGrounded := matched.copyGrounded.of_arena rfl
  arenas := matched.arenas
  callDepth := congrArg (· + 1) matched.callDepth
  output := matched.output

theorem Carries.enterCall (carries : tandem.Carries value partner) :
    tandem.enterCall.Carries value partner :=
  ⟨carries.same, carries.anchored, carries.copyAnchored⟩

theorem Carries.leaveCall (carries : tandem.Carries value partner) :
    tandem.leaveCall.Carries value partner :=
  ⟨carries.same, carries.anchored, carries.copyAnchored⟩

theorem Fails.leaveCall {interrupt same : Interrupt} (fails : tandem.Fails interrupt same) :
    tandem.leaveCall.Fails interrupt same := by
  cases fails with
  | returning carries => exact .returning carries.leaveCall
  | plain interrupt holds => exact .plain interrupt holds

theorem Leads.leaveCall (leads : tandem.enterCall.Leads later) : tandem.Leads later.leaveCall := by
  obtain ⟨⟨grounded, copyGrounded, arenas, callDepth, output⟩, machine, copy, pairs, apart⟩ := leads
  have left : later.machine.leaveCall.Grounded := grounded.of_arena rfl
  have copyLeft : later.copy.leaveCall.Grounded := copyGrounded.of_arena rfl
  exact ⟨⟨left, copyLeft, arenas, congrArg (· - 1) callDepth, output⟩,
    ⟨left, machine.grows, machine.captures⟩, ⟨copyLeft, copy.grows, copy.captures⟩, pairs, apart⟩

/-! ### Scopes that are opened -/

/-- A scope was opened on either side, and the two are paired. -/
def opened (tandem : Tandem) (scope other : ScopeId) : Tandem where
  machine := { tandem.machine with arena := (tandem.machine.arena.push scope).2 }
  copy := { tandem.copy with arena := (tandem.copy.arena.push other).2 }
  pairs id partner := tandem.pairs id partner ∨
    id = tandem.machine.arena.size ∧ partner = tandem.copy.arena.size

/-- Only the copy opened a scope, which has no partner. -/
def screened (tandem : Tandem) (other : ScopeId) : Tandem where
  machine := tandem.machine
  copy := { tandem.copy with arena := (tandem.copy.arena.push other).2 }
  pairs := tandem.pairs

theorem scopes_push_of_lt (arena : Arena Value) (enclosing : ScopeId) {id : ScopeId}
    (inside : id < arena.size) : (arena.push enclosing).2.scopes[id]? = arena.scopes[id]? := by
  rw [Arena.scopes_push, if_neg (Nat.ne_of_lt inside)]

theorem scopes_push_size (arena : Arena Value) (enclosing : ScopeId) :
    (arena.push enclosing).2.scopes[arena.size]? = some ⟨some enclosing, [], false⟩ := by
  rw [Arena.scopes_push, if_pos rfl]

/-- What is empty and unpaired stays so when a scope is opened, which only adds pairs for itself. -/
theorem push_frame (arena : Arena Value) (enclosing : ScopeId) {pairs further : Pairing}
    (old : ∀ id partner, partner < arena.size → further id partner → pairs id partner)
    (id : ScopeId) (found : Scope Value) (inside : id < arena.size)
    (here : arena.scopes[id]? = some found) (alone : ∀ other, ¬ pairs other id) :
    (arena.push enclosing).2.scopes[id]? = some found ∧ ∀ other, ¬ further other id := by
  rw [scopes_push_of_lt arena enclosing inside]
  exact ⟨here, fun other pair => alone other (old other id inside pair)⟩

theorem Works.opened (works : tandem.Works scope other) :
    tandem.Leads (tandem.opened scope other) := by
  obtain ⟨matched, shows⟩ := works
  have arenas := matched.arenas
  have leads := matched.grounded.push (arenas.shown_lt_size shows)
  have copyLeads := matched.copyGrounded.push (arenas.shows_lt_size shows)
  have old : ∀ {id partner : ScopeId}, id < tandem.machine.arena.size ∨
      partner < tandem.copy.arena.size → (tandem.opened scope other).pairs id partner →
      tandem.pairs id partner := by
    intro id partner inside pair
    rcases pair with pair | ⟨rfl, rfl⟩
    · exact pair
    · exact absurd inside (by simp)
  have frame := push_frame tandem.copy.arena other fun id partner inside =>
    @old id partner (Or.inr inside)
  refine ⟨⟨leads.grounded, copyLeads.grounded, ⟨?_, ?_⟩, matched.callDepth, matched.output⟩, leads,
    copyLeads, fun id partner inside => ⟨old inside, Or.inl⟩, ?_⟩
  · intro id next first second pair nextPair
    rcases pair with pair | ⟨rfl, rfl⟩
    · have inside := arenas.lt_size pair
      have copyInside := arenas.copy_lt_size pair
      rcases nextPair with nextPair | ⟨rfl, rfl⟩
      · exact arenas.single pair nextPair
      · exact iff_of_false (Nat.ne_of_lt inside) (Nat.ne_of_lt copyInside)
    · rcases nextPair with nextPair | ⟨rfl, rfl⟩
      · exact iff_of_false (Nat.ne_of_gt (arenas.lt_size nextPair))
          (Nat.ne_of_gt (arenas.copy_lt_size nextPair))
      · exact iff_of_true rfl rfl
  · intro id partner pair
    rcases pair with pair | ⟨rfl, rfl⟩
    · obtain ⟨held, far, found, copyFound, same⟩ := arenas.scopes pair
      have copyInside := arenas.copy_lt_size pair
      refine ⟨held, far, (scopes_push_of_lt _ _ (arenas.lt_size pair)).trans found,
        (scopes_push_of_lt _ _ copyInside).trans copyFound, ?_⟩
      refine same.transfer matched.grounded matched.copyGrounded found copyFound
        (fun _ _ _ _ pair => Or.inl pair) (fun _ _ _ _ pair => Or.inl pair) ?_
      exact fun empty found below => frame empty found (Nat.lt_trans below copyInside)
    · refine ⟨_, _, scopes_push_size _ _, scopes_push_size _ _, .nil, .some ?_⟩
      exact shows.transfer matched.copyGrounded.rooted (arenas.shows_lt_size shows)
        (fun _ _ pair => Or.inl pair) frame
  · intro partner inside _alone
    exact scopes_push_of_lt _ _ inside

theorem Works.screened (works : tandem.Works scope other) :
    tandem.Leads (tandem.screened other) ∧
      (tandem.screened other).Works scope tandem.copy.arena.size := by
  obtain ⟨matched, shows⟩ := works
  have arenas := matched.arenas
  have copyLeads := matched.copyGrounded.push (arenas.shows_lt_size shows)
  have old : ∀ id partner, partner < tandem.copy.arena.size →
      (tandem.screened other).pairs id partner → tandem.pairs id partner := fun _ _ _ pair => pair
  have frame := push_frame tandem.copy.arena other old
  have screenedArenas : tandem.machine.arena.Matches tandem.pairs
      (tandem.copy.arena.push other).2 := by
    refine ⟨arenas.single, ?_⟩
    intro id partner pair
    obtain ⟨held, far, found, copyFound, same⟩ := arenas.scopes pair
    have copyInside := arenas.copy_lt_size pair
    refine ⟨held, far, found, (scopes_push_of_lt _ _ copyInside).trans copyFound, ?_⟩
    refine same.transfer matched.grounded matched.copyGrounded found copyFound
      (fun _ _ _ _ pair => pair) (fun _ _ _ _ pair => pair) ?_
    exact fun empty found below => frame empty found (Nat.lt_trans below copyInside)
  have screenedMatched : (tandem.screened other).Matched :=
    ⟨matched.grounded, copyLeads.grounded, screenedArenas, matched.callDepth, matched.output⟩
  refine ⟨⟨screenedMatched, matched.grounded.leads, copyLeads, fun _ _ _ => Iff.rfl,
    fun partner inside _alone => scopes_push_of_lt _ _ inside⟩, screenedMatched, ?_⟩
  refine .through (scopes_push_size _ _) rfl ?_ rfl ?_
  · exact fun id pair => Nat.lt_irrefl _ (arenas.copy_lt_size pair)
  · exact shows.transfer matched.copyGrounded.rooted (arenas.shows_lt_size shows)
      (fun _ _ pair => pair) frame

end Tandem

/-! ### Scopes that are taken away -/

/-- Scopes may be taken away from the end, but none that is captured. -/
structure Machine.Cuts (machine shorter : Machine) : Prop where
  grounded : shorter.Grounded
  scopes : ∀ id < shorter.arena.size, shorter.arena.scopes[id]? = machine.arena.scopes[id]?
  captures : ∀ id, machine.arena.Captures id → shorter.arena.Captures id
  callDepth : shorter.callDepth = machine.callDepth
  output : shorter.output = machine.output

namespace Machine

theorem Grounded.cuts {machine : Machine} (grounded : machine.Grounded) : machine.Cuts machine :=
  ⟨grounded, fun _ _ => rfl, fun _ captured => captured, rfl, rfl⟩

theorem Grounded.cuts_leave {machine : Machine} (grounded : machine.Grounded) (settings : Settings)
    (scope : ScopeId) : machine.Cuts (machine.leave settings scope) := by
  refine ⟨grounded.leave settings scope, ?_, fun _ => captures_leave settings scope, ?_, ?_⟩
  · intro id inside
    obtain ⟨held, found⟩ := Arena.exists_of_lt_size inside
    unfold Machine.leave at found ⊢
    split at found
    · next reclaims =>
        rw [if_pos reclaims]
        dsimp only at found ⊢
        rw [Arena.scopes_release] at found ⊢
        split at found
        · cases found
        · next stays => rw [if_neg stays]
    · next keeps => rw [if_neg keeps]
  · unfold Machine.leave
    split <;> rfl
  · unfold Machine.leave
    split <;> rfl

theorem le_size_leave {machine : Machine} (settings : Settings) {scope : ScopeId} {size : Nat}
    (grows : size ≤ machine.arena.size) (new : size ≤ scope) :
    size ≤ (machine.leave settings scope).arena.size := by
  unfold leave
  split
  · dsimp only
    rw [Arena.size_release]
    split
    · next taken =>
        have last : Nat.succ scope = machine.arena.size :=
          ((Arena.isReleasable_iff machine.arena scope).mp taken).2.1
        omega
    · exact grows
  · exact grows

end Machine

namespace Tandem

variable {tandem later : Tandem} {machine copy : Machine} {value partner : Value}

/-- The tandem with shorter machines, where only scopes that are there are paired. -/
def cut (tandem : Tandem) (machine copy : Machine) : Tandem where
  machine
  copy
  pairs id partner :=
    tandem.pairs id partner ∧ id < machine.arena.size ∧ partner < copy.arena.size

theorem Carries.cut (carries : tandem.Carries value partner) (cuts : tandem.machine.Cuts machine)
    (copyCuts : tandem.copy.Cuts copy) : (tandem.cut machine copy).Carries value partner where
  same := by
    refine carries.same.transfer carries.anchored carries.copyAnchored ?_
    exact fun id far captured copyCaptured pair =>
      ⟨pair, (cuts.captures id captured).lt_size, (copyCuts.captures far copyCaptured).lt_size⟩
  anchored := carries.anchored.mono cuts.captures
  copyAnchored := carries.copyAnchored.mono copyCuts.captures

theorem Fails.cut {interrupt other : Interrupt} (fails : tandem.Fails interrupt other)
    (cuts : tandem.machine.Cuts machine) (copyCuts : tandem.copy.Cuts copy) :
    (tandem.cut machine copy).Fails interrupt other := by
  cases fails with
  | returning carries => exact .returning (carries.cut cuts copyCuts)
  | plain interrupt holds => exact .plain interrupt holds

theorem Matched.cut (matched : tandem.Matched) (cuts : tandem.machine.Cuts machine)
    (copyCuts : tandem.copy.Cuts copy) : (tandem.cut machine copy).Matched where
  grounded := cuts.grounded
  copyGrounded := copyCuts.grounded
  callDepth := copyCuts.callDepth.trans (matched.callDepth.trans cuts.callDepth.symm)
  output := copyCuts.output.trans (matched.output.trans cuts.output.symm)
  arenas := by
    refine ⟨fun pair next => matched.arenas.single pair.1 next.1, ?_⟩
    intro id partner pair
    obtain ⟨pair, inside, copyInside⟩ := pair
    obtain ⟨held, far, found, copyFound, same⟩ := matched.arenas.scopes pair
    refine ⟨held, far, (cuts.scopes id inside).trans found,
      (copyCuts.scopes partner copyInside).trans copyFound, ?_⟩
    refine same.transfer matched.grounded matched.copyGrounded found copyFound ?_ ?_ ?_
    · exact fun inner next captured copyCaptured pair =>
        ⟨pair, (cuts.captures inner captured).lt_size,
          (copyCuts.captures next copyCaptured).lt_size⟩
    · exact fun inner next before copyBefore pair =>
        ⟨pair, Nat.lt_trans before inside, Nat.lt_trans copyBefore copyInside⟩
    · intro empty none below here alone
      have still := copyCuts.scopes empty (Nat.lt_trans below copyInside)
      exact ⟨still.trans here, fun next pair => alone next pair.1⟩

/-- Where scopes are taken away that an earlier tandem had not yet, the shorter tandem is still
later than that. -/
theorem Leads.cut (leads : tandem.Leads later) (matched : tandem.Matched)
    (cuts : later.machine.Cuts machine) (copyCuts : later.copy.Cuts copy)
    (kept : tandem.machine.arena.size ≤ machine.arena.size)
    (copyKept : tandem.copy.arena.size ≤ copy.arena.size) :
    tandem.Leads (later.cut machine copy) := by
  refine ⟨leads.matched.cut cuts copyCuts, ?_, ?_, ?_, ?_⟩
  · exact ⟨cuts.grounded, kept,
      fun id captured => cuts.captures id (leads.machine.captures id captured)⟩
  · exact ⟨copyCuts.grounded, copyKept,
      fun id captured => copyCuts.captures id (leads.copy.captures id captured)⟩
  · intro id partner inside
    rw [← leads.pairs id partner inside]
    refine ⟨And.left, fun pair => ⟨pair, ?_⟩⟩
    have old := (leads.pairs id partner inside).mp pair
    exact ⟨Nat.lt_of_lt_of_le (matched.arenas.lt_size old) kept,
      Nat.lt_of_lt_of_le (matched.arenas.copy_lt_size old) copyKept⟩
  · intro partner inside alone
    rw [← leads.apart partner inside alone]
    exact copyCuts.scopes partner (Nat.lt_of_lt_of_le inside copyKept)

end Tandem

end Lox
