import Mathlib.Data.Set.Function
import PatternAutomata.Dfa.Separation
import PatternAutomata.Proofs.Dfa.Liveness
import PatternAutomata.Proofs.Dfa.Running
import PatternAutomata.Proofs.Dfa.Transitions

/-! # Isomorphisms and quotients of deterministic automata

Automata are isomorphic when numbering the states of one differently gives the other, with the start,
acceptance and all transitions in their places (`Dfa.Isomorphism`). A state is reachable when some word leads to
it from the start, and an automaton may be isomorphic to the reachable part of another one
(`Dfa.ReachableIsomorphism`).

A quotient maps the states of an automaton onto those of another one, the start to the start, such
that acceptance and every transition are kept. Quotients compose. Nothing that is asked of an
automaton by running it can tell it from a quotient: runs, searches and dead states are the same.
An automaton is trim when each of its states is reached from the start and leads to acceptance; a
quotient of a trim automaton is trim (`Quotient.trim`).
-/

namespace PatternAutomata.Dfa

variable {dfa : Dfa}

def Reachable (dfa : Dfa) (id : StateId) : Prop := ∃ word, dfa.walk? StateId.start word = some id

theorem Reachable.start (dfa : Dfa) : dfa.Reachable StateId.start := ⟨[], rfl⟩

theorem Reachable.next {id target : StateId} {symbol : Symbol} (reachable : dfa.Reachable id)
    (next : dfa.next? id symbol = some target) : dfa.Reachable target := by
  obtain ⟨word, walk⟩ := reachable
  refine ⟨word ++ [symbol], ?_⟩
  rw [walk?_append, walk, Option.bind_some, walk?_cons, next, Option.bind_some, walk?_nil]

theorem Reachable.lt (inhabited : 0 < dfa.size) (inRange : dfa.InRange) {id : StateId}
    (reachable : dfa.Reachable id) : id < dfa.size := by
  obtain ⟨word, walk⟩ := reachable
  exact walk?_lt inRange inhabited walk

/-- The states are those of another automaton, under other numbers. -/
structure Isomorphism (dfa other : Dfa) (map : StateId → StateId) : Prop where
  start : map StateId.start = StateId.start
  states : Set.BijOn map {id | id < dfa.size} {id | id < other.size}
  accepting : ∀ id < dfa.size, (other.Accepting (map id) ↔ dfa.Accepting id)
  next? : ∀ id < dfa.size, ∀ symbol, other.next? (map id) symbol = (dfa.next? id symbol).map map

/-- The states are those of another automaton that are reachable there, under other numbers. -/
structure ReachableIsomorphism (part dfa : Dfa) (map : StateId → StateId) : Prop where
  inRange : part.InRange
  start : map StateId.start = StateId.start
  states : Set.BijOn map {id | id < part.size} {id | dfa.Reachable id}
  accepting : ∀ id < part.size, (part.Accepting id ↔ dfa.Accepting (map id))
  next? : ∀ id < part.size, ∀ symbol, dfa.next? (map id) symbol = (part.next? id symbol).map map

/-- The states are mapped onto those of another automaton, where they accept the same and lead to where
their targets are mapped to. -/
structure Quotient (dfa merged : Dfa) (map : StateId → StateId) : Prop where
  into : ∀ id < dfa.size, map id < merged.size
  onto : ∀ id < merged.size, ∃ origin < dfa.size, map origin = id
  start : map StateId.start = StateId.start
  accepting : ∀ id < dfa.size, (merged.Accepting (map id) ↔ dfa.Accepting id)
  next? : ∀ id < dfa.size, ∀ symbol, merged.next? (map id) symbol = (dfa.next? id symbol).map map

namespace Quotient

variable {middle merged : Dfa} {map first second : StateId → StateId}

theorem refl (dfa : Dfa) : Quotient dfa dfa id where
  into _ owned := owned
  onto p owned := ⟨p, owned, rfl⟩
  start := rfl
  accepting _ _ := Iff.rfl
  next? p _ symbol := by simp

theorem trans (left : Quotient dfa middle first) (right : Quotient middle merged second) :
    Quotient dfa merged (second ∘ first) where
  into p owned := right.into _ (left.into p owned)
  onto p owned := by
    obtain ⟨q, qOwned, rfl⟩ := right.onto p owned
    obtain ⟨origin, originOwned, rfl⟩ := left.onto q qOwned
    exact ⟨origin, originOwned, rfl⟩
  start := (congrArg second left.start).trans right.start
  accepting p owned := (right.accepting _ (left.into p owned)).trans (left.accepting p owned)
  next? p owned symbol := by
    rw [Function.comp_apply, right.next? _ (left.into p owned), left.next? p owned, Option.map_map]

theorem inRange (quotient : Quotient dfa merged map) (inRange : dfa.InRange) : merged.InRange := by
  intro source symbol target step
  obtain ⟨origin, owned, rfl⟩ := quotient.onto source (lt_of_next? step)
  rw [quotient.next? origin owned, Option.map_eq_some_iff] at step
  obtain ⟨next, nextStep, rfl⟩ := step
  exact quotient.into next (inRange origin symbol next nextStep)

theorem walk? (quotient : Quotient dfa merged map) (inRange : dfa.InRange) {id : StateId}
    (owned : id < dfa.size) (word : List Symbol) :
    merged.walk? (map id) word = (dfa.walk? id word).map map := by
  induction word generalizing id with
  | nil => rfl
  | cons symbol rest ih =>
    rw [walk?_cons, walk?_cons, quotient.next? id owned]
    cases step : dfa.next? id symbol with
    | none => rfl
    | some target => exact ih (inRange id symbol target step)

/-- The same words lead to accepting states. -/
theorem acceptsFrom_iff (quotient : Quotient dfa merged map) (inRange : dfa.InRange) {id : StateId}
    (owned : id < dfa.size) (word : List Symbol) :
    merged.AcceptsFrom (map id) word ↔ dfa.AcceptsFrom id word := by
  simp only [AcceptsFrom, quotient.walk? inRange owned, Option.map_eq_some_iff]
  constructor
  · rintro ⟨_, ⟨target, walk, rfl⟩, accepting⟩
    exact ⟨target, walk, (quotient.accepting target (walk?_lt inRange owned walk)).mp accepting⟩
  · rintro ⟨target, walk, accepting⟩
    exact ⟨map target, ⟨target, walk, rfl⟩,
      (quotient.accepting target (walk?_lt inRange owned walk)).mpr accepting⟩

theorem live_iff (quotient : Quotient dfa merged map) (inRange : dfa.InRange) {id : StateId}
    (owned : id < dfa.size) : merged.Live (map id) ↔ dfa.Live id :=
  exists_congr (quotient.acceptsFrom_iff inRange owned)

theorem transition_eq (quotient : Quotient dfa merged map) {id : StateId} (owned : id < dfa.size)
    (symbol : Symbol) : merged.transition (map id) symbol = .ok ((dfa.next? id symbol).map map) := by
  rw [transition_eq_ok merged (quotient.into id owned), quotient.next? id owned]

theorem isAccepting_eq (quotient : Quotient dfa merged map) {id : StateId} (owned : id < dfa.size) :
    merged.isAccepting (map id) = dfa.isAccepting id := by
  obtain ⟨first, firstSuccess, firstAccepts⟩ := isAccepting_eq_ok (quotient.into id owned)
  obtain ⟨second, secondSuccess, secondAccepts⟩ := isAccepting_eq_ok owned
  have same : first = second := by
    rw [Bool.eq_iff_iff, firstAccepts, secondAccepts]
    exact quotient.accepting id owned
  rw [firstSuccess, secondSuccess, same]

theorem runFrom_eq (quotient : Quotient dfa merged map) (inRange : dfa.InRange) {id : StateId}
    (owned : id < dfa.size) (offset : Nat) (word : List Symbol) :
    merged.runFrom (map id) offset word = dfa.runFrom id offset word := by
  induction word generalizing id offset with
  | nil => simp only [runFrom, quotient.isAccepting_eq owned]
  | cons symbol rest ih =>
    simp only [runFrom, quotient.transition_eq owned, transition_eq_ok dfa owned, bind, Except.bind]
    cases step : dfa.next? id symbol with
    | none => rfl
    | some target => exact ih (inRange id symbol target step) (offset + 1)

theorem run_eq (quotient : Quotient dfa merged map) (inhabited : 0 < dfa.size) (inRange : dfa.InRange)
    (input : String) : merged.run input = dfa.run input := by
  have same := quotient.runFrom_eq inRange inhabited 0 input.toList
  rw [show map 0 = StateId.start from quotient.start] at same
  exact same

variable {live mergedLive : StateSet}

theorem extendPrefix_eq (quotient : Quotient dfa merged map) (inRange : dfa.InRange)
    (lives : ∀ id < dfa.size, (map id ∈ mergedLive ↔ id ∈ live)) {id : StateId} (owned : id < dfa.size)
    (read : Nat) (best : Option Nat) (word : List Symbol) :
    merged.extendPrefix mergedLive (map id) read best word = dfa.extendPrefix live id read best word := by
  induction word generalizing id read best with
  | nil => rfl
  | cons symbol rest ih =>
    simp only [extendPrefix, lives id owned, quotient.transition_eq owned, transition_eq_ok dfa owned]
    cases step : dfa.next? id symbol with
    | none => rfl
    | some target =>
      have targetOwned := inRange id symbol target step
      simp only [bind, Except.bind, Option.map_some, quotient.isAccepting_eq targetOwned, ih targetOwned]

theorem longestPrefixWith_eq (quotient : Quotient dfa merged map) (inhabited : 0 < dfa.size)
    (inRange : dfa.InRange) (lives : ∀ id < dfa.size, (map id ∈ mergedLive ↔ id ∈ live))
    (word : List Symbol) :
    merged.longestPrefixWith mergedLive word = dfa.longestPrefixWith live word := by
  have accepting := quotient.isAccepting_eq inhabited
  have extend := fun best => quotient.extendPrefix_eq inRange lives inhabited 0 best word
  rw [show map 0 = StateId.start from quotient.start] at accepting extend
  simp only [longestPrefixWith, accepting, extend]
  rfl

theorem findFrom_eq (quotient : Quotient dfa merged map) (inhabited : 0 < dfa.size) (inRange : dfa.InRange)
    (lives : ∀ id < dfa.size, (map id ∈ mergedLive ↔ id ∈ live)) (start : Nat) (word : List Symbol) :
    merged.findFrom mergedLive start word = dfa.findFrom live start word := by
  induction word generalizing start with
  | nil => simp only [findFrom, quotient.longestPrefixWith_eq inhabited inRange lives]
  | cons symbol rest ih => simp only [findFrom, quotient.longestPrefixWith_eq inhabited inRange lives, ih]

/-- Both automata have live states, and a state is live as the one that it is mapped to. -/
theorem exists_liveStates (quotient : Quotient dfa merged map) (inRange : dfa.InRange) :
    ∃ live mergedLive, dfa.liveStates = .ok live ∧ merged.liveStates = .ok mergedLive ∧
      ∀ id < dfa.size, (map id ∈ mergedLive ↔ id ∈ live) := by
  obtain ⟨live, success, lives⟩ := liveStates_eq_ok inRange
  obtain ⟨mergedLive, mergedSuccess, mergedLives⟩ := liveStates_eq_ok (quotient.inRange inRange)
  refine ⟨live, mergedLive, success, mergedSuccess, fun id owned => ?_⟩
  rw [lives, mergedLives, quotient.live_iff inRange owned]

theorem longestPrefix?_eq (quotient : Quotient dfa merged map) (inhabited : 0 < dfa.size)
    (inRange : dfa.InRange) (input : String) : merged.longestPrefix? input = dfa.longestPrefix? input := by
  obtain ⟨live, mergedLive, success, mergedSuccess, lives⟩ := quotient.exists_liveStates inRange
  simp only [longestPrefix?, success, mergedSuccess, bind, Except.bind]
  exact quotient.longestPrefixWith_eq inhabited inRange lives input.toList

theorem find?_eq (quotient : Quotient dfa merged map) (inhabited : 0 < dfa.size) (inRange : dfa.InRange)
    (input : String) : merged.find? input = dfa.find? input := by
  obtain ⟨live, mergedLive, success, mergedSuccess, lives⟩ := quotient.exists_liveStates inRange
  simp only [find?, success, mergedSuccess, bind, Except.bind]
  exact quotient.findFrom_eq inhabited inRange lives 0 input.toList

/-- Dead states are mapped to dead states, and only they. -/
theorem exists_deadStates (quotient : Quotient dfa merged map) (inRange : dfa.InRange) :
    ∃ dead mergedDead, dfa.deadStates = .ok dead ∧ merged.deadStates = .ok mergedDead ∧
      ∀ id < dfa.size, (id ∈ dead ↔ map id ∈ mergedDead) := by
  obtain ⟨dead, success, -, deads⟩ := deadStates_eq_ok inRange
  obtain ⟨mergedDead, mergedSuccess, -, mergedDeads⟩ := deadStates_eq_ok (quotient.inRange inRange)
  refine ⟨dead, mergedDead, success, mergedSuccess, fun id owned => ?_⟩
  rw [deads, mergedDeads, quotient.live_iff inRange owned]
  simp [owned, quotient.into id owned]

end Quotient

variable {merged : Dfa} {map : StateId → StateId}

/-- Every state lies on the way of some word from the start to acceptance. -/
structure Trim (dfa : Dfa) : Prop where
  reachable : ∀ id < dfa.size, dfa.Reachable id
  live : ∀ id < dfa.size, dfa.Live id

theorem Trim.deadStates_eq (trim : dfa.Trim) (inRange : dfa.InRange) : dfa.deadStates = .ok [] :=
  deadStates_eq_nil_iff.mpr ⟨inRange, trim.live⟩

/-- States stay reachable in a quotient. -/
theorem Quotient.reachable (quotient : Quotient dfa merged map) (inRange : dfa.InRange)
    (inhabited : 0 < dfa.size) (reachable : ∀ id < dfa.size, dfa.Reachable id) :
    ∀ id < merged.size, merged.Reachable id := by
  intro id owned
  obtain ⟨origin, originOwned, rfl⟩ := quotient.onto id owned
  obtain ⟨word, walk⟩ := reachable origin originOwned
  have startOwned : StateId.start < dfa.size := inhabited
  have mapped := quotient.walk? inRange startOwned word
  rw [quotient.start, walk, Option.map_some] at mapped
  exact ⟨word, mapped⟩

/-- A quotient of a trim automaton is trim. -/
theorem Quotient.trim (quotient : Quotient dfa merged map) (inRange : dfa.InRange) (inhabited : 0 < dfa.size)
    (trim : dfa.Trim) : merged.Trim where
  reachable := quotient.reachable inRange inhabited trim.reachable
  live id owned := by
    obtain ⟨origin, originOwned, rfl⟩ := quotient.onto id owned
    exact (quotient.live_iff inRange originOwned).mpr (trim.live origin originOwned)

end PatternAutomata.Dfa
