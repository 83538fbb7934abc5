import PatternAutomata.Proofs.Dfa.Quotient
import PatternAutomata.Proofs.Dfa.SubsetAutomaton
import PatternAutomata.Proofs.Dfa.Worklist

/-! # The subset construction makes nothing but accessible sets

Every accessible set has a state, which the moves that lead to the set lead to as transitions
(`SubsetAutomaton.exists_reachable`). No set has two states, so all states are reached that way, and the
automaton is the accessible part of the automaton of all subsets (`AccessibleSubsets`).
-/

namespace PatternAutomata

variable {nfa : Nfa} {dfa : Dfa}

/-- The states are exactly the accessible sets of another automaton, each once, and stepping and closing a set
is what transitions do. -/
structure AccessibleSubsets (nfa : Nfa) (dfa : Dfa) : Prop where
  /-- The start is the start set. -/
  start : ∃ set, nfa.startSet = .ok set ∧ dfa.origin StateId.start = .ok (some set)
  /-- Every state is a set that epsilon edges do not leave. -/
  closed : ∀ id < dfa.size, ∃ set, dfa.origin id = .ok (some set) ∧ nfa.EpsilonClosed set
  /-- No two states are the same set. -/
  distinct : ∀ p q set, dfa.origin p = .ok (some set) → dfa.origin q = .ok (some set) → p = q
  /-- Only the start is the empty set, when there are no states that it could have. -/
  empty : ∀ id, dfa.origin id = .ok (some ∅) ↔ nfa.size = 0 ∧ id = StateId.start
  /-- The sets are those that moves lead to from the start set. -/
  accessible : ∀ set, (∃ id, dfa.origin id = .ok (some set)) ↔ nfa.AccessibleSet set
  /-- A symbol leads to the closure of the step, unless the step leads nowhere. -/
  transition : ∀ id set symbol, dfa.origin id = .ok (some set) →
    ∃ stepped closed, nfa.step set symbol = .ok stepped ∧ nfa.closure stepped = .ok closed ∧
      ((∃ target, dfa.transition id symbol = .ok (some target)) ↔ stepped ≠ ∅) ∧
      ∀ target, dfa.transition id symbol = .ok (some target) → dfa.origin target = .ok (some closed)
  /-- A state accepts when a member of its set does. -/
  accepting : ∀ id set, dfa.origin id = .ok (some set) →
    ∃ accepting, dfa.isAccepting id = .ok accepting ∧ nfa.containsAccepting set = .ok accepting ∧
      (accepting = true ↔ ∃ member ∈ set, nfa.Accepting member)
  /-- Some word leads to every state. -/
  reachable : ∀ id < dfa.size, dfa.Reachable id

theorem Dfa.origin_eq_ok_iff {id : StateId} {set : StateSet} :
    dfa.origin id = .ok (some set) ↔ dfa.StandsFor id set := by
  constructor
  · intro success
    obtain ⟨state, read, origin⟩ := bind_eq_ok_iff.mp success
    exact ⟨state, StateTable.read_eq_ok_iff.mp read, Except.ok.inj origin⟩
  · rintro ⟨state, read, origin⟩
    exact bind_eq_ok_iff.mpr ⟨state, StateTable.read_eq_ok_iff.mpr read, congrArg Except.ok origin⟩

/-- An accessible set is empty only if there are no states, and then no other set is accessible. -/
theorem Nfa.AccessibleSet.eq_empty_iff (inRange : nfa.InRange) {set : StateSet}
    (accessible : nfa.AccessibleSet set) : set = ∅ ↔ nfa.size = 0 := by
  induction accessible with
  | start success =>
    obtain ⟨start, startSuccess, -, -, starts⟩ := Nfa.startSet_eq_ok inRange
    obtain rfl := Except.ok.inj (success.symm.trans startSuccess)
    constructor
    · rintro rfl
      by_contra inhabited
      exact SortedSet.not_mem_empty _ ((starts StateId.start).mpr ⟨Nat.pos_of_ne_zero inhabited, .nil _⟩)
    · exact fun none => SortedSet.eq_empty_iff.mpr (by simp [starts, none])
  | @move set next symbol _ moves ih =>
    have inhabited : next ≠ ∅ := (Nfa.moves_iff_advance.mp moves).2
    refine iff_of_false inhabited fun none => ?_
    obtain rfl := ih.mpr none
    rw [Nfa.moves_iff_advance, Nfa.advance_empty] at moves
    exact inhabited (Except.ok.inj moves.1).symm

namespace SubsetAutomaton

/-- Moves that lead to a set are transitions that lead to its state. -/
theorem exists_reachable (subsets : SubsetAutomaton nfa dfa) {set : StateSet}
    (accessible : nfa.AccessibleSet set) : ∃ id, dfa.Reachable id ∧ dfa.StandsFor id set := by
  induction accessible with
  | start success =>
    obtain ⟨start, startSuccess, stands⟩ := subsets.first
    obtain rfl := Except.ok.inj (success.symm.trans startSuccess)
    exact ⟨StateId.start, .start dfa, stands⟩
  | move _ moves ih =>
    obtain ⟨id, reachable, stands⟩ := ih
    obtain ⟨target, step, targetStands⟩ := subsets.exists_next? stands moves
    exact ⟨target, reachable.next step, targetStands⟩

theorem reachable (subsets : SubsetAutomaton nfa dfa) {id : StateId} (owned : id < dfa.size) :
    dfa.Reachable id := by
  obtain ⟨set, stands⟩ := subsets.labelled id owned
  obtain ⟨other, reachable, otherStands⟩ := subsets.exists_reachable (subsets.accessible id set stands)
  exact subsets.distinct other id set otherStands stands ▸ reachable

theorem standsFor_empty_iff (subsets : SubsetAutomaton nfa dfa) (nfaInRange : nfa.InRange) {id : StateId} :
    dfa.StandsFor id ∅ ↔ nfa.size = 0 ∧ id = StateId.start := by
  obtain ⟨start, success, startStands⟩ := subsets.first
  have start_eq_empty_iff := (Nfa.AccessibleSet.start success).eq_empty_iff nfaInRange
  constructor
  · intro stands
    have none := ((subsets.accessible id ∅ stands).eq_empty_iff nfaInRange).mp rfl
    obtain rfl := start_eq_empty_iff.mpr none
    exact ⟨none, subsets.distinct id StateId.start ∅ stands startStands⟩
  · rintro ⟨none, rfl⟩
    exact start_eq_empty_iff.mpr none ▸ startStands

/-- A transition is there when the step leads anywhere, and leads to its closure. -/
theorem exists_step (subsets : SubsetAutomaton nfa dfa) (nfaInRange : nfa.InRange) {id : StateId} {set : StateSet}
    (stands : dfa.StandsFor id set) (symbol : Symbol) :
    ∃ stepped closed, nfa.step set symbol = .ok stepped ∧ nfa.closure stepped = .ok closed ∧
      ((∃ target, dfa.next? id symbol = some target) ↔ stepped ≠ ∅) ∧
      ∀ target, dfa.next? id symbol = some target → dfa.StandsFor target closed := by
  have owned := ((subsets.accessible id set stands).valid nfaInRange).1
  obtain ⟨stepped, step, steppedOwned, -⟩ := Nfa.step_eq_ok nfaInRange owned symbol
  obtain ⟨closed, close, -⟩ := Nfa.closure_eq_ok nfaInRange steppedOwned
  have moves_iff (reached : StateSet) : nfa.Moves set symbol reached ↔ stepped ≠ ∅ ∧ closed = reached := by
    simp [Nfa.Moves, step, close]
  refine ⟨stepped, closed, step, close, ⟨?_, fun inhabited => ?_⟩, fun target next => ?_⟩
  · rintro ⟨target, next⟩
    obtain ⟨reached, moves, -⟩ := subsets.sound id set symbol target stands next
    exact ((moves_iff reached).mp moves).1
  · exact subsets.complete id set symbol closed stands ((moves_iff closed).mpr ⟨inhabited, rfl⟩)
  · obtain ⟨reached, moves, targetStands⟩ := subsets.sound id set symbol target stands next
    obtain ⟨-, rfl⟩ := (moves_iff reached).mp moves
    exact targetStands

/-- Whether a state accepts is whether its set has an accepting member. -/
theorem exists_accepting (subsets : SubsetAutomaton nfa dfa) (nfaInRange : nfa.InRange) {id : StateId}
    {set : StateSet} (stands : dfa.StandsFor id set) :
    ∃ accepting, dfa.isAccepting id = .ok accepting ∧ nfa.containsAccepting set = .ok accepting ∧
      (accepting = true ↔ ∃ member ∈ set, nfa.Accepting member) := by
  obtain ⟨accepting, read, accepts⟩ := Dfa.isAccepting_eq_ok stands.lt
  obtain ⟨found, search, finds⟩ :=
    Nfa.containsAccepting_eq_ok ((subsets.accessible id set stands).valid nfaInRange).1
  have members := accepts.trans (subsets.accepting id set stands)
  obtain rfl : accepting = found := Bool.eq_iff_iff.mpr (members.trans finds.symm)
  exact ⟨accepting, read, search, finds⟩

theorem accessibleSubsets (subsets : SubsetAutomaton nfa dfa) (nfaInRange : nfa.InRange) :
    AccessibleSubsets nfa dfa where
  start := by
    obtain ⟨start, success, stands⟩ := subsets.first
    exact ⟨start, success, Dfa.origin_eq_ok_iff.mpr stands⟩
  closed id owned := by
    obtain ⟨set, stands⟩ := subsets.labelled id owned
    exact ⟨set, Dfa.origin_eq_ok_iff.mpr stands, ((subsets.accessible id set stands).valid nfaInRange).2⟩
  distinct p q set pOrigin qOrigin :=
    subsets.distinct p q set (Dfa.origin_eq_ok_iff.mp pOrigin) (Dfa.origin_eq_ok_iff.mp qOrigin)
  empty _ := Dfa.origin_eq_ok_iff.trans (subsets.standsFor_empty_iff nfaInRange)
  accessible set := by
    simp only [Dfa.origin_eq_ok_iff]
    constructor
    · rintro ⟨id, stands⟩
      exact subsets.accessible id set stands
    · intro accessible
      obtain ⟨id, -, stands⟩ := subsets.exists_reachable accessible
      exact ⟨id, stands⟩
  transition id set symbol origin := by
    have stands := Dfa.origin_eq_ok_iff.mp origin
    obtain ⟨stepped, closed, step, close, leads, ends⟩ := subsets.exists_step nfaInRange stands symbol
    refine ⟨stepped, closed, step, close, ?_⟩
    simp only [dfa.transition_eq_ok stands.lt, Except.ok.injEq, Dfa.origin_eq_ok_iff]
    exact ⟨leads, ends⟩
  accepting _ _ origin := subsets.exists_accepting nfaInRange (Dfa.origin_eq_ok_iff.mp origin)
  reachable _ := subsets.reachable

end SubsetAutomaton

/-- The construction goes through, with and without a table of the numbers of the sets, and makes the automaton
of the accessible sets. -/
theorem determinize_gives_accessible_subsets (inRange : nfa.InRange) :
    ∃ dfa, Worklist.determinize nfa = .ok dfa ∧ nfa.determinize = .ok dfa ∧ AccessibleSubsets nfa dfa := by
  obtain ⟨dfa, success, subsets⟩ := Nfa.determinize_eq_ok inRange
  have table : Worklist.determinize nfa = .ok dfa := by
    rw [Worklist.determinize_eq inRange, success, Except.mapError]
  exact ⟨dfa, table, success, subsets.accessibleSubsets inRange⟩

/-- A set that is met again when it is expanded gets a transition to itself. -/
theorem determinize_gives_accessible_subsets_of_loop :
    ∃ nfa : Nfa, nfa.InRange ∧ ∃ dfa, nfa.determinize = .ok dfa ∧
      ∃ id, dfa.origin id = .ok (some (.ofList [0, 1])) ∧ dfa.transition id 'a' = .ok (some id) := by
  let first : NfaState := { letters := (∅ : SortedMap Symbol StateSet).insert 'a' (.ofList [0, 1]) }
  let second : NfaState := { accepting := true }
  let nfa : Nfa := ⟨#[first, second]⟩
  have inRange : nfa.InRange := by decide
  have leaves : nfa.Moves (.ofList [0]) 'a' (.ofList [0, 1]) := ⟨.ofList [0, 1], rfl, by decide, rfl⟩
  have step : nfa.step (.ofList [0, 1]) 'a' = .ok (.ofList [0, 1]) := rfl
  have close : nfa.closure (.ofList [0, 1]) = .ok (.ofList [0, 1]) := rfl
  obtain ⟨dfa, -, success, subsets⟩ := determinize_gives_accessible_subsets inRange
  obtain ⟨id, origin⟩ := (subsets.accessible (.ofList [0, 1])).mpr (.move (.start rfl) leaves)
  obtain ⟨stepped, closed, sameStep, sameClose, leads, ends⟩ := subsets.transition id _ 'a' origin
  obtain rfl := Except.ok.inj (step.symm.trans sameStep)
  obtain rfl := Except.ok.inj (close.symm.trans sameClose)
  obtain ⟨target, transition⟩ := leads.mpr (by decide)
  obtain rfl := subsets.distinct target id _ (ends target transition) origin
  exact ⟨nfa, inRange, dfa, success, target, origin, transition⟩

end PatternAutomata
