import PatternAutomata.Proofs.Dfa.Quotient
import PatternAutomata.Proofs.Dfa.SubsetAutomaton
import PatternAutomata.Proofs.Nfa.Alphabet
import PatternAutomata.Proofs.Nfa.Edges

/-! # Deterministic automata with epsilon loops

A nondeterministic automaton may be a copy of a deterministic one, under other numbers, with an epsilon edge
from every state to itself and nothing else (`Nfa.LoopedCopy`). Simulation of such a copy is always in a single
state, the one that the walk of the original leads to (`LoopedCopy.moves_iff`). So the subset construction
undoes the copying: its states are the reachable states of the original, under other numbers
(`LoopedCopy.exists_reachableIsomorphism`).
-/

namespace PatternAutomata.Nfa

/-- The states are those of a deterministic automaton under other numbers. The only epsilon edge of a state
is its loop, and a letter leads only to where it leads in the deterministic automaton. -/
structure LoopedCopy (nfa : Nfa) (dfa : Dfa) (map : StateId → StateId) : Prop where
  start : map StateId.start = StateId.start
  states : Set.BijOn map {id | id < dfa.size} {id | id < nfa.size}
  state : ∀ id < dfa.size, ∃ state, nfa.states[map id]? = some state ∧
    (state.accepting = true ↔ dfa.Accepting id) ∧ state.epsilon = .ofList [map id] ∧
    ∀ symbol, state.letters.get? symbol = (dfa.next? id symbol).map fun target => .ofList [map target]

namespace LoopedCopy

variable {nfa : Nfa} {dfa : Dfa} {map : StateId → StateId} {id : StateId}

theorem edge_none_iff (copy : LoopedCopy nfa dfa map) (owned : id < dfa.size) {target : StateId} :
    nfa.Edge (map id) none target ↔ target = map id := by
  obtain ⟨state, read, -, loop, -⟩ := copy.state id owned
  simp [Nfa.edge_none_iff, read, loop]

theorem edge_some_iff (copy : LoopedCopy nfa dfa map) (owned : id < dfa.size) {symbol : Symbol}
    {target : StateId} :
    nfa.Edge (map id) (some symbol) target ↔ ∃ next, dfa.next? id symbol = some next ∧ target = map next := by
  obtain ⟨state, read, -, -, letters⟩ := copy.state id owned
  simp only [Nfa.edge_some_iff, read, Option.some.injEq, exists_eq_left', NfaState.targets, letters]
  cases dfa.next? id symbol with
  | none => simp
  | some next => simp

theorem accepting_iff (copy : LoopedCopy nfa dfa map) (owned : id < dfa.size) :
    nfa.Accepting (map id) ↔ dfa.Accepting id := by
  obtain ⟨state, read, accepting, -⟩ := copy.state id owned
  simp [Nfa.Accepting, read, accepting]

/-- Where every listed letter leads somewhere, the edges and the accepting states make a copy. -/
theorem of_edges (leads : nfa.LettersLead) (start : map StateId.start = StateId.start)
    (states : Set.BijOn map {id | id < dfa.size} {id | id < nfa.size})
    (accepting : ∀ id < dfa.size, (nfa.Accepting (map id) ↔ dfa.Accepting id))
    (loops : ∀ id < dfa.size, ∀ target, nfa.Edge (map id) none target ↔ target = map id)
    (letters : ∀ id < dfa.size, ∀ symbol target, nfa.Edge (map id) (some symbol) target ↔
      ∃ next, dfa.next? id symbol = some next ∧ target = map next) : LoopedCopy nfa dfa map := by
  refine ⟨start, states, fun id owned => ?_⟩
  obtain ⟨state, read⟩ : ∃ state, nfa.states[map id]? = some state :=
    ⟨_, Nfa.getElem?_of_lt (states.mapsTo owned)⟩
  have into (symbol : Symbol) (target : StateId) :
      target ∈ state.targets symbol ↔ ∃ next, dfa.next? id symbol = some next ∧ target = map next := by
    rw [← letters id owned, Nfa.edge_some_iff, read]
    simp
  refine ⟨state, read, ?_, ?_, fun symbol => ?_⟩
  · rw [← accepting id owned, Nfa.Accepting, read]
    simp
  · apply SortedSet.ext_mem
    intro target
    rw [SortedSet.mem_ofList, List.mem_singleton, ← loops id owned, Nfa.edge_none_iff, read]
    simp
  · cases step : dfa.next? id symbol with
    | none =>
      have stateLeads := leads _ (Array.mem_of_getElem? read)
      exact stateLeads.get?_letters_eq_none fun target => by simp [into, step]
    | some next =>
      have member := (into symbol (map next)).mpr ⟨next, step, rfl⟩
      rw [NfaState.get?_letters_of_mem member, Option.map_some, Option.some.injEq]
      apply SortedSet.ext_mem
      intro target
      simp [into, step]

theorem inRange (copy : LoopedCopy nfa dfa map) (inRange : dfa.InRange) : nfa.InRange := by
  intro source label target edge
  obtain ⟨id, owned, rfl⟩ := copy.states.surjOn edge.source_lt
  cases label with
  | none =>
    obtain rfl := (copy.edge_none_iff owned).mp edge
    exact copy.states.mapsTo owned
  | some symbol =>
    obtain ⟨next, step, rfl⟩ := (copy.edge_some_iff owned).mp edge
    exact copy.states.mapsTo (inRange id symbol next step)

/-- Without consuming anything, a state leads to itself only. -/
theorem path_nil_iff (copy : LoopedCopy nfa dfa map) (owned : id < dfa.size) {target : StateId} :
    nfa.Path (map id) [] target ↔ target = map id := by
  constructor
  · intro path
    generalize begins : map id = source at path
    generalize nothing : ([] : List Symbol) = word at path
    induction path with
    | nil _ => rfl
    | epsilon edge _ ih =>
      subst begins
      obtain rfl := (copy.edge_none_iff owned).mp edge
      exact ih rfl nothing
    | letter _ _ _ => cases nothing
  · rintro rfl
    exact .nil _

theorem startSet_eq_ok (copy : LoopedCopy nfa dfa map) (inhabited : 0 < dfa.size) (inRange : dfa.InRange) :
    nfa.startSet = .ok (.ofList [map StateId.start]) := by
  obtain ⟨set, success, -, -, starts⟩ := Nfa.startSet_eq_ok (copy.inRange inRange)
  have nonempty : 0 < nfa.size := Nat.lt_of_le_of_lt (Nat.zero_le _) (copy.states.mapsTo inhabited)
  have here : StateId.start < dfa.size := inhabited
  have alone : set = .ofList [map StateId.start] := SortedSet.ext_mem fun state => by
    rw [← copy.start] at starts
    simp [starts, nonempty, copy.path_nil_iff here]
  rw [success, alone]

/-- From a single state, simulation moves to where the transition leads. -/
theorem moves_iff (copy : LoopedCopy nfa dfa map) (inRange : dfa.InRange) (owned : id < dfa.size)
    {symbol : Symbol} {next : StateSet} :
    nfa.Moves (.ofList [map id]) symbol next ↔
      ∃ target, dfa.next? id symbol = some target ∧ next = .ofList [map target] := by
  have inside : nfa.Owns (.ofList [map id]) := by
    intro state member
    obtain rfl : state = map id := by simpa using member
    exact copy.states.mapsTo owned
  obtain ⟨reached, success, -, -, reaches⟩ := Nfa.advance_eq_ok (copy.inRange inRange) inside symbol
  rw [Nfa.moves_iff_advance, success, Except.ok.injEq]
  cases step : dfa.next? id symbol with
  | none =>
    have nowhere : reached = ∅ := SortedSet.eq_empty_iff.mpr fun state => by
      simp [reaches, copy.edge_some_iff owned, step]
    rw [nowhere]
    simp [eq_comm]
  | some target =>
    have targetOwned := inRange id symbol target step
    have alone : reached = .ofList [map target] := SortedSet.ext_mem fun state => by
      simp [reaches, copy.edge_some_iff owned, step, copy.path_nil_iff targetOwned]
    have inhabited : reached ≠ ∅ := by
      rw [ne_eq, SortedSet.eq_empty_iff, alone]
      exact fun none => none (map target) (by simp)
    simp only [Option.some.injEq, exists_eq_left', alone.symm]
    constructor
    · rintro ⟨rfl, -⟩
      rfl
    · rintro rfl
      exact ⟨rfl, inhabited⟩

/-- Simulation is always in a single state, which is reachable in the original. -/
theorem eq_singleton_of_accessible (copy : LoopedCopy nfa dfa map) (inhabited : 0 < dfa.size)
    (inRange : dfa.InRange) {set : StateSet} (accessible : nfa.AccessibleSet set) :
    ∃ id, dfa.Reachable id ∧ set = .ofList [map id] := by
  induction accessible with
  | start success =>
    rw [copy.startSet_eq_ok inhabited inRange] at success
    exact ⟨StateId.start, .start dfa, (Except.ok.inj success).symm⟩
  | move _ moves ih =>
    obtain ⟨id, reachable, rfl⟩ := ih
    obtain ⟨target, step, rfl⟩ := (copy.moves_iff inRange (reachable.lt inhabited inRange)).mp moves
    exact ⟨target, reachable.next step, rfl⟩

variable {part : Dfa}

/-- A state stands for a single state at most. -/
theorem eq_of_standsFor (copy : LoopedCopy nfa dfa map) {first second state : StateId}
    (firstOwned : first < dfa.size) (secondOwned : second < dfa.size)
    (left : part.StandsFor state (.ofList [map first])) (right : part.StandsFor state (.ofList [map second])) :
    first = second :=
  copy.states.injOn firstOwned secondOwned (SortedSet.ofList_singleton_inj.mp (left.unique right))

/-- Where a walk of the original leads, some state of the construction stands for it. -/
theorem exists_standsFor_of_walk? (copy : LoopedCopy nfa dfa map) (inRange : dfa.InRange)
    (subsets : SubsetAutomaton nfa part) {word : List Symbol} {state target : StateId} (owned : id < dfa.size)
    (stands : part.StandsFor state (.ofList [map id])) (walk : dfa.walk? id word = some target) :
    ∃ reached, part.StandsFor reached (.ofList [map target]) := by
  induction word generalizing id state with
  | nil =>
    obtain rfl := Option.some.inj walk
    exact ⟨state, stands⟩
  | cons symbol rest ih =>
    obtain ⟨next, step, later⟩ := Option.bind_eq_some_iff.mp walk
    have moves := (copy.moves_iff inRange owned).mpr ⟨next, step, rfl⟩
    obtain ⟨middle, -, middleStands⟩ := subsets.exists_next? stands moves
    exact ih (inRange id symbol next step) middleStands later

/-- The subset construction of a copy gives the reachable part of the original, under other numbers. -/
theorem exists_reachableIsomorphism (copy : LoopedCopy nfa dfa map) (inhabited : 0 < dfa.size)
    (inRange : dfa.InRange) (subsets : SubsetAutomaton nfa part) :
    ∃ original, part.ReachableIsomorphism dfa original := by
  have known (state : StateId) (owned : state < part.size) :
      ∃ id, dfa.Reachable id ∧ part.StandsFor state (.ofList [map id]) := by
    obtain ⟨set, stands⟩ := subsets.labelled state owned
    obtain ⟨id, reachable, rfl⟩ :=
      copy.eq_singleton_of_accessible inhabited inRange (subsets.accessible state set stands)
    exact ⟨id, reachable, stands⟩
  choose! original reachable stands using known
  have lt (state : StateId) (owned : state < part.size) : original state < dfa.size :=
    (reachable state owned).lt inhabited inRange
  -- a state that stands for a state of the original is sent to that one
  have sentTo {state id : StateId} (owned : id < dfa.size) (standsFor : part.StandsFor state (.ofList [map id])) :
      original state = id :=
    copy.eq_of_standsFor (lt state standsFor.lt) owned (stands state standsFor.lt) standsFor
  obtain ⟨start, startSuccess, startStands⟩ := subsets.first
  rw [copy.startSet_eq_ok inhabited inRange, Except.ok.injEq] at startSuccess
  subst startSuccess
  refine ⟨original, subsets.inRange, sentTo inhabited startStands, ⟨?_, ?_, ?_⟩, ?_, ?_⟩
  · exact fun state owned => reachable state owned
  · intro first firstOwned second secondOwned same
    have firstStands := stands first firstOwned
    rw [same] at firstStands
    exact subsets.distinct first second _ firstStands (stands second secondOwned)
  · rintro id ⟨word, walk⟩
    obtain ⟨state, standsFor⟩ := copy.exists_standsFor_of_walk? inRange subsets inhabited startStands walk
    exact ⟨state, standsFor.lt, sentTo (Dfa.walk?_lt inRange inhabited walk) standsFor⟩
  · intro state owned
    rw [subsets.accepting state _ (stands state owned), ← copy.accepting_iff (lt state owned)]
    simp
  · intro state owned symbol
    have moves {next : StateSet} : nfa.Moves (.ofList [map (original state)]) symbol next ↔ _ :=
      copy.moves_iff inRange (lt state owned)
    cases step : dfa.next? (original state) symbol with
    | none =>
      cases found : part.next? state symbol with
      | none => rfl
      | some target =>
        obtain ⟨next, moved, -⟩ := subsets.sound state _ symbol target (stands state owned) found
        obtain ⟨other, otherStep, -⟩ := moves.mp moved
        cases step.symm.trans otherStep
    | some target =>
      obtain ⟨reached, found, reachedStands⟩ :=
        subsets.exists_next? (stands state owned) (moves.mpr ⟨target, step, rfl⟩)
      rw [found, Option.map_some, sentTo (inRange _ symbol target step) reachedStands]

end LoopedCopy

end PatternAutomata.Nfa
