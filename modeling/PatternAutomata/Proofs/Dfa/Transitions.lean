import PatternAutomata.Dfa.Walk

/-! # What operations do to transitions and acceptance

A state that the automaton has can be read, a new state changes nothing for the others, and adding a
transition between states of the automaton changes where one symbol leads from one state.
-/

namespace PatternAutomata.Dfa

variable {dfa : Dfa}

/-- A state has a set of states of another automaton as its origin. -/
def StandsFor (dfa : Dfa) (id : StateId) (set : StateSet) : Prop :=
  ∃ state, dfa.states[id]? = some state ∧ state.origin = some set

theorem state_of_lt {id : StateId} (owned : id < dfa.size) : dfa.state id = .ok dfa.states[id] :=
  StateTable.read_of_lt owned

theorem getElem?_of_lt {id : StateId} (owned : id < dfa.size) : dfa.states[id]? = some dfa.states[id] :=
  Array.getElem?_eq_getElem owned

theorem lt_of_getElem? {id : StateId} {state : DfaState} (read : dfa.states[id]? = some state) :
    id < dfa.size :=
  (Array.getElem?_eq_some_iff.mp read).1

theorem Accepting.lt {id : StateId} (accepting : dfa.Accepting id) : id < dfa.size := by
  obtain ⟨state, read, _⟩ := accepting
  exact lt_of_getElem? read

theorem StandsFor.lt {id : StateId} {set : StateSet} (stands : dfa.StandsFor id set) : id < dfa.size := by
  obtain ⟨state, read, _⟩ := stands
  exact lt_of_getElem? read

theorem StandsFor.unique {id : StateId} {first second : StateSet} (left : dfa.StandsFor id first)
    (right : dfa.StandsFor id second) : first = second := by
  obtain ⟨state, read, origin⟩ := left
  obtain ⟨other, otherRead, otherOrigin⟩ := right
  obtain rfl := Option.some.inj (read.symm.trans otherRead)
  exact Option.some.inj (origin.symm.trans otherOrigin)

theorem lt_of_next? {source target : StateId} {symbol : Symbol}
    (next : dfa.next? source symbol = some target) : source < dfa.size := by
  obtain ⟨state, read, _⟩ := Option.bind_eq_some_iff.mp next
  exact lt_of_getElem? read

/-- Whether all transitions stay inside can be told by looking at every entry. -/
theorem inRange_iff :
    dfa.InRange ↔ ∀ state ∈ dfa.states.toList, ∀ entry ∈ state.transitions.entries, entry.2 < dfa.size := by
  constructor
  · intro inRange state member entry entryMember
    obtain ⟨source, read⟩ := List.mem_iff_getElem?.mp member
    rw [Array.getElem?_toList] at read
    apply inRange source entry.1 entry.2
    simpa [next?, read] using SortedMap.get?_eq_some_iff.mpr entryMember
  · intro inside source symbol target next
    obtain ⟨state, read, found⟩ := Option.bind_eq_some_iff.mp next
    have member := Array.mem_toList_iff.mpr (Array.mem_of_getElem? read)
    exact inside state member _ (SortedMap.get?_eq_some_iff.mp found)

instance (dfa : Dfa) : Decidable dfa.InRange := decidable_of_iff _ inRange_iff.symm

theorem mem_alphabet_iff_next? {symbol : Symbol} :
    symbol ∈ dfa.alphabet ↔ ∃ source target, dfa.next? source symbol = some target := by
  rw [mem_alphabet]
  constructor
  · rintro ⟨state, member, key⟩
    obtain ⟨source, read⟩ := Array.mem_iff_getElem?.mp member
    cases found : state.transitions.get? symbol with
    | none => exact absurd key (SortedMap.get?_eq_none_iff.mp found)
    | some target => exact ⟨source, target, by simpa [next?, read] using found⟩
  · rintro ⟨source, target, next⟩
    obtain ⟨state, read, found⟩ := Option.bind_eq_some_iff.mp next
    refine ⟨state, Array.mem_of_getElem? read, Decidable.not_not.mp fun absent => ?_⟩
    rw [SortedMap.get?_eq_none_iff.mpr absent] at found
    cases found

theorem walk?_lt (inRange : dfa.InRange) {source target : StateId} (owned : source < dfa.size)
    {word : List Symbol} (walk : dfa.walk? source word = some target) : target < dfa.size := by
  induction word generalizing source with
  | nil => exact Option.some.inj walk ▸ owned
  | cons symbol rest ih =>
    obtain ⟨next, step, later⟩ := Option.bind_eq_some_iff.mp walk
    exact ih (inRange source symbol next step) later

theorem isAccepting_eq_ok {id : StateId} (owned : id < dfa.size) :
    ∃ accepting, dfa.isAccepting id = .ok accepting ∧ (accepting = true ↔ dfa.Accepting id) := by
  refine ⟨dfa.states[id].accepting, ?_, ?_⟩
  · simp only [isAccepting, state_of_lt owned, bind, Except.bind]
  · simp [Accepting, getElem?_of_lt owned]

theorem getElem?_push (state : DfaState) (id : StateId) :
    (dfa.push state).states[id]? = if id = dfa.size then some state else dfa.states[id]? :=
  Array.getElem?_push

theorem next?_push (state : DfaState) (id : StateId) (symbol : Symbol) :
    (dfa.push state).next? id symbol =
      if id = dfa.size then state.transitions.get? symbol else dfa.next? id symbol := by
  simp only [next?, getElem?_push]
  split <;> rfl

theorem accepting_push (state : DfaState) (id : StateId) :
    (dfa.push state).Accepting id ↔ if id = dfa.size then state.accepting = true else dfa.Accepting id := by
  simp only [Accepting, getElem?_push]
  split <;> simp

theorem standsFor_push (state : DfaState) (id : StateId) (set : StateSet) :
    (dfa.push state).StandsFor id set ↔ id = dfa.size ∧ state.origin = some set ∨ dfa.StandsFor id set := by
  simp only [StandsFor, getElem?_push]
  split
  · rename_i new
    subst new
    have absent : dfa.states[dfa.size]? = none := Array.getElem?_eq_none (Nat.le_refl _)
    simp [absent]
  · rename_i notNew
    simp [notNew]

/-- Changing a state that the automaton has changes this state only. -/
theorem update_eq_ok {id : StateId} (owned : id < dfa.size) (change : DfaState → DfaState) :
    ∃ updated, dfa.update id change = .ok updated ∧ updated.size = dfa.size ∧
      ∀ other : StateId, updated.states[other]? =
        (dfa.states[other]?).map fun state => if other = id then change state else state := by
  obtain ⟨states, changed⟩ : ∃ states, StateTable.update dfa.states id change = .ok states :=
    ⟨_, StateTable.update_eq_ok_iff.mpr ⟨owned, rfl⟩⟩
  have success : dfa.update id change = .ok ⟨states⟩ := update_eq_ok_iff.mpr changed
  exact ⟨⟨states⟩, success, size_update success, getElem?_update success⟩

/-- A change that leaves the origin alone leaves what states stand for. -/
theorem standsFor_update {updated : Dfa} {id : StateId} {change : DfaState → DfaState}
    (success : dfa.update id change = .ok updated) (keeps : ∀ state, (change state).origin = state.origin)
    (other : StateId) (set : StateSet) : updated.StandsFor other set ↔ dfa.StandsFor other set := by
  rw [StandsFor, StandsFor, getElem?_update success]
  cases dfa.states[other]? with
  | none => simp
  | some state =>
    by_cases same : other = id
    · simp [same, keeps]
    · simp [same]

theorem update_of_le {id : StateId} (foreign : dfa.size ≤ id) (change : DfaState → DfaState) :
    dfa.update id change = .error (.noSuchState dfa.size id) := by
  rw [Dfa.update, StateTable.update_of_le foreign]
  rfl

theorem lt_of_addTransition {source target : StateId} {symbol : Symbol} {updated : Dfa}
    (success : dfa.addTransition source symbol target = .ok updated) :
    source < dfa.size ∧ target < dfa.size := by
  unfold addTransition at success
  split at success
  · rename_i reached
    obtain ⟨owned, -⟩ := StateTable.update_eq_ok_iff.mp (update_eq_ok_iff.mp success)
    exact ⟨owned, reached⟩
  · cases success

/-- Adding a transition between states of the automaton changes where this symbol leads from this
state, and nothing else. -/
theorem addTransition_eq_ok {source target : StateId} (symbol : Symbol) (sourceOwned : source < dfa.size)
    (targetOwned : target < dfa.size) :
    ∃ updated, dfa.addTransition source symbol target = .ok updated ∧ updated.size = dfa.size ∧
      (∀ id, updated.Accepting id ↔ dfa.Accepting id) ∧
      (∀ id set, updated.StandsFor id set ↔ dfa.StandsFor id set) ∧
      ∀ id other, updated.next? id other =
        if id = source ∧ other = symbol then some target else dfa.next? id other := by
  obtain ⟨updated, success, sameSize, reads⟩ := update_eq_ok sourceOwned fun state =>
    { state with transitions := state.transitions.insert symbol target }
  refine ⟨updated, ?_, sameSize, fun id => ?_, standsFor_update success fun _ => rfl, fun id other => ?_⟩
  · rw [addTransition, if_pos targetOwned, success]
  · simp only [Accepting, reads, Option.map_eq_some_iff]
    by_cases same : id = source
    · subst same
      simp [getElem?_of_lt sourceOwned]
    · simp [same]
  · simp only [next?, reads]
    by_cases same : id = source
    · subst same
      by_cases sameSymbol : other = symbol
      · simp [getElem?_of_lt sourceOwned, sameSymbol]
      · simp [getElem?_of_lt sourceOwned, sameSymbol, Ne.symm sameSymbol]
    · simp [same]

theorem InRange.addState (inRange : dfa.InRange) (accepting : Bool) : (dfa.addState accepting).InRange := by
  intro source symbol target next
  rw [Dfa.addState, next?_push] at next
  rw [Dfa.addState, size_push]
  split at next
  · cases next
  · exact Nat.lt_succ_of_lt (inRange source symbol target next)

theorem InRange.addTransition (inRange : dfa.InRange) {source target : StateId} (symbol : Symbol)
    (sourceOwned : source < dfa.size) (targetOwned : target < dfa.size) :
    ∃ updated, dfa.addTransition source symbol target = .ok updated ∧ updated.InRange := by
  obtain ⟨updated, success, sameSize, -, -, nexts⟩ := addTransition_eq_ok symbol sourceOwned targetOwned
  refine ⟨updated, success, fun id other next leads => ?_⟩
  rw [nexts] at leads
  rw [sameSize]
  split at leads
  · exact Option.some.inj leads ▸ targetOwned
  · exact inRange id other next leads

theorem InRange.setAccepting (inRange : dfa.InRange) {id : StateId} (owned : id < dfa.size) (accepting : Bool) :
    ∃ updated, dfa.setAccepting id accepting = .ok updated ∧ updated.InRange := by
  obtain ⟨updated, success, sameSize, reads⟩ := update_eq_ok owned fun state => { state with accepting }
  refine ⟨updated, success, fun source symbol target leads => ?_⟩
  rw [sameSize]
  apply inRange source symbol target
  rw [next?, reads, Option.bind_map] at leads
  rw [next?, ← leads]
  congr 1
  funext state
  simp only [Function.comp_apply]
  split <;> rfl

end PatternAutomata.Dfa
