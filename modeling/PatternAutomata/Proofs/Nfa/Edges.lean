import PatternAutomata.Proofs.Nfa.Closure
import PatternAutomata.Proofs.Trace

/-! # What operations do to edges and acceptance

An operation on an automaton is described by the edges that it adds and by the acceptance that it
changes. `Extends old new edge` says that states and edges were added and acceptance was kept; it
composes, so the effect of a run of operations is the union of what each of them adds.
-/

namespace PatternAutomata.Nfa

variable {nfa : Nfa}

/-- States have been added, and edges, but what the old states accept is what is accepted. -/
structure Extends (old new : Nfa) (edge : EdgeRelation) : Prop where
  size_le : old.size ≤ new.size
  edges : new.Edge = old.Edge ⊔ edge
  accepting : ∀ id, new.Accepting id ↔ old.Accepting id

namespace Extends

variable {old middle new : Nfa} {first second : EdgeRelation}

theorem refl (nfa : Nfa) : Extends nfa nfa ⊥ := ⟨Nat.le_refl _, sup_bot_eq _ |>.symm, fun _ => Iff.rfl⟩

theorem trans (left : Extends old middle first) (right : Extends middle new second) :
    Extends old new (first ⊔ second) where
  size_le := Nat.le_trans left.size_le right.size_le
  edges := by rw [right.edges, left.edges, sup_assoc]
  accepting id := (right.accepting id).trans (left.accepting id)

theorem old_le (adds : Extends old new first) : old.Edge ≤ new.Edge := adds.edges ▸ le_sup_left

theorem added_le (adds : Extends old new first) : first ≤ new.Edge := adds.edges ▸ le_sup_right

theorem inRange (adds : Extends old new first) (inRange : old.InRange)
    (inside : ∀ source label target, first source label target → target < new.size) : new.InRange := by
  intro source label target edge
  rw [adds.edges] at edge
  rcases edge with before | added
  · exact Nat.lt_of_lt_of_le (inRange source label target before) adds.size_le
  · exact inside source label target added

theorem inRange_single {source target : StateId} {label : Option Symbol}
    (adds : Extends old new (.single source label target)) (inRange : old.InRange)
    (inside : target < new.size) : new.InRange := by
  refine adds.inRange inRange ?_
  rintro _ _ _ ⟨rfl, rfl, rfl⟩
  exact inside

end Extends

theorem edge_iff {source target : StateId} {label : Option Symbol} :
    nfa.Edge source label target ↔ ∃ state, nfa.states[source]? = some state ∧
      match label with
      | none => target ∈ state.epsilon
      | some symbol => target ∈ state.targets symbol := by
  cases label with
  | none => exact edge_none_iff
  | some symbol => exact edge_some_iff

theorem Edge.source_lt {source target : StateId} {label : Option Symbol}
    (edge : nfa.Edge source label target) : source < nfa.size := by
  cases edge with
  | epsilon read _ => exact (Array.getElem?_eq_some_iff.mp read).1
  | letter read _ => exact (Array.getElem?_eq_some_iff.mp read).1

theorem getElem?_addState {id : StateId} :
    nfa.addState.states[id]? = if id = nfa.size then some {} else nfa.states[id]? :=
  Array.getElem?_push

theorem extends_addState (nfa : Nfa) : Extends nfa nfa.addState ⊥ where
  size_le := by simp
  edges := by
    rw [sup_bot_eq]
    funext source label target
    simp only [edge_iff, getElem?_addState, eq_iff_iff]
    split
    · rename_i fresh
      have absent : nfa.states[source]? = none := by simp [fresh, size]
      cases label <;> simp [absent, NfaState.targets]
    · rfl
  accepting id := by
    simp only [Accepting, getElem?_addState]
    split
    · rename_i fresh
      have absent : nfa.states[id]? = none := by simp [fresh, size]
      simp [absent]
    · rfl

theorem getElem?_ofSize {n : Nat} {id : StateId} {state : NfaState}
    (read : (ofSize n).states[id]? = some state) : state = {} := by
  obtain ⟨owned, same⟩ := Array.getElem?_eq_some_iff.mp read
  exact same.symm.trans (Array.getElem_replicate owned)

theorem edge_ofSize (n : Nat) : (ofSize n).Edge = ⊥ := by
  funext source label target
  apply eq_false
  intro edge
  obtain ⟨state, read, member⟩ := edge_iff.mp edge
  obtain rfl := getElem?_ofSize read
  cases label with
  | none => exact SortedSet.not_mem_empty target member
  | some symbol => exact SortedSet.not_mem_empty target member

theorem not_accepting_ofSize (n : Nat) (id : StateId) : ¬ (ofSize n).Accepting id := by
  rintro ⟨state, read, accepting⟩
  obtain rfl := getElem?_ofSize read
  cases accepting

theorem update_eq_ok {id : StateId} (owned : id < nfa.size) (change : NfaState → NfaState) :
    ∃ updated, nfa.update id change = .ok updated ∧ updated.size = nfa.size ∧
      ∀ other : StateId, updated.states[other]? =
        (nfa.states[other]?).map fun state => if other = id then change state else state := by
  obtain ⟨states, changed⟩ : ∃ states, StateTable.update nfa.states id change = .ok states :=
    ⟨_, StateTable.update_eq_ok_iff.mpr ⟨owned, rfl⟩⟩
  have success : nfa.update id change = .ok ⟨states⟩ := update_eq_ok_iff.mpr changed
  exact ⟨⟨states⟩, success, size_update success, getElem?_update success⟩

theorem update_of_le {id : StateId} (foreign : nfa.size ≤ id) (change : NfaState → NfaState) :
    nfa.update id change = .error (.noSuchState nfa.size id) := by
  rw [Nfa.update, StateTable.update_of_le foreign]
  rfl

/-- Adding an epsilon edge between states of the automaton adds this edge only. -/
theorem addEpsilon_eq_ok {source target : StateId} (sourceOwned : source < nfa.size)
    (targetOwned : target < nfa.size) :
    ∃ updated, nfa.addEpsilon source target = .ok updated ∧ updated.size = nfa.size ∧
      Extends nfa updated (.single source none target) := by
  obtain ⟨updated, success, sameSize, reads⟩ :=
    update_eq_ok sourceOwned fun state => state.addEpsilon target
  refine ⟨updated, ?_, sameSize, sameSize.ge, ?_, fun id => ?_⟩
  · rw [addEpsilon, if_pos targetOwned, success]
  · funext s label t
    rw [eq_iff_iff]
    change updated.Edge s label t ↔ nfa.Edge s label t ∨ s = source ∧ label = none ∧ t = target
    simp only [edge_iff, reads, Option.map_eq_some_iff]
    by_cases same : s = source
    · subst same
      cases label <;> simp [getElem?_of_lt sourceOwned, NfaState.addEpsilon, NfaState.targets, or_comm]
    · simp [same]
  · simp only [Accepting, reads, Option.map_eq_some_iff]
    by_cases same : id = source
    · subst same
      simp [getElem?_of_lt sourceOwned, NfaState.addEpsilon]
    · simp [same]

theorem addLetter_eq_ok {source target : StateId} (symbol : Symbol) (sourceOwned : source < nfa.size)
    (targetOwned : target < nfa.size) :
    ∃ updated, nfa.addLetter source symbol target = .ok updated ∧ updated.size = nfa.size ∧
      Extends nfa updated (.single source (some symbol) target) := by
  obtain ⟨updated, success, sameSize, reads⟩ :=
    update_eq_ok sourceOwned fun state => state.addLetter symbol target
  refine ⟨updated, ?_, sameSize, sameSize.ge, ?_, fun id => ?_⟩
  · rw [addLetter, if_pos targetOwned, success]
  · funext s label t
    rw [eq_iff_iff]
    change updated.Edge s label t ↔ nfa.Edge s label t ∨ s = source ∧ label = some symbol ∧ t = target
    simp only [edge_iff, reads, Option.map_eq_some_iff]
    by_cases same : s = source
    · subst same
      cases label with
      | none => simp [getElem?_of_lt sourceOwned, NfaState.addLetter]
      | some other =>
        simp [getElem?_of_lt sourceOwned, NfaState.mem_targets_addLetter, or_comm]
    · simp [same]
  · simp only [Accepting, reads, Option.map_eq_some_iff]
    by_cases same : id = source
    · subst same
      simp [getElem?_of_lt sourceOwned, NfaState.addLetter]
    · simp [same]

/-- Setting the acceptance of a state of the automaton changes nothing else. -/
theorem setAccepting_eq_ok {id : StateId} (owned : id < nfa.size) (accepting : Bool) :
    ∃ updated, nfa.setAccepting id accepting = .ok updated ∧ updated.size = nfa.size ∧
      updated.Edge = nfa.Edge ∧
      ∀ other, updated.Accepting other ↔ if other = id then accepting = true else nfa.Accepting other := by
  obtain ⟨updated, success, sameSize, reads⟩ :=
    update_eq_ok owned fun state => { state with accepting }
  refine ⟨updated, success, sameSize, ?_, fun other => ?_⟩
  · funext s label t
    simp only [edge_iff, reads, Option.map_eq_some_iff, eq_iff_iff]
    by_cases same : s = id
    · subst same
      cases label <;> simp [getElem?_of_lt owned, NfaState.targets]
    · simp [same]
  · simp only [Accepting, reads, Option.map_eq_some_iff]
    by_cases same : other = id
    · subst same
      simp [getElem?_of_lt owned]
    · simp [same]

end PatternAutomata.Nfa
