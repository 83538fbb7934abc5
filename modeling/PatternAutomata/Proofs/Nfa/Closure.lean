import PatternAutomata.Nfa.Path
import PatternAutomata.Nfa.Simulation
import PatternAutomata.Proofs.Exploration

/-! # What closing and stepping reach

On an automaton whose edges stay inside it, the closure of a set of its states is what paths without
letters lead to (`closure_eq_ok`), and a step is what single letter edges lead to (`step_eq_ok`).
Neither can fail there, and both end inside the automaton again.
-/

namespace PatternAutomata.Nfa

variable {nfa : Nfa}

/-- Every member is a state that the automaton has. -/
def Owns (nfa : Nfa) (set : StateSet) : Prop := ∀ id ∈ set, id < nfa.size

theorem state_of_lt {id : StateId} (owned : id < nfa.size) : nfa.state id = .ok nfa.states[id] :=
  StateTable.read_of_lt owned

theorem getElem?_of_lt {id : StateId} (owned : id < nfa.size) : nfa.states[id]? = some nfa.states[id] :=
  Array.getElem?_eq_getElem owned

theorem Accepting.lt {id : StateId} (accepting : nfa.Accepting id) : id < nfa.size := by
  obtain ⟨state, read, _⟩ := accepting
  exact (Array.getElem?_eq_some_iff.mp read).1

theorem edge_none_iff {source target : StateId} :
    nfa.Edge source none target ↔
      ∃ state, nfa.states[source]? = some state ∧ target ∈ state.epsilon := by
  constructor
  · intro edge
    cases edge with
    | epsilon read member => exact ⟨_, read, member⟩
  · rintro ⟨state, read, member⟩
    exact .epsilon read member

theorem edge_some_iff {source target : StateId} {symbol : Symbol} :
    nfa.Edge source (some symbol) target ↔
      ∃ state, nfa.states[source]? = some state ∧ target ∈ state.targets symbol := by
  constructor
  · intro edge
    cases edge with
    | letter read member => exact ⟨_, read, member⟩
  · rintro ⟨state, read, member⟩
    exact .letter read member

/-- Whether all edges stay inside can be told by looking at every entry. -/
theorem inRange_iff : nfa.InRange ↔ ∀ state ∈ nfa.states.toList,
    (∀ target ∈ state.epsilon.toList, target < nfa.size) ∧
      ∀ entry ∈ state.letters.entries, ∀ target ∈ entry.2.toList, target < nfa.size := by
  constructor
  · intro inRange state member
    obtain ⟨source, read⟩ := List.mem_iff_getElem?.mp member
    rw [Array.getElem?_toList] at read
    refine ⟨fun target into => inRange source none target (.epsilon read into), ?_⟩
    intro entry entryMember target into
    have found : state.letters.get? entry.1 = some entry.2 := SortedMap.get?_eq_some_iff.mpr entryMember
    have listed : target ∈ state.targets entry.1 := by
      simpa [NfaState.targets, found, SortedSet.mem_def] using into
    exact inRange source (some entry.1) target (.letter read listed)
  · intro inside source label target edge
    cases edge with
    | epsilon read member =>
      exact (inside _ (Array.mem_toList_iff.mpr (Array.mem_of_getElem? read))).1 target member
    | @letter _ symbol state read member =>
      cases found : state.letters.get? symbol with
      | none => simp [NfaState.targets, found] at member
      | some targets =>
        have into : target ∈ targets := by simpa [NfaState.targets, found] using member
        have entryMember := SortedMap.get?_eq_some_iff.mp found
        exact (inside _ (Array.mem_toList_iff.mpr (Array.mem_of_getElem? read))).2 _ entryMember target into

instance (nfa : Nfa) : Decidable nfa.InRange := decidable_of_iff _ inRange_iff.symm

/-- The epsilon edges are what closing explores. -/
theorem leads_epsilonTargets_iff {source target : StateId} :
    Leads nfa.epsilonTargets source target ↔ nfa.Edge source none target := by
  rw [edge_none_iff]
  constructor
  · rintro ⟨targets, success, member⟩
    cases read : nfa.state source with
    | error fault => simp [epsilonTargets, read, bind, Except.bind] at success
    | ok state =>
      simp only [epsilonTargets, read, bind, Except.bind, Except.ok.injEq] at success
      exact ⟨state, StateTable.read_eq_ok_iff.mp read, SortedSet.mem_def.mpr (success ▸ member)⟩
  · rintro ⟨state, present, member⟩
    have read : nfa.state source = .ok state := StateTable.read_eq_ok_iff.mpr present
    exact ⟨state.epsilon.toList, by simp [epsilonTargets, read, bind, Except.bind], member⟩

theorem leads_epsilonTargets_eq (nfa : Nfa) : Leads nfa.epsilonTargets = (nfa.Edge · none ·) :=
  funext₂ fun _ _ => propext leads_epsilonTargets_iff

theorem staysBelow_epsilonTargets (inRange : nfa.InRange) : StaysBelow nfa.size nfa.epsilonTargets := by
  intro id owned
  have success : nfa.epsilonTargets id = .ok nfa.states[id].epsilon.toList := by
    simp [epsilonTargets, state_of_lt owned, bind, Except.bind]
  refine ⟨_, success, fun target member => ?_⟩
  exact inRange id none target (leads_epsilonTargets_iff.mp ⟨_, success, member⟩)

/-- A path without letters is a chain of epsilon edges. -/
theorem path_nil_iff {source target : StateId} :
    nfa.Path source [] target ↔ Relation.ReflTransGen (Leads nfa.epsilonTargets) source target := by
  constructor
  · intro path
    generalize spelled : ([] : List Symbol) = word at path
    induction path with
    | nil _ => exact .refl
    | epsilon edge _ ih => exact .head (leads_epsilonTargets_iff.mpr edge) (ih spelled)
    | letter _ _ _ => cases spelled
  · intro chain
    induction chain with
    | refl => exact .nil source
    | tail _ edge ih => exact ih.append (.ofEpsilon (leads_epsilonTargets_iff.mp edge))

/-- A path that spells a word with a first symbol reads it along a letter edge, after epsilon
edges. -/
theorem path_cons_iff {source target : StateId} {symbol : Symbol} {word : List Symbol} :
    nfa.Path source (symbol :: word) target ↔
      ∃ before after, nfa.Path source [] before ∧ nfa.Edge before (some symbol) after ∧
        nfa.Path after word target := by
  constructor
  · intro path
    generalize spelled : symbol :: word = whole at path
    induction path with
    | nil _ => cases spelled
    | epsilon edge _ ih =>
      obtain ⟨before, after, start, letter, rest⟩ := ih spelled
      exact ⟨before, after, .epsilon edge start, letter, rest⟩
    | letter edge rest _ =>
      cases spelled
      exact ⟨_, _, .nil _, edge, rest⟩
  · rintro ⟨before, after, start, letter, rest⟩
    exact start.append (.letter letter rest)

/-- The closure of a set of states is what paths without letters lead to. -/
theorem closure_eq_ok (inRange : nfa.InRange) {set : StateSet} (owned : nfa.Owns set) :
    ∃ closed, nfa.closure set = .ok closed ∧ nfa.Owns closed ∧
      ∀ id, id ∈ closed ↔ ∃ source ∈ set, nfa.Path source [] id := by
  have frontier : Frontier nfa.epsilonTargets nfa.size set.toList.reverse set :=
    { below := owned
      stacked := fun id member => List.mem_reverse.mp member
      expanded := fun id member absent => absurd (List.mem_reverse.mpr member) absent }
  have enough : set.toList.reverse.length + (nfa.size - set.size) ≤ nfa.size + set.size := by
    simp only [List.length_reverse, SortedSet.size]
    omega
  obtain ⟨closed, success, below, reaches⟩ :=
    explore_eq_ok (staysBelow_epsilonTargets inRange) frontier enough
  exact ⟨closed, success, below, fun id => by simp only [reaches, path_nil_iff]⟩

theorem subset_closure {set closed : StateSet} (success : nfa.closure set = .ok closed) {id : StateId}
    (member : id ∈ set) : id ∈ closed :=
  mem_of_explore success member

private theorem foldlM_targets (symbol : Symbol) (ids : List StateId) (owned : ∀ id ∈ ids, id < nfa.size)
    (before : StateSet) :
    ∃ after, ids.foldlM (fun reached id => do .ok (reached ∪ (← nfa.state id).targets symbol)) before =
        (.ok after : Except Fault StateSet) ∧
      ∀ target, target ∈ after ↔ target ∈ before ∨ ∃ id ∈ ids, nfa.Edge id (some symbol) target := by
  induction ids generalizing before with
  | nil => exact ⟨before, rfl, by simp⟩
  | cons id rest ih =>
    have idOwned := owned id (List.mem_cons_self ..)
    obtain ⟨after, success, reaches⟩ := ih (fun other member => owned other (List.mem_cons_of_mem _ member))
      (before ∪ nfa.states[id].targets symbol)
    refine ⟨after, ?_, fun target => ?_⟩
    · simp only [List.foldlM_cons, state_of_lt idOwned, bind, Except.bind]
      exact success
    · have first : nfa.Edge id (some symbol) target ↔ target ∈ nfa.states[id].targets symbol := by
        simp [edge_some_iff, getElem?_of_lt idOwned]
      simp only [reaches, SortedSet.mem_union, List.mem_cons, exists_eq_or_imp, first, or_assoc]

theorem step_eq_ok (inRange : nfa.InRange) {set : StateSet} (owned : nfa.Owns set) (symbol : Symbol) :
    ∃ next, nfa.step set symbol = .ok next ∧ nfa.Owns next ∧
      ∀ id, id ∈ next ↔ ∃ source ∈ set, nfa.Edge source (some symbol) id := by
  obtain ⟨next, success, reaches⟩ := foldlM_targets symbol set.toList owned ∅
  have members : ∀ id, id ∈ next ↔ ∃ source ∈ set, nfa.Edge source (some symbol) id := by
    simpa [SortedSet.mem_def] using reaches
  refine ⟨next, success, fun id member => ?_, members⟩
  obtain ⟨source, _, edge⟩ := (members id).mp member
  exact inRange source _ id edge

theorem containsAccepting_eq_ok {set : StateSet} (owned : nfa.Owns set) :
    ∃ found, nfa.containsAccepting set = .ok found ∧
      (found = true ↔ ∃ id ∈ set, nfa.Accepting id) := by
  have search (ids : List StateId) (inside : ∀ id ∈ ids, id < nfa.size) :
      ∃ found, ids.anyM (fun id => do .ok (← nfa.state id).accepting) = (.ok found : Except Fault Bool) ∧
        (found = true ↔ ∃ id ∈ ids, nfa.Accepting id) := by
    induction ids with
    | nil => exact ⟨false, rfl, by simp⟩
    | cons id rest ih =>
      have idOwned := inside id (List.mem_cons_self ..)
      have first : nfa.Accepting id ↔ nfa.states[id].accepting = true := by
        simp [Accepting, getElem?_of_lt idOwned]
      obtain ⟨found, success, reaches⟩ := ih fun other member => inside other (List.mem_cons_of_mem _ member)
      cases accepting : nfa.states[id].accepting with
      | true =>
        refine ⟨true, ?_, by simp [first, accepting]⟩
        simp [List.anyM, state_of_lt idOwned, accepting, bind, Except.bind, pure, Except.pure]
      | false =>
        refine ⟨found, ?_, by simp [first, accepting, reaches]⟩
        simp only [List.anyM, state_of_lt idOwned, accepting, bind, Except.bind]
        exact success
  exact search set.toList owned

end PatternAutomata.Nfa
