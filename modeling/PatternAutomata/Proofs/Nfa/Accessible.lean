import PatternAutomata.Proofs.Nfa.Acceptance

/-! # The sets that simulation can be in

Simulation moves from a set of states to the next one on a symbol that leads somewhere. The sets that
moves lead to from the start set are accessible; all of them are closed sets of states that the
automaton has.
-/

namespace PatternAutomata.Nfa

variable {nfa : Nfa}

/-- A symbol leads somewhere from a set, and to the next set after closing. -/
def Moves (nfa : Nfa) (set : StateSet) (symbol : Symbol) (next : StateSet) : Prop :=
  ∃ stepped, nfa.step set symbol = .ok stepped ∧ stepped ≠ ∅ ∧ nfa.closure stepped = .ok next

/-- A set that moves lead to from the start set. -/
inductive AccessibleSet (nfa : Nfa) : StateSet → Prop
  | start {set : StateSet} (success : nfa.startSet = .ok set) : AccessibleSet nfa set
  | move {set next : StateSet} {symbol : Symbol} (before : AccessibleSet nfa set)
      (moves : nfa.Moves set symbol next) : AccessibleSet nfa next

theorem closure_empty (nfa : Nfa) : nfa.closure ∅ = .ok ∅ := by
  unfold closure
  cases nfa.size + SortedSet.size (∅ : StateSet) <;> rfl

theorem step_empty (nfa : Nfa) (symbol : Symbol) : nfa.step ∅ symbol = .ok ∅ := rfl

theorem advance_empty (nfa : Nfa) (symbol : Symbol) : nfa.advance ∅ symbol = .ok ∅ := by
  simp only [advance, step_empty, bind, Except.bind, closure_empty]

theorem closure_ne_empty {set closed : StateSet} (inhabited : set ≠ ∅)
    (success : nfa.closure set = .ok closed) : closed ≠ ∅ := by
  rintro rfl
  apply inhabited
  apply SortedSet.eq_empty_iff.mpr
  intro id member
  exact SortedSet.not_mem_empty id (subset_closure success member)

/-- Moves are the steps of simulation that lead somewhere. -/
theorem moves_iff_advance {set next : StateSet} {symbol : Symbol} :
    nfa.Moves set symbol next ↔ nfa.advance set symbol = .ok next ∧ next ≠ ∅ := by
  constructor
  · rintro ⟨stepped, step, inhabited, close⟩
    refine ⟨?_, closure_ne_empty inhabited close⟩
    simp only [advance, step, bind, Except.bind, close]
  · rintro ⟨success, inhabited⟩
    cases step : nfa.step set symbol with
    | error fault => simp [advance, step, bind, Except.bind] at success
    | ok stepped =>
      simp only [advance, step, bind, Except.bind] at success
      refine ⟨stepped, step, ?_, success⟩
      rintro rfl
      rw [closure_empty] at success
      exact inhabited (Except.ok.inj success).symm

theorem Moves.unique {set first second : StateSet} {symbol : Symbol} (left : nfa.Moves set symbol first)
    (right : nfa.Moves set symbol second) : first = second :=
  Except.ok.inj ((moves_iff_advance.mp left).1.symm.trans (moves_iff_advance.mp right).1)

/-- Accessible sets are closed sets of states that the automaton has. -/
theorem AccessibleSet.valid (inRange : nfa.InRange) {set : StateSet} (accessible : nfa.AccessibleSet set) :
    nfa.Owns set ∧ nfa.EpsilonClosed set := by
  induction accessible with
  | start success =>
    obtain ⟨start, startSuccess, owned, closed, -⟩ := startSet_eq_ok inRange
    obtain rfl := Except.ok.inj (success.symm.trans startSuccess)
    exact ⟨owned, closed⟩
  | @move set next symbol _ moves ih =>
    obtain ⟨reached, success, owned, closed, -⟩ := advance_eq_ok inRange ih.1 symbol
    obtain rfl := Except.ok.inj ((moves_iff_advance.mp moves).1.symm.trans success)
    exact ⟨owned, closed⟩

theorem Edge.mem_alphabet {source target : StateId} {symbol : Symbol}
    (edge : nfa.Edge source (some symbol) target) : symbol ∈ nfa.alphabet := by
  obtain ⟨state, read, member⟩ := edge_some_iff.mp edge
  refine Nfa.mem_alphabet.mpr ⟨state, Array.mem_of_getElem? read, ?_⟩
  by_contra absent
  rw [← SortedMap.get?_eq_none_iff] at absent
  simp [NfaState.targets, absent] at member

theorem Moves.mem_alphabet (inRange : nfa.InRange) {set next : StateSet} {symbol : Symbol}
    (owned : nfa.Owns set) (moves : nfa.Moves set symbol next) : symbol ∈ nfa.alphabet := by
  obtain ⟨stepped, success, inhabited, -⟩ := moves
  obtain ⟨found, foundSuccess, -, reaches⟩ := step_eq_ok inRange owned symbol
  obtain rfl := Except.ok.inj (success.symm.trans foundSuccess)
  by_contra absent
  apply inhabited
  apply SortedSet.eq_empty_iff.mpr
  intro id member
  obtain ⟨source, -, edge⟩ := (reaches id).mp member
  exact absent edge.mem_alphabet

end PatternAutomata.Nfa
