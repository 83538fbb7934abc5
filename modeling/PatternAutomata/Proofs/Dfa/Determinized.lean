import PatternAutomata.Proofs.Dfa.AccessibleSubsets
import PatternAutomata.Proofs.Dfa.Minimized
import PatternAutomata.Proofs.Dfa.Quotient
import PatternAutomata.Proofs.Nfa.Alphabet
import PatternAutomata.Proofs.Nfa.Edges

/-! # What the subset construction keeps

The states of the subset construction accept what their members accept (`SubsetAutomaton.acceptsFrom_iff`). So it
keeps the language, and makes a trim automaton of one without dead states (`SubsetAutomaton.trim`). It keeps the
letters of an automaton without unreached states (`SubsetAutomaton.alphabet_eq`).
-/

namespace PatternAutomata

variable {nfa : Nfa} {dfa : Dfa}

namespace SubsetAutomaton

/-- A state accepts what paths from the members of its set to accepting states spell. -/
theorem acceptsFrom_iff (subsets : SubsetAutomaton nfa dfa) (nfaInRange : nfa.InRange) {id : StateId}
    {set : StateSet} (stands : dfa.StandsFor id set) (word : List Symbol) :
    dfa.AcceptsFrom id word ↔
      ∃ source ∈ set, ∃ target, nfa.Path source word target ∧ nfa.Accepting target := by
  obtain ⟨owned, closed⟩ := (subsets.accessible id set stands).valid nfaInRange
  obtain ⟨reached, success, -, -, reaches⟩ := Nfa.foldlM_advance_eq_ok nfaInRange word owned closed
  have arrives : (∃ source ∈ set, ∃ target, nfa.Path source word target ∧ nfa.Accepting target) ↔
      ∃ member ∈ reached, nfa.Accepting member := by
    simp only [reaches]
    constructor
    · rintro ⟨source, member, target, path, accepting⟩
      exact ⟨target, ⟨source, member, path⟩, accepting⟩
    · rintro ⟨target, ⟨source, member, path⟩, accepting⟩
      exact ⟨source, member, target, path, accepting⟩
  obtain ⟨same, run, known⟩ := subsets.walk?_cases nfaInRange word stands
  obtain rfl := Except.ok.inj (run.symm.trans success)
  rw [arrives]
  rcases known with ⟨target, walk, targetStands, -⟩ | ⟨walk, -, rfl⟩
  · rw [← subsets.accepting target same targetStands]
    simp [Dfa.AcceptsFrom, walk]
  · simp [Dfa.AcceptsFrom, walk]

theorem recognizes_iff (subsets : SubsetAutomaton nfa dfa) (nfaInRange : nfa.InRange) (word : List Symbol) :
    dfa.Recognizes word ↔ nfa.Recognizes word := by
  obtain ⟨start, success, stands⟩ := subsets.first
  obtain ⟨found, foundSuccess, -, -, starts⟩ := Nfa.startSet_eq_ok nfaInRange
  obtain rfl := Except.ok.inj (success.symm.trans foundSuccess)
  refine (subsets.acceptsFrom_iff nfaInRange stands word).trans ⟨?_, ?_⟩
  · rintro ⟨source, member, target, path, accepting⟩
    exact ⟨target, ((starts source).mp member).2.append path, accepting⟩
  · rintro ⟨target, path, accepting⟩
    exact ⟨StateId.start, (starts _).mpr ⟨Nat.zero_lt_of_lt accepting.lt, .nil _⟩, target, path, accepting⟩

/-- The construction makes no dead state when it is given none. -/
theorem live (subsets : SubsetAutomaton nfa dfa) (nfaInRange : nfa.InRange) (inhabited : 0 < nfa.size)
    (nfaLive : ∀ id < nfa.size, nfa.Live id) {id : StateId} (owned : id < dfa.size) : dfa.Live id := by
  obtain ⟨set, stands⟩ := subsets.labelled id owned
  have accessible := subsets.accessible id set stands
  obtain ⟨source, member⟩ : ∃ source, source ∈ set := by
    by_contra none
    have empty := SortedSet.eq_empty_iff.mpr fun source member => none ⟨source, member⟩
    exact Nat.ne_of_gt inhabited ((accessible.eq_empty_iff nfaInRange).mp empty)
  obtain ⟨word, target, path, accepting⟩ := nfaLive source ((accessible.valid nfaInRange).1 source member)
  exact ⟨word, (subsets.acceptsFrom_iff nfaInRange stands word).mpr ⟨source, member, target, path, accepting⟩⟩

theorem trim (subsets : SubsetAutomaton nfa dfa) (nfaInRange : nfa.InRange) (inhabited : 0 < nfa.size)
    (nfaLive : ∀ id < nfa.size, nfa.Live id) : dfa.Trim where
  reachable _ := subsets.reachable
  live _ := subsets.live nfaInRange inhabited nfaLive

/-- A letter that leaves a state which is reached is a letter of the construction. -/
theorem mem_alphabet_of_edge (subsets : SubsetAutomaton nfa dfa) (nfaInRange : nfa.InRange) {word : List Symbol}
    {source target : StateId} {symbol : Symbol} (reached : nfa.Path StateId.start word source)
    (edge : nfa.Edge source (some symbol) target) : symbol ∈ dfa.alphabet := by
  have longer : nfa.Path StateId.start (word ++ [symbol]) target := reached.append (.letter edge (.nil target))
  have inhabited : 0 < nfa.size := Nat.zero_lt_of_lt edge.source_lt
  obtain ⟨set, success, -, reaches⟩ := Nfa.statesAfter_eq_ok nfaInRange (word ++ [symbol])
  have member : target ∈ set := (reaches target).mpr ⟨inhabited, longer⟩
  -- simulation keeps the target, so the walk over the longer word goes on
  obtain ⟨same, sameSuccess, ⟨last, walk, -⟩ | ⟨-, -, rfl⟩⟩ := subsets.walk?_start_cases nfaInRange (word ++ [symbol])
  · rw [Dfa.walk?_append] at walk
    obtain ⟨middle, -, step⟩ := Option.bind_eq_some_iff.mp walk
    obtain ⟨next, leads, -⟩ := Option.bind_eq_some_iff.mp step
    exact Dfa.mem_alphabet_iff_next?.mpr ⟨middle, next, leads⟩
  · obtain rfl := Except.ok.inj (success.symm.trans sameSuccess)
    exact absurd member (SortedSet.not_mem_empty target)

/-- Where all states are reached and list only letters that lead somewhere, the construction keeps the alphabet. -/
theorem alphabet_eq (subsets : SubsetAutomaton nfa dfa) (nfaInRange : nfa.InRange) (leads : nfa.LettersLead)
    (reached : ∀ id < nfa.size, ∃ word, nfa.Path StateId.start word id) : dfa.alphabet = nfa.alphabet := by
  apply SortedSet.ext_mem
  intro symbol
  refine ⟨subsets.mem_alphabet nfaInRange, fun member => ?_⟩
  obtain ⟨source, target, edge⟩ := (Nfa.mem_alphabet_iff leads).mp member
  obtain ⟨word, path⟩ := reached source edge.source_lt
  exact subsets.mem_alphabet_of_edge nfaInRange path edge

end SubsetAutomaton

end PatternAutomata
