import PatternAutomata.Compile
import PatternAutomata.Proofs.Dfa.Minimized
import PatternAutomata.Proofs.Pattern.Completion
import PatternAutomata.Proofs.Pattern.Recognition

/-! # Where the runs of a compiled pattern stop

In an automaton without dead states simulation keeps a state exactly as long as what has been read is a
prefix of a recognized word (`Nfa.statesAfter_eq_empty_iff`). Automata of patterns have no dead states,
the subset construction follows simulation, and merging changes no run, so a run of a compiled pattern
stops at the first symbol after which no word of the pattern goes on (`compile_run_locates_failure`).
-/

namespace PatternAutomata

namespace Nfa

variable {nfa : Nfa} {word : List Symbol}

theorem Viable.of_append {front rest : List Symbol} (viable : nfa.Viable (front ++ rest)) :
    nfa.Viable front := by
  obtain ⟨more, recognized⟩ := viable
  exact ⟨rest ++ more, by rwa [← List.append_assoc]⟩

theorem Viable.take (viable : nfa.Viable word) (count : Nat) : nfa.Viable (word.take count) := by
  rw [← List.take_append_drop count word] at viable
  exact viable.of_append

/-- Without dead states, simulation keeps no state once what has been read begins no recognized word. -/
theorem statesAfter_eq_empty_iff (inRange : nfa.InRange) (live : ∀ id < nfa.size, nfa.Live id)
    (word : List Symbol) : nfa.statesAfter word = .ok ∅ ↔ ¬ nfa.Viable word := by
  obtain ⟨reached, success, owned, reaches⟩ := statesAfter_eq_ok inRange word
  rw [success, Except.ok.injEq, SortedSet.eq_empty_iff]
  constructor
  · rintro none ⟨rest, target, path, accepting⟩
    obtain ⟨middle, before, -⟩ := path.exists_middle
    exact none middle ((reaches middle).mpr ⟨Nat.zero_lt_of_lt accepting.lt, before⟩)
  · intro dead id member
    obtain ⟨rest, target, after, accepting⟩ := live id (owned id member)
    exact dead ⟨rest, target, ((reaches id).mp member).2.append after, accepting⟩

/-- Without dead states, simulation dies where a prefix of a recognized word ends. -/
theorem diesAt_iff_viable (inRange : nfa.InRange) (inhabited : 0 < nfa.size)
    (live : ∀ id < nfa.size, nfa.Live id) {index : Nat} :
    nfa.DiesAt word index ↔ nfa.Viable (word.take index) ∧ ¬ nfa.Viable (word.take (index + 1)) := by
  simp only [DiesAt, ne_eq, statesAfter_eq_empty_iff inRange live, not_not]
  constructor
  · rintro ⟨inside, dies, lives⟩
    refine ⟨?_, dies⟩
    cases index with
    | zero =>
      obtain ⟨rest, accepts⟩ := live StateId.start inhabited
      exact ⟨rest, accepts⟩
    | succ earlier => exact lives earlier (Nat.lt_succ_self earlier)
  · rintro ⟨viable, dies⟩
    refine ⟨?_, dies, fun earlier before => ?_⟩
    · -- past the end of the word one symbol more takes no more of it
      by_contra outside
      apply dies
      rw [List.take_of_length_le (by omega)] at viable ⊢
      exact viable
    · have shorter := viable.take (earlier + 1)
      rwa [List.take_take, Nat.min_eq_left before] at shorter

/-- Without dead states, simulation survives a word that begins a recognized one. -/
theorem forall_not_diesAt_iff (inRange : nfa.InRange) (inhabited : 0 < nfa.size)
    (live : ∀ id < nfa.size, nfa.Live id) : (∀ index, ¬ nfa.DiesAt word index) ↔ nfa.Viable word := by
  simp only [diesAt_iff_viable inRange inhabited live, not_and, not_not]
  constructor
  · intro goesOn
    have viable (count : Nat) : nfa.Viable (word.take count) := by
      induction count with
      | zero =>
        obtain ⟨rest, accepts⟩ := live StateId.start inhabited
        exact ⟨rest, accepts⟩
      | succ count ih => exact goesOn count ih
    have whole := viable word.length
    rwa [List.take_length] at whole
  · exact fun viable index _ => viable.take (index + 1)

end Nfa

open Pattern

/-- The automaton of a pattern recognizes the words that the pattern stands for. -/
theorem Pattern.recognizes_iff_matches {pattern : String} {nfa : Nfa}
    (success : Nfa.ofPattern pattern = .ok nfa) :
    nfa.InRange ∧ ∀ word, nfa.Recognizes word ↔ Matches pattern word := by
  obtain ⟨tree, written⟩ := exists_written_of_ofPattern success
  obtain ⟨built, builds, inRange, recognizes⟩ := ofPattern_of_written written
  obtain rfl := Except.ok.inj (success.symm.trans builds)
  exact ⟨inRange, fun word => (recognizes word).trans (matches_iff_denotes written word).symm⟩

theorem compile_of_steps {pattern : String} {nfa : Nfa} {dfa merged : Dfa}
    (builds : Nfa.ofPattern pattern = .ok nfa) (determinizes : nfa.determinize = .ok dfa)
    (minimizes : dfa.minimize = .ok merged) : compile pattern = .ok merged := by
  change (do
    let nfa ← Nfa.ofPattern pattern
    let dfa ← Except.mapError Error.fault nfa.determinize
    Except.mapError Error.fault dfa.minimize) = _
  simp only [builds, determinizes, minimizes, bind, Except.bind, Except.mapError]

/-- A pattern that has an automaton is compiled, by way of what the subset construction gives, to a quotient of
this. -/
theorem compile_eq_ok {pattern : String} {nfa : Nfa} (success : Nfa.ofPattern pattern = .ok nfa)
    (inRange : nfa.InRange) :
    ∃ dfa merged map, nfa.determinize = .ok dfa ∧ compile pattern = .ok merged ∧ SubsetAutomaton nfa dfa ∧
      dfa.Quotient merged map := by
  obtain ⟨dfa, merged, map, determinizes, minimizes, subsets, quotient⟩ := Nfa.exists_minimized inRange
  exact ⟨dfa, merged, map, determinizes, compile_of_steps success determinizes minimizes, subsets, quotient⟩

/-- A run of a compiled pattern always ends. It matches the words that the pattern stands for; it fails
at the end of the input if this is only a prefix of such a word, and otherwise after the longest prefix
of the input that is a prefix of such a word. -/
theorem compile_run_locates_failure {pattern : String} {dfa : Dfa} (success : compile pattern = .ok dfa)
    (input : String) :
    ∃ outcome, dfa.run input = .ok outcome ∧
      (outcome = .matched ↔ Matches pattern input.toList) ∧
      (∀ stop, outcome = .endOfInput stop ↔ stop = input.length ∧
        ¬ Matches pattern input.toList ∧ Begins pattern input.toList) ∧
      ∀ stop, outcome = .noTransition stop ↔
        Begins pattern (input.toList.take stop) ∧ ¬ Begins pattern (input.toList.take (stop + 1)) := by
  obtain ⟨nfa, builds, -⟩ := bind_eq_ok_iff.mp success
  obtain ⟨inRange, recognizes⟩ := recognizes_iff_matches builds
  obtain ⟨inhabited, live⟩ := live_of_ofPattern builds
  obtain ⟨subset, merged, map, -, compiles, subsets, quotient⟩ := compile_eq_ok builds inRange
  obtain rfl := Except.ok.inj (success.symm.trans compiles)
  obtain ⟨outcome, run, ends⟩ := Dfa.runFrom_eq_ok subsets.inRange subsets.size_pos 0 input.toList
  have viable (word : List Symbol) : nfa.Viable word ↔ Begins pattern word := by
    simp only [Nfa.Viable, Begins, recognizes]
  have accepts : nfa.accepts input = .ok true ↔ Matches pattern input.toList := by
    obtain ⟨accepted, answers, accepts⟩ := Nfa.accepts_eq_ok inRange input
    rw [answers, Except.ok.injEq, accepts, recognizes]
  refine ⟨outcome, (quotient.run_eq subsets.size_pos subsets.inRange input).trans run, ?_, ?_, ?_⟩
  · rw [ends.eq_iff, subsets.ends_matched_iff inRange, accepts]
  · intro stop
    rw [ends.eq_iff, subsets.ends_endOfInput_iff inRange, Nfa.forall_not_diesAt_iff inRange inhabited live,
      ne_eq, accepts, viable]
  · intro stop
    rw [ends.eq_iff, subsets.ends_noTransition_iff inRange, Nfa.diesAt_iff_viable inRange inhabited live,
      viable, viable]

/-- A pattern with a repeated group, on an input that ends in the group and on one that leaves it. -/
theorem compile_run_locates_failure_in_group :
    ∃ dfa, compile "a(b|c)*d" = .ok dfa ∧
      dfa.run "abc" = .ok (.endOfInput 3) ∧ Begins "a(b|c)*d" "abc".toList ∧
      dfa.run "abxd" = .ok (.noTransition 2) ∧ Begins "a(b|c)*d" ("abxd".toList.take 2) ∧
      ¬ Begins "a(b|c)*d" ("abxd".toList.take 3) := by
  have computed : (compile "a(b|c)*d").map (fun dfa => (dfa.run "abc", dfa.run "abxd")) =
      .ok (.ok (.endOfInput 3), .ok (.noTransition 2)) := by decide +kernel
  cases success : compile "a(b|c)*d" with
  | error cause => simp [success, Except.map] at computed
  | ok dfa =>
    rw [success] at computed
    obtain ⟨ends, stops⟩ := Prod.mk.inj (Except.ok.inj computed)
    obtain ⟨first, firstRun, -, endOfInput, -⟩ := compile_run_locates_failure success "abc"
    obtain ⟨second, secondRun, -, -, noTransition⟩ := compile_run_locates_failure success "abxd"
    obtain rfl := Except.ok.inj (firstRun.symm.trans ends)
    obtain rfl := Except.ok.inj (secondRun.symm.trans stops)
    obtain ⟨-, -, begins⟩ := (endOfInput 3).mp rfl
    obtain ⟨before, after⟩ := (noTransition 2).mp rfl
    exact ⟨dfa, rfl, ends, begins, stops, before, after⟩

end PatternAutomata
