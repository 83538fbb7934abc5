import PatternAutomata.Proofs.Dfa.Interning
import PatternAutomata.Proofs.Dfa.Running

/-! # The subset construction follows simulation

The construction goes through and gives an automaton whose states are accessible sets and whose
transitions are all moves between them (`determinize_eq_ok`). A walk in it leads to the state that
stands for what simulation keeps, and leads nowhere as soon as simulation keeps nothing
(`SubsetAutomaton.walk?_cases`), so a run ends as simulation dictates.
-/

namespace PatternAutomata

/-- The symbol at an index is the first after which simulation keeps no state. -/
def Nfa.DiesAt (nfa : Nfa) (word : List Symbol) (index : Nat) : Prop :=
  index < word.length ∧ nfa.statesAfter (word.take (index + 1)) = .ok ∅ ∧
    ∀ earlier < index, nfa.statesAfter (word.take (earlier + 1)) ≠ .ok ∅

/-- An automaton without states keeps none from the first symbol on. -/
theorem Nfa.diesAt_zero_of_size_eq_zero {nfa : Nfa} (inRange : nfa.InRange) (empty : nfa.size = 0)
    {input : String} (inhabited : input ≠ "") : nfa.DiesAt input.toList 0 := by
  obtain ⟨reached, success, -, reaches⟩ := Nfa.statesAfter_eq_ok inRange (input.toList.take (0 + 1))
  have nothing : reached = ∅ := SortedSet.eq_empty_iff.mpr (by simp [reaches, empty])
  refine ⟨?_, nothing ▸ success, fun earlier before => absurd before (Nat.not_lt_zero earlier)⟩
  rw [String.length_toList]
  exact Nat.pos_of_ne_zero fun zero => inhabited (String.length_eq_zero_iff.mp zero)

/-- The states stand for accessible sets, the start for the start set, and transitions are exactly the
moves. -/
structure SubsetAutomaton (nfa : Nfa) (dfa : Dfa) : Prop extends Interned nfa dfa where
  first : ∃ start, nfa.startSet = .ok start ∧ dfa.StandsFor StateId.start start
  complete : ∀ id set symbol next, dfa.StandsFor id set → nfa.Moves set symbol next →
    ∃ target, dfa.next? id symbol = some target

/-- The construction goes through. -/
theorem Nfa.determinize_eq_ok {nfa : Nfa} (inRange : nfa.InRange) :
    ∃ dfa, nfa.determinize = .ok dfa ∧ SubsetAutomaton nfa dfa := by
  obtain ⟨start, work, done, success, begins, -, run, progress, empty, stands⟩ :=
    SubsetConstruction.Progress.whole inRange
  refine ⟨done.dfa, ?_, progress.toInterned, ⟨start, success, stands⟩, ?_⟩
  · simp only [determinize, begins, run, bind, Except.bind]
  · intro p set symbol next standsThere moves
    have known := progress.complete p set symbol next standsThere moves
    simpa [empty] using known

namespace SubsetAutomaton

variable {nfa : Nfa} {dfa : Dfa}

/-- Where simulation moves a transition leads, to the state that stands for what is reached. -/
theorem exists_next? (subsets : SubsetAutomaton nfa dfa) {id : StateId} {set next : StateSet} {symbol : Symbol}
    (stands : dfa.StandsFor id set) (moves : nfa.Moves set symbol next) :
    ∃ target, dfa.next? id symbol = some target ∧ dfa.StandsFor target next := by
  obtain ⟨target, step⟩ := subsets.complete id set symbol next stands moves
  obtain ⟨other, otherMoves, targetStands⟩ := subsets.sound id set symbol target stands step
  obtain rfl := otherMoves.unique moves
  exact ⟨target, step, targetStands⟩

theorem inRange (subsets : SubsetAutomaton nfa dfa) : dfa.InRange := by
  intro source symbol target next
  obtain ⟨set, stands⟩ := subsets.labelled source (Dfa.lt_of_next? next)
  obtain ⟨reached, -, targetStands⟩ := subsets.sound source set symbol target stands next
  exact targetStands.lt

theorem size_pos (subsets : SubsetAutomaton nfa dfa) : StateId.start < dfa.size := by
  obtain ⟨start, -, stands⟩ := subsets.first
  exact stands.lt

theorem foldlM_advance_empty (nfa : Nfa) (word : List Symbol) : word.foldlM nfa.advance ∅ = .ok ∅ := by
  induction word with
  | nil => rfl
  | cons symbol rest ih =>
    rw [List.foldlM_cons, Nfa.advance_empty]
    exact ih

/-- A walk leads to the state that stands for what simulation keeps, and leads nowhere once this is
nothing. -/
theorem walk?_cases (subsets : SubsetAutomaton nfa dfa) (nfaInRange : nfa.InRange) (word : List Symbol)
    {id : StateId} {set : StateSet} (stands : dfa.StandsFor id set) :
    ∃ reached, word.foldlM nfa.advance set = .ok reached ∧
      ((∃ target, dfa.walk? id word = some target ∧ dfa.StandsFor target reached ∧
          (word ≠ [] → reached ≠ ∅)) ∨
        dfa.walk? id word = none ∧ word ≠ [] ∧ reached = ∅) := by
  induction word generalizing id set with
  | nil => exact ⟨set, rfl, .inl ⟨id, rfl, stands, fun inhabited => absurd rfl inhabited⟩⟩
  | cons symbol rest ih =>
    have owned := ((subsets.accessible id set stands).valid nfaInRange).1
    obtain ⟨next, advance, -⟩ := Nfa.advance_eq_ok nfaInRange owned symbol
    rw [List.foldlM_cons, advance, Dfa.walk?_cons]
    by_cases empty : next = ∅
    · subst empty
      refine ⟨∅, foldlM_advance_empty nfa rest, .inr ⟨?_, by simp, rfl⟩⟩
      cases step : dfa.next? id symbol with
      | none => rfl
      | some target =>
        obtain ⟨reached, moves, -⟩ := subsets.sound id set symbol target stands step
        obtain ⟨success, inhabited⟩ := Nfa.moves_iff_advance.mp moves
        exact absurd (Except.ok.inj (success.symm.trans advance)) inhabited
    · have moves := Nfa.moves_iff_advance.mpr ⟨advance, empty⟩
      obtain ⟨target, step, targetStands⟩ := subsets.exists_next? stands moves
      rw [step, Option.bind_some]
      obtain ⟨reached, success, known⟩ := ih targetStands
      refine ⟨reached, success, known.imp ?_ ?_⟩
      · rintro ⟨last, walk, lastStands, kept⟩
        refine ⟨last, walk, lastStands, fun _ => ?_⟩
        cases rest with
        | nil => exact Except.ok.inj success ▸ empty
        | cons _ _ => exact kept (by simp)
      · rintro ⟨walk, -, none⟩
        exact ⟨walk, by simp, none⟩

/-- The walk over a word from the start follows simulation of the word. -/
theorem walk?_start_cases (subsets : SubsetAutomaton nfa dfa) (nfaInRange : nfa.InRange)
    (word : List Symbol) :
    ∃ reached, nfa.statesAfter word = .ok reached ∧
      ((∃ target, dfa.walk? StateId.start word = some target ∧ dfa.StandsFor target reached ∧
          (word ≠ [] → reached ≠ ∅)) ∨
        dfa.walk? StateId.start word = none ∧ word ≠ [] ∧ reached = ∅) := by
  obtain ⟨start, success, stands⟩ := subsets.first
  obtain ⟨reached, run, known⟩ := subsets.walk?_cases nfaInRange word stands
  refine ⟨reached, ?_, known⟩
  simp only [Nfa.statesAfter, success, bind, Except.bind]
  exact run

theorem walk?_eq_none_iff (subsets : SubsetAutomaton nfa dfa) (nfaInRange : nfa.InRange) {word : List Symbol}
    (inhabited : word ≠ []) :
    dfa.walk? StateId.start word = none ↔ nfa.statesAfter word = .ok ∅ := by
  obtain ⟨reached, success, ⟨target, walk, -, kept⟩ | ⟨walk, -, rfl⟩⟩ :=
    subsets.walk?_start_cases nfaInRange word
  · simp [walk, success, kept inhabited]
  · simp [walk, success]

/-- A run matches when simulation accepts. -/
theorem ends_matched_iff (subsets : SubsetAutomaton nfa dfa) (nfaInRange : nfa.InRange) (input : String) :
    dfa.Ends StateId.start 0 input.toList .matched ↔ nfa.accepts input = .ok true := by
  obtain ⟨reached, success, known⟩ := subsets.walk?_start_cases nfaInRange input.toList
  rw [Nfa.accepts_eq_true_iff nfaInRange input success]
  rcases known with ⟨target, walk, stands, -⟩ | ⟨walk, -, rfl⟩
  · rw [← subsets.accepting target reached stands]
    simp [Dfa.Ends, walk]
  · simp [Dfa.Ends, walk]

/-- A run stops at the first symbol after which simulation keeps no state. -/
theorem ends_noTransition_iff (subsets : SubsetAutomaton nfa dfa) (nfaInRange : nfa.InRange)
    (word : List Symbol) (stop : Nat) :
    dfa.Ends StateId.start 0 word (.noTransition stop) ↔ nfa.DiesAt word stop := by
  have none_iff {front : List Symbol} (inhabited : front ≠ []) :=
    subsets.walk?_eq_none_iff nfaInRange inhabited
  constructor
  · rintro ⟨front, symbol, rest, last, rfl, rfl, walk, stuck⟩
    rw [Nat.zero_add]
    refine ⟨by simp, ?_, fun earlier before => ?_⟩
    · have taken : (front ++ symbol :: rest).take (front.length + 1) = front ++ [symbol] := by
        simp [List.take_append]
      rw [taken, ← none_iff (by simp)]
      exact Dfa.walk?_eq_none_of_next? walk stuck
    · rw [List.take_append_of_le_length before, ne_eq, ← none_iff (by
        rw [ne_eq, List.take_eq_nil_iff, not_or]
        exact ⟨Nat.succ_ne_zero earlier, List.ne_nil_of_length_pos (Nat.zero_lt_of_lt before)⟩)]
      obtain ⟨middle, begins⟩ := Dfa.exists_walk?_take walk (earlier + 1)
      rw [begins]
      exact Option.some_ne_none middle
  · rintro ⟨inside, dies, lives⟩
    have reaches : ∃ last, dfa.walk? StateId.start (word.take stop) = some last := by
      cases stop with
      | zero => exact ⟨StateId.start, rfl⟩
      | succ earlier =>
        have alive := lives earlier (Nat.lt_succ_self earlier)
        rw [ne_eq, ← none_iff (by
          rw [ne_eq, List.take_eq_nil_iff, not_or]
          exact ⟨Nat.succ_ne_zero earlier, List.ne_nil_of_length_pos (Nat.zero_lt_of_lt inside)⟩)] at alive
        exact Option.ne_none_iff_exists'.mp alive
    obtain ⟨last, walk⟩ := reaches
    refine ⟨word.take stop, word[stop], word.drop (stop + 1), last, ?_, ?_, walk, ?_⟩
    · rw [List.getElem_cons_drop, List.take_append_drop]
    · rw [List.length_take, Nat.min_eq_left (Nat.le_of_lt inside), Nat.zero_add]
    · rw [List.take_succ_eq_append_getElem inside,
        ← none_iff (List.append_ne_nil_of_right_ne_nil _ (List.cons_ne_nil _ _)), Dfa.walk?_append,
        walk] at dies
      simpa using dies

/-- A run reaches the end of the input in a state that does not accept in all other cases. -/
theorem ends_endOfInput_iff (subsets : SubsetAutomaton nfa dfa) (nfaInRange : nfa.InRange) (input : String)
    (stop : Nat) :
    dfa.Ends StateId.start 0 input.toList (.endOfInput stop) ↔
      stop = input.length ∧ nfa.accepts input ≠ .ok true ∧ ∀ k, ¬ nfa.DiesAt input.toList k := by
  have matched := subsets.ends_matched_iff nfaInRange input
  have dies := subsets.ends_noTransition_iff nfaInRange input.toList
  obtain ⟨outcome, -, ends⟩ := Dfa.runFrom_eq_ok subsets.inRange subsets.size_pos 0 input.toList
  constructor
  · intro here
    refine ⟨?_, fun accepts => ?_, fun k dead => ?_⟩
    · rw [here.1, Nat.zero_add, String.length_toList]
    · cases here.unique (matched.mpr accepts)
    · cases here.unique ((dies k).mpr dead)
  · rintro ⟨rfl, rejects, alive⟩
    cases outcome with
    | matched => exact absurd (matched.mp ends) rejects
    | noTransition k => exact absurd ((dies k).mp ends) (alive k)
    | endOfInput other =>
      have length := ends.1
      rw [Nat.zero_add, String.length_toList] at length
      exact length ▸ ends

end SubsetAutomaton

/-- The construction goes through, and a run of its result on any input ends as simulation dictates: it
matches when simulation accepts, stops at the first symbol after which simulation keeps no state, and
reaches the end of the input otherwise. -/
theorem determinize_run_follows_simulation {nfa : Nfa} (inRange : nfa.InRange) :
    ∃ dfa, nfa.determinize = .ok dfa ∧ ∀ input : String, ∃ outcome accepted,
      dfa.run input = .ok outcome ∧ nfa.accepts input = .ok accepted ∧
      (outcome = .matched ↔ accepted = true) ∧
      (∀ k, outcome = .noTransition k ↔ nfa.DiesAt input.toList k) ∧
      (∀ stop, outcome = .endOfInput stop ↔
        stop = input.length ∧ accepted = false ∧ ∀ k, ¬ nfa.DiesAt input.toList k) ∧
      (nfa.size = 0 → input ≠ "" → outcome = .noTransition 0) := by
  obtain ⟨dfa, success, subsets⟩ := Nfa.determinize_eq_ok inRange
  refine ⟨dfa, success, fun input => ?_⟩
  obtain ⟨outcome, run, ends⟩ := Dfa.runFrom_eq_ok subsets.inRange subsets.size_pos 0 input.toList
  obtain ⟨accepted, answers, -⟩ := Nfa.accepts_eq_ok inRange input
  refine ⟨outcome, accepted, run, answers, ?_, fun k => ?_, fun stop => ?_, fun empty inhabited => ?_⟩
  · rw [ends.eq_iff, subsets.ends_matched_iff inRange, answers, Except.ok.injEq]
  · rw [ends.eq_iff, subsets.ends_noTransition_iff inRange]
  · rw [ends.eq_iff, subsets.ends_endOfInput_iff inRange, answers, ne_eq, Except.ok.injEq, Bool.not_eq_true]
  · rw [ends.eq_iff, subsets.ends_noTransition_iff inRange]
    exact Nfa.diesAt_zero_of_size_eq_zero inRange empty inhabited

/-- An automaton whose epsilon edges go around a cycle, run on a word that it accepts. -/
theorem determinize_run_matches_on_cycle :
    ∃ nfa : Nfa, nfa.InRange ∧ nfa.accepts "aa" = .ok true ∧
      ∃ dfa, nfa.determinize = .ok dfa ∧ dfa.run "aa" = .ok .matched := by
  let first : NfaState := { epsilon := .ofList [1] }
  let second : NfaState :=
    { accepting := true
      epsilon := .ofList [0]
      letters := (∅ : SortedMap Symbol StateSet).insert 'a' (.ofList [0]) }
  have inRange : Nfa.InRange ⟨#[first, second]⟩ := by decide
  have accepts : Nfa.accepts ⟨#[first, second]⟩ "aa" = .ok true := rfl
  obtain ⟨dfa, success, runs⟩ := determinize_run_follows_simulation inRange
  obtain ⟨outcome, accepted, run, answers, matched, -⟩ := runs "aa"
  have accepted : accepted = true := Except.ok.inj (answers.symm.trans accepts)
  exact ⟨_, inRange, accepts, dfa, success, matched.mpr accepted ▸ run⟩

end PatternAutomata
