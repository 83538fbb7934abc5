import PatternAutomata.Dfa.Occurrence
import PatternAutomata.Proofs.Dfa.Liveness
import PatternAutomata.Proofs.Dfa.Running

/-! # Searches always answer

On an automaton with a start state whose transitions stay inside it, neither the search for the longest
accepted prefix nor the one for the leftmost match can fail. The places where a search cuts the text are
those where a character begins or the text ends, so every cut goes through, and searching the slices finds
what searching symbol by symbol does (`findBySlices?_eq`).
-/

namespace PatternAutomata.Dfa

variable {dfa : Dfa}

theorem extendPrefix_eq_ok (inRange : dfa.InRange) (live : StateSet) {id : StateId} (owned : id < dfa.size)
    (read : Nat) (best : Option Nat) (word : List Symbol) :
    ∃ length, dfa.extendPrefix live id read best word = .ok length := by
  induction word generalizing id read best with
  | nil => exact ⟨best, rfl⟩
  | cons symbol rest ih =>
    by_cases dead : id ∉ live
    · exact ⟨best, by simp only [extendPrefix, dead, not_false_eq_true, ↓reduceIte]⟩
    · simp only [extendPrefix, dead, ↓reduceIte, transition_eq_ok dfa owned, bind, Except.bind]
      cases step : dfa.next? id symbol with
      | none => exact ⟨best, rfl⟩
      | some target =>
        have targetOwned := inRange id symbol target step
        obtain ⟨accepting, success, -⟩ := isAccepting_eq_ok targetOwned
        simp only [success]
        exact ih targetOwned _ _

theorem longestPrefixWith_eq_ok (inhabited : 0 < dfa.size) (inRange : dfa.InRange) (live : StateSet)
    (word : List Symbol) : ∃ length, dfa.longestPrefixWith live word = .ok length := by
  obtain ⟨accepting, success, -⟩ := isAccepting_eq_ok inhabited
  have start : dfa.isAccepting StateId.start = .ok accepting := success
  simp only [longestPrefixWith, start, bind, Except.bind]
  exact extendPrefix_eq_ok inRange live inhabited 0 _ word

theorem findFrom_eq_ok (inhabited : 0 < dfa.size) (inRange : dfa.InRange) (live : StateSet) (start : Nat)
    (word : List Symbol) : ∃ span, dfa.findFrom live start word = .ok span := by
  induction word generalizing start with
  | nil =>
    obtain ⟨length, success⟩ := longestPrefixWith_eq_ok inhabited inRange live []
    cases length with
    | none => exact ⟨none, by simp only [findFrom, success, bind, Except.bind]⟩
    | some length => exact ⟨some ⟨start, start + length⟩, by simp only [findFrom, success, bind, Except.bind]⟩
  | cons symbol rest ih =>
    obtain ⟨length, success⟩ := longestPrefixWith_eq_ok inhabited inRange live (symbol :: rest)
    cases length with
    | none =>
      obtain ⟨span, later⟩ := ih (start + symbol.utf8Size)
      exact ⟨span, by simp only [findFrom, success, later, bind, Except.bind]⟩
    | some length => exact ⟨some ⟨start, start + length⟩, by simp only [findFrom, success, bind, Except.bind]⟩

theorem longestPrefix?_eq_ok (inhabited : 0 < dfa.size) (inRange : dfa.InRange) (input : String) :
    ∃ length, dfa.longestPrefix? input = .ok length := by
  obtain ⟨live, success, -⟩ := liveStates_eq_ok inRange
  simp only [longestPrefix?, success, bind, Except.bind]
  exact longestPrefixWith_eq_ok inhabited inRange live input.toList

theorem find?_eq_ok (inhabited : 0 < dfa.size) (inRange : dfa.InRange) (input : String) :
    ∃ span, dfa.find? input = .ok span := by
  obtain ⟨live, success, -⟩ := liveStates_eq_ok inRange
  simp only [find?, success, bind, Except.bind]
  exact findFrom_eq_ok inhabited inRange live 0 input.toList

/-- Trying the places in the rest of a text finds what searching the rest does. -/
theorem findAmong_boundaries (dfa : Dfa) (live : StateSet) (front rest : List Symbol) :
    dfa.findAmong live (front ++ rest) (Text.boundaries (Text.byteSize front) rest) =
      (dfa.findFrom live (Text.byteSize front) rest).mapError .fault := by
  induction rest generalizing front with
  | nil =>
    simp only [Text.boundaries, findAmong, Text.sliceFrom?_append, findFrom, bind, Except.bind]
    cases dfa.longestPrefixWith live [] with
    | error fault => rfl
    | ok found => cases found <;> rfl
  | cons symbol rest ih =>
    have later := ih (front ++ [symbol])
    have size : Text.byteSize (front ++ [symbol]) = Text.byteSize front + symbol.utf8Size := by
      rw [Text.byteSize_append]
      rfl
    rw [List.append_assoc, List.singleton_append, size] at later
    simp only [Text.boundaries, findAmong, Text.sliceFrom?_append, findFrom, bind, Except.bind]
    cases dfa.longestPrefixWith live (symbol :: rest) with
    | error fault => rfl
    | ok found =>
      cases found with
      | none => exact later
      | some length => rfl

/-- No place that a search tries is inside a character. -/
theorem findBySlices?_eq (dfa : Dfa) (input : String) :
    dfa.findBySlices? input = (dfa.find? input).mapError .fault := by
  have found (live : StateSet) : dfa.findAmong live input.toList (Text.boundaries 0 input.toList) =
      (dfa.findFrom live 0 input.toList).mapError .fault :=
    findAmong_boundaries dfa live [] input.toList
  simp only [findBySlices?, find?, bind, Except.bind]
  cases dfa.liveStates with
  | error fault => rfl
  | ok live => exact found live

end PatternAutomata.Dfa
