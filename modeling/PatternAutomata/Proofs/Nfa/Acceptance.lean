import PatternAutomata.Proofs.Lists
import PatternAutomata.Proofs.Nfa.Closure

/-! # Simulation and paths

Reading a word symbol by symbol keeps exactly the states that paths spelling the word lead to
(`statesAfter_eq_ok`), so simulation accepts exactly the recognized words (`accepts_eq_ok`). Stopping
as soon as the set is empty changes nothing, because no path goes on from nowhere.
-/

namespace PatternAutomata.Nfa

variable {nfa : Nfa}

/-- The closed set of states that reading one more symbol leads to. -/
def advance (nfa : Nfa) (set : StateSet) (symbol : Symbol) : Except Fault StateSet := do
  nfa.closure (← nfa.step set symbol)

/-- The states that the automaton may be in after reading a word. -/
def statesAfter (nfa : Nfa) (word : List Symbol) : Except Fault StateSet := do
  word.foldlM nfa.advance (← nfa.startSet)

def EpsilonClosed (nfa : Nfa) (set : StateSet) : Prop :=
  ∀ source ∈ set, ∀ target, nfa.Path source [] target → target ∈ set

theorem epsilonClosed_of_mem_iff {set closed : StateSet}
    (reaches : ∀ id, id ∈ closed ↔ ∃ source ∈ set, nfa.Path source [] id) : nfa.EpsilonClosed closed := by
  intro source member target path
  obtain ⟨origin, originMember, first⟩ := (reaches source).mp member
  exact (reaches target).mpr ⟨origin, originMember, first.append path⟩

theorem advance_eq_ok (inRange : nfa.InRange) {set : StateSet} (owned : nfa.Owns set) (symbol : Symbol) :
    ∃ next, nfa.advance set symbol = .ok next ∧ nfa.Owns next ∧ nfa.EpsilonClosed next ∧
      ∀ id, id ∈ next ↔
        ∃ source ∈ set, ∃ middle, nfa.Edge source (some symbol) middle ∧ nfa.Path middle [] id := by
  obtain ⟨stepped, stepSuccess, steppedOwned, steps⟩ := step_eq_ok inRange owned symbol
  obtain ⟨next, closeSuccess, nextOwned, closes⟩ := closure_eq_ok inRange steppedOwned
  refine ⟨next, ?_, nextOwned, epsilonClosed_of_mem_iff closes, fun id => ?_⟩
  · simp only [advance, stepSuccess, bind, Except.bind, closeSuccess]
  · rw [closes]
    constructor
    · rintro ⟨middle, member, path⟩
      obtain ⟨source, sourceMember, edge⟩ := (steps middle).mp member
      exact ⟨source, sourceMember, middle, edge, path⟩
    · rintro ⟨source, sourceMember, middle, edge, path⟩
      exact ⟨middle, (steps middle).mpr ⟨source, sourceMember, edge⟩, path⟩

/-- A path over one more symbol from a closed set is a path from where the symbol leads. -/
theorem exists_path_cons_iff {set next : StateSet} {symbol : Symbol} (closed : nfa.EpsilonClosed set)
    (reaches : ∀ id, id ∈ next ↔
      ∃ source ∈ set, ∃ middle, nfa.Edge source (some symbol) middle ∧ nfa.Path middle [] id)
    (word : List Symbol) (target : StateId) :
    (∃ source ∈ set, nfa.Path source (symbol :: word) target) ↔
      ∃ source ∈ next, nfa.Path source word target := by
  constructor
  · rintro ⟨source, member, path⟩
    obtain ⟨before, after, start, edge, rest⟩ := path_cons_iff.mp path
    exact ⟨after, (reaches after).mpr ⟨before, closed source member before start, after, edge, .nil after⟩,
      rest⟩
  · rintro ⟨after, member, path⟩
    obtain ⟨source, sourceMember, middle, edge, close⟩ := (reaches after).mp member
    exact ⟨source, sourceMember, .letter edge (close.append path)⟩

theorem startSet_eq_ok (inRange : nfa.InRange) :
    ∃ set, nfa.startSet = .ok set ∧ nfa.Owns set ∧ nfa.EpsilonClosed set ∧
      ∀ id, id ∈ set ↔ 0 < nfa.size ∧ nfa.Path StateId.start [] id := by
  by_cases empty : nfa.size = 0
  · refine ⟨∅, by simp [startSet, empty], ?_, ?_, by simp [empty]⟩
    · intro id member
      exact absurd member (SortedSet.not_mem_empty id)
    · intro id member
      exact absurd member (SortedSet.not_mem_empty id)
  · have inhabited : 0 < nfa.size := Nat.pos_of_ne_zero empty
    have owned : nfa.Owns (.ofList [StateId.start]) := by
      intro id member
      obtain rfl : id = StateId.start := by simpa using member
      exact inhabited
    obtain ⟨set, success, setOwned, reaches⟩ := closure_eq_ok inRange owned
    refine ⟨set, by simp [startSet, empty, success], setOwned, epsilonClosed_of_mem_iff reaches, ?_⟩
    simp [reaches, inhabited]

/-- What advancing a closed set over a word keeps: exactly the states at the ends of paths. -/
theorem foldlM_advance_eq_ok (inRange : nfa.InRange) (word : List Symbol) {set : StateSet}
    (owned : nfa.Owns set) (closed : nfa.EpsilonClosed set) :
    ∃ reached, word.foldlM nfa.advance set = .ok reached ∧ nfa.Owns reached ∧
      nfa.EpsilonClosed reached ∧ ∀ id, id ∈ reached ↔ ∃ source ∈ set, nfa.Path source word id := by
  induction word generalizing set with
  | nil =>
    refine ⟨set, rfl, owned, closed, fun id => ⟨fun member => ⟨id, member, .nil id⟩, ?_⟩⟩
    rintro ⟨source, member, path⟩
    exact closed source member id path
  | cons symbol rest ih =>
    obtain ⟨next, success, nextOwned, nextClosed, steps⟩ := advance_eq_ok inRange owned symbol
    obtain ⟨reached, restSuccess, reachedOwned, reachedClosed, reaches⟩ := ih nextOwned nextClosed
    have run := foldlM_cons_eq_ok_iff.mpr ⟨next, success, restSuccess⟩
    refine ⟨reached, run, reachedOwned, reachedClosed, fun id => ?_⟩
    rw [reaches, exists_path_cons_iff closed steps]

/-- Simulation keeps exactly the states at the ends of paths that spell the word. -/
theorem statesAfter_eq_ok (inRange : nfa.InRange) (word : List Symbol) :
    ∃ reached, nfa.statesAfter word = .ok reached ∧ nfa.Owns reached ∧
      ∀ id, id ∈ reached ↔ 0 < nfa.size ∧ nfa.Path StateId.start word id := by
  obtain ⟨set, success, owned, closed, starts⟩ := startSet_eq_ok inRange
  obtain ⟨reached, foldSuccess, reachedOwned, _, reaches⟩ := foldlM_advance_eq_ok inRange word owned closed
  refine ⟨reached, ?_, reachedOwned, fun id => ?_⟩
  · simp only [statesAfter, success, bind, Except.bind]
    exact foldSuccess
  · rw [reaches]
    constructor
    · rintro ⟨source, member, path⟩
      obtain ⟨inhabited, start⟩ := (starts source).mp member
      exact ⟨inhabited, start.append path⟩
    · rintro ⟨inhabited, path⟩
      exact ⟨StateId.start, (starts _).mpr ⟨inhabited, .nil _⟩, path⟩

/-- From a closed set, simulation accepts what some path from a member accepts. -/
theorem acceptsFrom_eq_ok (inRange : nfa.InRange) (word : List Symbol) {set : StateSet}
    (owned : nfa.Owns set) (closed : nfa.EpsilonClosed set) :
    ∃ accepted, nfa.acceptsFrom set word = .ok accepted ∧
      (accepted = true ↔ ∃ target, (∃ source ∈ set, nfa.Path source word target) ∧ nfa.Accepting target) := by
  induction word generalizing set with
  | nil =>
    obtain ⟨found, success, finds⟩ := containsAccepting_eq_ok owned
    refine ⟨found, success, finds.trans ⟨?_, ?_⟩⟩
    · rintro ⟨id, member, accepting⟩
      exact ⟨id, ⟨id, member, .nil id⟩, accepting⟩
    · rintro ⟨target, ⟨source, member, path⟩, accepting⟩
      exact ⟨target, closed source member target path, accepting⟩
  | cons symbol rest ih =>
    by_cases empty : set = ∅
    · subst empty
      exact ⟨false, rfl, by simp⟩
    · have inhabited : set.isEmpty = false := by
        rw [Bool.eq_false_iff, ne_eq, SortedSet.isEmpty_iff]
        exact empty
      obtain ⟨next, success, nextOwned, nextClosed, steps⟩ := advance_eq_ok inRange owned symbol
      obtain ⟨accepted, restSuccess, accepts⟩ := ih nextOwned nextClosed
      refine ⟨accepted, ?_, ?_⟩
      · simp only [advance] at success
        simp only [acceptsFrom, inhabited, Bool.false_eq_true, ↓reduceIte]
        cases stepped : nfa.step set symbol with
        | error fault => simp [stepped, bind, Except.bind] at success
        | ok stepped' =>
          simp only [stepped, bind, Except.bind] at success ⊢
          simp only [success, restSuccess]
      · simp only [accepts, exists_path_cons_iff closed steps]

/-- Simulation always answers, and accepts exactly the words that a path to an accepting state
spells. -/
theorem accepts_eq_ok (inRange : nfa.InRange) (input : String) :
    ∃ accepted, nfa.accepts input = .ok accepted ∧ (accepted = true ↔ nfa.Recognizes input.toList) := by
  obtain ⟨set, success, owned, closed, starts⟩ := startSet_eq_ok inRange
  obtain ⟨accepted, run, accepts⟩ := acceptsFrom_eq_ok inRange input.toList owned closed
  refine ⟨accepted, ?_, accepts.trans ⟨?_, ?_⟩⟩
  · simp only [Nfa.accepts, success, bind, Except.bind]
    exact run
  · rintro ⟨target, ⟨source, member, path⟩, accepting⟩
    exact ⟨target, ((starts source).mp member).2.append path, accepting⟩
  · rintro ⟨target, path, accepting⟩
    have inhabited : 0 < nfa.size := Nat.lt_of_le_of_lt (Nat.zero_le _) accepting.lt
    exact ⟨target, ⟨StateId.start, (starts _).mpr ⟨inhabited, .nil _⟩, path⟩, accepting⟩

/-- The input is accepted when some state that simulation keeps to the end accepts. -/
theorem accepts_eq_true_iff (inRange : nfa.InRange) (input : String) {reached : StateSet}
    (success : nfa.statesAfter input.toList = .ok reached) :
    nfa.accepts input = .ok true ↔ ∃ id ∈ reached, nfa.Accepting id := by
  obtain ⟨found, foundSuccess, -, reaches⟩ := statesAfter_eq_ok inRange input.toList
  obtain rfl := Except.ok.inj (success.symm.trans foundSuccess)
  obtain ⟨accepted, answers, recognizes⟩ := accepts_eq_ok inRange input
  rw [answers, Except.ok.injEq, recognizes]
  constructor
  · rintro ⟨target, path, accepting⟩
    exact ⟨target, (reaches target).mpr ⟨Nat.lt_of_le_of_lt (Nat.zero_le _) accepting.lt, path⟩, accepting⟩
  · rintro ⟨target, member, accepting⟩
    exact ⟨target, ((reaches target).mp member).2, accepting⟩

/-- Simulation answers every input: it accepts exactly when epsilon edges and letter edges, in any order and
number, make a path from the start to an accepting state whose letters spell the input. Without states there
is no such path. -/
theorem accepts_iff_exists_path (inRange : nfa.InRange) (input : String) :
    ∃ accepted, nfa.accepts input = .ok accepted ∧
      (accepted = true ↔
        ∃ target, nfa.Path StateId.start input.toList target ∧ nfa.Accepting target) ∧
      (nfa.size = 0 → accepted = false) := by
  obtain ⟨accepted, answers, recognizes⟩ := accepts_eq_ok inRange input
  refine ⟨accepted, answers, recognizes, fun empty => ?_⟩
  rw [Bool.eq_false_iff]
  exact fun accepts => not_recognizes_of_size_eq_zero empty input.toList (recognizes.mp accepts)

/-- A path that goes around a cycle of epsilon edges before its first letter, between its letters and after
its last one. -/
theorem accepts_along_path_around_cycle :
    ∃ nfa : Nfa, nfa.InRange ∧ nfa.Edge 0 none 1 ∧ nfa.Edge 1 none 0 ∧ nfa.Edge 0 (some 'a') 1 ∧
      nfa.accepts "aa" = .ok true := by
  let first : NfaState :=
    { epsilon := .ofList [1], letters := (∅ : SortedMap Symbol StateSet).insert 'a' (.ofList [1]) }
  let second : NfaState := { epsilon := .ofList [0, 2] }
  let last : NfaState := { accepting := true }
  let nfa : Nfa := ⟨#[first, second, last]⟩
  have inRange : nfa.InRange := by decide
  have forth : nfa.Edge 0 none 1 := .epsilon rfl (by decide)
  have back : nfa.Edge 1 none 0 := .epsilon rfl (by decide)
  have out : nfa.Edge 1 none 2 := .epsilon rfl (by decide)
  have letter : nfa.Edge 0 (some 'a') 1 := .letter rfl (by decide)
  have around : nfa.Path 0 [] 0 := .epsilon forth (.ofEpsilon back)
  have between : nfa.Path 1 [] 0 := .epsilon back around
  have path : nfa.Path StateId.start ['a', 'a'] 2 :=
    around.append (.letter letter (between.append (.letter letter (.ofEpsilon out))))
  obtain ⟨accepted, answers, exactly, -⟩ := accepts_iff_exists_path inRange "aa"
  have accepts : accepted = true := exactly.mpr ⟨2, path, last, rfl, rfl⟩
  exact ⟨nfa, inRange, forth, back, letter, accepts ▸ answers⟩

end PatternAutomata.Nfa
