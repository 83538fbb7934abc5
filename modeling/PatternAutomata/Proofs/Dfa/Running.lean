import PatternAutomata.Dfa.Matching
import PatternAutomata.Proofs.Dfa.Transitions

/-! # How a run ends

On an automaton whose transitions stay inside it a run always ends, and walks say how: it matches
when the whole word leads to an accepting state, and otherwise it ends after the longest part of the
word that leads anywhere (`runFrom_eq_ok`, `Ends.eq_iff`).
-/

namespace PatternAutomata.Dfa

variable {dfa : Dfa} {id : StateId} {offset : Nat} {word : List Symbol}

/-- What walks say about how a run over a word ends that begins in a state after `offset` symbols. -/
def Ends (dfa : Dfa) (id : StateId) (offset : Nat) (word : List Symbol) : Outcome → Prop
  | .matched => ∃ target, dfa.walk? id word = some target ∧ dfa.Accepting target
  | .noTransition stop => ∃ front symbol rest last, word = front ++ symbol :: rest ∧
      stop = offset + front.length ∧ dfa.walk? id front = some last ∧ dfa.next? last symbol = none
  | .endOfInput stop => stop = offset + word.length ∧
      ∃ target, dfa.walk? id word = some target ∧ ¬ dfa.Accepting target

/-- A word leads nowhere if a part of it at its beginning leads nowhere. -/
theorem walk?_eq_none_of_next? {front rest : List Symbol} {symbol : Symbol} {last : StateId}
    (walk : dfa.walk? id front = some last) (stuck : dfa.next? last symbol = none) :
    dfa.walk? id (front ++ symbol :: rest) = none := by
  rw [walk?_append, walk, Option.bind_some, walk?_cons, stuck, Option.bind_none]

theorem exists_walk?_take {target : StateId} (walk : dfa.walk? id word = some target) (count : Nat) :
    ∃ middle, dfa.walk? id (word.take count) = some middle := by
  rw [← List.take_append_drop count word, walk?_append] at walk
  obtain ⟨middle, begins, -⟩ := Option.bind_eq_some_iff.mp walk
  exact ⟨middle, begins⟩

/-- Two places where a run could stop are the same place. -/
theorem length_eq_of_stuck {front other rest otherRest : List Symbol} {symbol otherSymbol : Symbol}
    {last otherLast : StateId} (same : front ++ symbol :: rest = other ++ otherSymbol :: otherRest)
    (walk : dfa.walk? id front = some last) (stuck : dfa.next? last symbol = none)
    (otherWalk : dfa.walk? id other = some otherLast) (otherStuck : dfa.next? otherLast otherSymbol = none) :
    front.length = other.length := by
  -- where one part goes on beyond the other, it leads nowhere
  have beyond {a b aRest bRest : List Symbol} {x y : Symbol} {p q : StateId}
      (same : a ++ x :: aRest = b ++ y :: bRest) (aWalk : dfa.walk? id a = some p)
      (aStuck : dfa.next? p x = none) (bWalk : dfa.walk? id b = some q) : ¬ a.length < b.length := by
    intro shorter
    obtain ⟨more, rfl⟩ := List.prefix_of_prefix_length_le (same ▸ List.prefix_append a (x :: aRest))
      (List.prefix_append b (y :: bRest)) (Nat.le_of_lt shorter)
    rw [List.append_assoc, List.append_cancel_left_eq] at same
    cases more with
    | nil => simp at shorter
    | cons z more =>
      obtain rfl := (List.cons.inj same).1
      rw [walk?_eq_none_of_next? aWalk aStuck] at bWalk
      cases bWalk
  have notShorter := beyond same walk stuck otherWalk
  have notLonger := beyond same.symm otherWalk otherStuck walk
  omega

/-- A run over a word ends in only one way. -/
theorem Ends.unique {first second : Outcome} (left : dfa.Ends id offset word first)
    (right : dfa.Ends id offset word second) : first = second := by
  have whole {stop : Nat} {target : StateId} (stuck : dfa.Ends id offset word (.noTransition stop))
      (walk : dfa.walk? id word = some target) : False := by
    obtain ⟨front, symbol, rest, last, rfl, -, reach, absent⟩ := stuck
    rw [walk?_eq_none_of_next? reach absent] at walk
    cases walk
  cases first with
  | matched =>
    obtain ⟨target, walk, accepting⟩ := left
    cases second with
    | matched => rfl
    | noTransition stop => exact (whole right walk).elim
    | endOfInput stop =>
      obtain ⟨-, other, otherWalk, rejecting⟩ := right
      obtain rfl := Option.some.inj (walk.symm.trans otherWalk)
      exact absurd accepting rejecting
  | noTransition stop =>
    cases second with
    | matched =>
      obtain ⟨target, walk, -⟩ := right
      exact (whole left walk).elim
    | noTransition otherStop =>
      obtain ⟨front, symbol, rest, last, rfl, rfl, walk, stuck⟩ := left
      obtain ⟨other, otherSymbol, otherRest, otherLast, same, rfl, otherWalk, otherStuck⟩ := right
      rw [length_eq_of_stuck same walk stuck otherWalk otherStuck]
    | endOfInput otherStop =>
      obtain ⟨-, target, walk, -⟩ := right
      exact (whole left walk).elim
  | endOfInput stop =>
    obtain ⟨rfl, target, walk, rejecting⟩ := left
    cases second with
    | matched =>
      obtain ⟨other, otherWalk, accepting⟩ := right
      obtain rfl := Option.some.inj (walk.symm.trans otherWalk)
      exact absurd accepting rejecting
    | noTransition otherStop => exact (whole right walk).elim
    | endOfInput otherStop =>
      obtain ⟨rfl, -⟩ := right
      rfl

/-- Walks determine how a run ends. -/
theorem Ends.eq_iff {outcome other : Outcome} (ends : dfa.Ends id offset word outcome) :
    outcome = other ↔ dfa.Ends id offset word other :=
  ⟨fun same => same ▸ ends, ends.unique⟩

/-- Taking a transition first, a run ends as the run from where it leads. -/
theorem Ends.cons {symbol : Symbol} {target : StateId} {outcome : Outcome}
    (next : dfa.next? id symbol = some target) (ends : dfa.Ends target (offset + 1) word outcome) :
    dfa.Ends id offset (symbol :: word) outcome := by
  have walk (rest : List Symbol) : dfa.walk? id (symbol :: rest) = dfa.walk? target rest := by
    rw [walk?_cons, next, Option.bind_some]
  cases outcome with
  | matched =>
    obtain ⟨last, reach, accepting⟩ := ends
    exact ⟨last, (walk word).trans reach, accepting⟩
  | noTransition stop =>
    obtain ⟨front, other, rest, last, rfl, rfl, reach, stuck⟩ := ends
    exact ⟨symbol :: front, other, rest, last, rfl, by simp only [List.length_cons]; omega,
      (walk front).trans reach, stuck⟩
  | endOfInput stop =>
    obtain ⟨rfl, last, reach, rejecting⟩ := ends
    exact ⟨by simp only [List.length_cons]; omega, last, (walk word).trans reach, rejecting⟩

/-- A run always ends, in a way that walks allow. -/
theorem runFrom_eq_ok (inRange : dfa.InRange) (owned : id < dfa.size) (offset : Nat) (word : List Symbol) :
    ∃ outcome, dfa.runFrom id offset word = .ok outcome ∧ dfa.Ends id offset word outcome := by
  induction word generalizing id offset with
  | nil =>
    obtain ⟨accepting, success, accepts⟩ := isAccepting_eq_ok owned
    cases accepting with
    | true => exact ⟨.matched, by simp [runFrom, success, bind, Except.bind], id, rfl, accepts.mp rfl⟩
    | false =>
      refine ⟨.endOfInput offset, by simp [runFrom, success, bind, Except.bind], rfl, id, rfl, ?_⟩
      intro accepting
      exact Bool.false_ne_true (accepts.mpr accepting)
  | cons symbol rest ih =>
    have step := dfa.transition_eq_ok owned symbol
    cases next : dfa.next? id symbol with
    | none =>
      refine ⟨.noTransition offset, ?_, [], symbol, rest, id, rfl, rfl, rfl, next⟩
      simp only [runFrom, step, next, bind, Except.bind]
    | some target =>
      obtain ⟨outcome, success, ends⟩ := ih (inRange id symbol target next) (offset + 1)
      refine ⟨outcome, ?_, ends.cons next⟩
      simp only [runFrom, step, next, bind, Except.bind]
      exact success

/-- Matching always answers, and an input matches when it leads from the start to an accepting state. -/
theorem isMatch_eq_ok (inhabited : 0 < dfa.size) (inRange : dfa.InRange) (input : String) :
    ∃ matched, dfa.isMatch input = .ok matched ∧ (matched = true ↔ dfa.Recognizes input.toList) := by
  obtain ⟨outcome, run, ends⟩ := runFrom_eq_ok inRange inhabited 0 input.toList
  have success : dfa.run input = .ok outcome := run
  refine ⟨outcome.isMatch, by simp only [isMatch, success, bind, Except.bind], ?_⟩
  have matches_iff : outcome.isMatch = true ↔ outcome = .matched := by
    cases outcome <;> simp [Outcome.isMatch]
  exact matches_iff.trans ends.eq_iff

end PatternAutomata.Dfa
