import Mathlib.Logic.Basic
import PatternAutomata.Dfa.Walk

/-! # Telling states apart

A word tells two states apart when it leads to acceptance from exactly one of them. States that no word tells
apart are of no use next to one another, and an automaton without such states is reduced.

Two states agree for `k` steps when words shorter than `k` cannot tell them apart, neither by leading nowhere nor by
acceptance, and every word of length `k` leads both to the very same state. Agreement for no steps is equality.
-/

namespace PatternAutomata.Dfa

variable {dfa : Dfa} {id : StateId} {symbol : Symbol} {word : List Symbol}

/-- The word leads from the state to an accepting one. -/
def AcceptsFrom (dfa : Dfa) (id : StateId) (word : List Symbol) : Prop :=
  ∃ target, dfa.walk? id word = some target ∧ dfa.Accepting target

/-- Only the empty word leads from a state back to it. -/
def Acyclic (dfa : Dfa) : Prop := ∀ id word, dfa.walk? id word = some id → word = []

/-- Any two states are told apart by a word. -/
def Reduced (dfa : Dfa) : Prop :=
  ∀ p < dfa.size, ∀ q < dfa.size, p ≠ q → ∃ word, Xor (dfa.AcceptsFrom p word) (dfa.AcceptsFrom q word)

theorem acceptsFrom_nil_iff : dfa.AcceptsFrom id [] ↔ dfa.Accepting id := by
  simp [AcceptsFrom]

theorem acceptsFrom_cons_iff :
    dfa.AcceptsFrom id (symbol :: word) ↔
      ∃ next, dfa.next? id symbol = some next ∧ dfa.AcceptsFrom next word := by
  simp only [AcceptsFrom, walk?_cons, Option.bind_eq_some_iff]
  constructor
  · rintro ⟨target, ⟨next, step, walk⟩, accepting⟩
    exact ⟨next, step, target, walk, accepting⟩
  · rintro ⟨next, step, target, walk, accepting⟩
    exact ⟨target, ⟨next, step, walk⟩, accepting⟩

/-- What a state accepts is what is recognized after a word that leads to it. -/
theorem acceptsFrom_iff_recognizes (walk : dfa.walk? StateId.start word = some id) (rest : List Symbol) :
    dfa.AcceptsFrom id rest ↔ dfa.Recognizes (word ++ rest) := by
  simp only [AcceptsFrom, Recognizes, walk?_append, walk, Option.bind_some]

/-- States of a reduced automaton that accept the same are the same. -/
theorem Reduced.eq (reduced : dfa.Reduced) {p q : StateId} (pOwned : p < dfa.size) (qOwned : q < dfa.size)
    (same : ∀ word, dfa.AcceptsFrom p word ↔ dfa.AcceptsFrom q word) : p = q := by
  refine Decidable.byContradiction fun differ => ?_
  obtain ⟨word, apart⟩ := reduced p pOwned q qOwned differ
  exact (xor_iff_not_iff _ _).mp apart (same word)

/-- Whether a word leads from a state to an accepting state, if it leads anywhere. -/
def verdict? (dfa : Dfa) (id : StateId) (word : List Symbol) : Option Bool :=
  (dfa.walk? id word).bind fun target => dfa.states[target]?.map DfaState.accepting

/-- The two states cannot be told apart by words shorter than `steps`, and words of that length
lead both to one state. -/
structure AgreesFor (dfa : Dfa) (steps : Nat) (p q : StateId) : Prop where
  walks : ∀ word : List Symbol, word.length < steps →
    ((dfa.walk? p word).isSome ↔ (dfa.walk? q word).isSome)
  verdicts : ∀ word : List Symbol, word.length < steps → dfa.verdict? p word = dfa.verdict? q word
  meets : ∀ word : List Symbol, word.length = steps → dfa.walk? p word = dfa.walk? q word

namespace AgreesFor

variable {steps : Nat} {p q : StateId}

theorem refl (p : StateId) : dfa.AgreesFor steps p p :=
  ⟨fun _ _ => Iff.rfl, fun _ _ => rfl, fun _ _ => rfl⟩

theorem zero_iff : dfa.AgreesFor 0 p q ↔ p = q := by
  constructor
  · intro agree
    have same := agree.meets [] rfl
    simpa using same
  · rintro rfl
    exact refl p

end AgreesFor

end PatternAutomata.Dfa
