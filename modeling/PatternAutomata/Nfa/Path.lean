import PatternAutomata.Nfa.Basic

/-! # Paths of a nondeterministic automaton

`Nfa.Path nfa source word target` is a finite run that consumes exactly a word, with epsilon edges
anywhere between its letters. It says what an automaton means without saying how to run it: a word
is recognized when some path from the start to an accepting state consumes it. Paths compose at a
shared end (`Path.append`).
-/

namespace PatternAutomata.Nfa

/-- A single edge, labelled by the symbol that it consumes, if any. -/
inductive Edge (nfa : Nfa) : StateId → Option Symbol → StateId → Prop
  | epsilon {source target : StateId} {state : NfaState} (read : nfa.states[source]? = some state)
      (member : target ∈ state.epsilon) : Edge nfa source none target
  | letter {source target : StateId} {symbol : Symbol} {state : NfaState}
      (read : nfa.states[source]? = some state) (member : target ∈ state.targets symbol) :
      Edge nfa source (some symbol) target

/-- A run that consumes exactly a word. -/
inductive Path (nfa : Nfa) : StateId → List Symbol → StateId → Prop
  | nil (id : StateId) : Path nfa id [] id
  | epsilon {source next target : StateId} {word : List Symbol} (edge : nfa.Edge source none next)
      (rest : Path nfa next word target) : Path nfa source word target
  | letter {source next target : StateId} {symbol : Symbol} {word : List Symbol}
      (edge : nfa.Edge source (some symbol) next) (rest : Path nfa next word target) :
      Path nfa source (symbol :: word) target

/-- A state that the automaton has and that accepts. -/
def Accepting (nfa : Nfa) (id : StateId) : Prop :=
  ∃ state, nfa.states[id]? = some state ∧ state.accepting = true

/-- Some path from the start to an accepting state consumes the word. -/
def Recognizes (nfa : Nfa) (word : List Symbol) : Prop :=
  ∃ target, nfa.Path StateId.start word target ∧ nfa.Accepting target

/-- Some path leads from the state to an accepting one. -/
def Live (nfa : Nfa) (id : StateId) : Prop :=
  ∃ word target, nfa.Path id word target ∧ nfa.Accepting target

/-- The word is a prefix of a recognized one. -/
def Viable (nfa : Nfa) (word : List Symbol) : Prop := ∃ rest, nfa.Recognizes (word ++ rest)

/-- Every edge leads to a state that the automaton has. -/
def InRange (nfa : Nfa) : Prop :=
  ∀ source label target, nfa.Edge source label target → target < nfa.size

namespace Path

variable {nfa : Nfa}

theorem append {source middle target : StateId} {first second : List Symbol}
    (left : nfa.Path source first middle) (right : nfa.Path middle second target) :
    nfa.Path source (first ++ second) target := by
  induction left with
  | nil _ => exact right
  | epsilon edge _ ih => exact .epsilon edge (ih right)
  | letter edge _ ih => exact .letter edge (ih right)

/-- A path over two words passes a state between them. -/
theorem exists_middle {source target : StateId} {first second : List Symbol}
    (path : nfa.Path source (first ++ second) target) :
    ∃ middle, nfa.Path source first middle ∧ nfa.Path middle second target := by
  generalize whole : first ++ second = word at path
  induction path generalizing first with
  | nil id =>
    obtain ⟨rfl, rfl⟩ := List.append_eq_nil_iff.mp whole
    exact ⟨id, .nil id, .nil id⟩
  | epsilon edge _ ih =>
    obtain ⟨middle, before, after⟩ := ih whole
    exact ⟨middle, .epsilon edge before, after⟩
  | @letter source next target symbol word edge rest ih =>
    cases first with
    | nil =>
      rw [List.nil_append] at whole
      exact ⟨source, .nil source, whole ▸ .letter edge rest⟩
    | cons other front =>
      obtain ⟨rfl, same⟩ := List.cons.inj whole
      obtain ⟨middle, before, after⟩ := ih same
      exact ⟨middle, .letter edge before, after⟩

theorem ofEpsilon {source target : StateId} (edge : nfa.Edge source none target) :
    nfa.Path source [] target :=
  .epsilon edge (.nil target)

end Path

theorem not_recognizes_of_size_eq_zero {nfa : Nfa} (empty : nfa.size = 0) (word : List Symbol) :
    ¬ nfa.Recognizes word := by
  rintro ⟨target, _, state, read, _⟩
  have owned := (Array.getElem?_eq_some_iff.mp read).1
  simp only [size] at empty
  omega

end PatternAutomata.Nfa
