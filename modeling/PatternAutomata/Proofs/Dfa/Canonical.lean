import Mathlib.Data.Finset.Card
import PatternAutomata.Proofs.Dfa.Acyclic
import PatternAutomata.Proofs.Dfa.Minimized

/-! # Canonical automata

An automaton is canonical when all of its states are reachable, live and told apart from the others by words.
Each of its states then has a counterpart of its own that accepts the same in any automaton of the same language
(`Canonical.exists_counterparts`). So no automaton of the language has fewer states (`Canonical.size_le`), and
one that is canonical too differs by the numbers of the states alone (`Canonical.exists_isomorphism`).
-/

namespace PatternAutomata.Dfa

variable {dfa other merged : Dfa} {map : StateId → StateId}

/-- Every state is reached by some word, leads to acceptance by some word, and is told apart from any other by
some word. -/
structure Canonical (dfa : Dfa) : Prop where
  inhabited : 0 < dfa.size
  inRange : dfa.InRange
  reachable : ∀ id < dfa.size, dfa.Reachable id
  live : ∀ id < dfa.size, dfa.Live id
  reduced : dfa.Reduced

/-- A reachable and live state accepts what some state of every automaton of the same language accepts. -/
theorem exists_counterpart (same : ∀ word, dfa.Recognizes word ↔ other.Recognizes word) {id : StateId}
    (reachable : dfa.Reachable id) (live : dfa.Live id) :
    ∃ counterpart < other.size, ∀ word, dfa.AcceptsFrom id word ↔ other.AcceptsFrom counterpart word := by
  obtain ⟨front, walk⟩ := reachable
  obtain ⟨rest, accepts⟩ := live
  obtain ⟨target, whole, accepting⟩ := (same _).mp ((acceptsFrom_iff_recognizes walk rest).mp accepts)
  rw [walk?_append] at whole
  obtain ⟨counterpart, otherWalk, later⟩ := Option.bind_eq_some_iff.mp whole
  refine ⟨counterpart, lt_of_acceptsFrom ⟨target, later, accepting⟩, fun word => ?_⟩
  rw [acceptsFrom_iff_recognizes walk, acceptsFrom_iff_recognizes otherWalk, same]

theorem eq_map_of_rel {α β : Type} {f : α → β} {first : Option α} {second : Option β}
    (rel : Option.Rel (fun a b => f a = b) first second) : second = first.map f := by
  cases rel with
  | none => rfl
  | some same => exact congrArg some same.symm

namespace Canonical

/-- The states have counterparts of their own that accept the same. -/
theorem exists_counterparts (canonical : dfa.Canonical)
    (same : ∀ word, dfa.Recognizes word ↔ other.Recognizes word) :
    ∃ counterpart : StateId → StateId,
      Set.MapsTo counterpart {id | id < dfa.size} {id | id < other.size} ∧
      Set.InjOn counterpart {id | id < dfa.size} ∧
      ∀ id < dfa.size, ∀ word, dfa.AcceptsFrom id word ↔ other.AcceptsFrom (counterpart id) word := by
  have counterparts := fun id (owned : id < dfa.size) =>
    exists_counterpart same (canonical.reachable id owned) (canonical.live id owned)
  choose! counterpart owned accepts using counterparts
  refine ⟨counterpart, owned, fun p pOwned q qOwned together => ?_, accepts⟩
  refine canonical.reduced.eq pOwned qOwned fun word => ?_
  rw [accepts p pOwned, accepts q qOwned, together]

/-- No automaton of the same language has fewer states. -/
theorem size_le (canonical : dfa.Canonical) (same : ∀ word, dfa.Recognizes word ↔ other.Recognizes word) :
    dfa.size ≤ other.size := by
  obtain ⟨counterpart, into, injective, -⟩ := canonical.exists_counterparts same
  have bound : (Finset.range dfa.size).card ≤ (Finset.range other.size).card :=
    Finset.card_le_card_of_injOn counterpart
      (fun id member => Finset.mem_range.mpr (into (Finset.mem_range.mp member)))
      (fun p pMember q qMember => injective (Finset.mem_range.mp pMember) (Finset.mem_range.mp qMember))
  simpa only [Finset.card_range] using bound

/-- Canonical automata of the same language are isomorphic. -/
theorem exists_isomorphism (canonical : dfa.Canonical) (otherCanonical : other.Canonical)
    (same : ∀ word, dfa.Recognizes word ↔ other.Recognizes word) : ∃ map, dfa.Isomorphism other map := by
  obtain ⟨counterpart, into, injective, accepts⟩ := canonical.exists_counterparts same
  have unique {id candidate : StateId} (owned : id < dfa.size) (candidateOwned : candidate < other.size)
      (alike : ∀ word, dfa.AcceptsFrom id word ↔ other.AcceptsFrom candidate word) :
      counterpart id = candidate :=
    otherCanonical.reduced.eq (into owned) candidateOwned fun word => (accepts id owned word).symm.trans (alike word)
  refine ⟨counterpart, ?start, ⟨into, injective, ?onto⟩, ?accepting, ?next⟩
  case start => exact unique canonical.inhabited otherCanonical.inhabited same
  case onto =>
    intro candidate candidateOwned
    obtain ⟨id, owned, alike⟩ := exists_counterpart (fun word => (same word).symm)
      (otherCanonical.reachable candidate candidateOwned) (otherCanonical.live candidate candidateOwned)
    exact ⟨id, owned, unique owned candidateOwned fun word => (alike word).symm⟩
  case accepting =>
    intro id owned
    have empty := accepts id owned []
    rwa [acceptsFrom_nil_iff, acceptsFrom_nil_iff, Iff.comm] at empty
  case next =>
    intro id owned symbol
    have leads : (dfa.next? id symbol).isSome ↔ (other.next? (counterpart id) symbol).isSome := by
      simp only [isSome_next?_iff canonical.inRange canonical.live,
        isSome_next?_iff otherCanonical.inRange otherCanonical.live, accepts id owned]
    refine eq_map_of_rel (rel_of_isSome_iff leads fun next otherNext step otherStep => ?_)
    exact unique (canonical.inRange id symbol next step) (otherCanonical.inRange _ symbol otherNext otherStep)
      (acceptsFrom_iff_of_next? (accepts id owned) step otherStep)

end Canonical

theorem Isomorphism.quotient (isomorphism : dfa.Isomorphism other map) : dfa.Quotient other map where
  into _ owned := isomorphism.states.mapsTo owned
  onto _ owned := isomorphism.states.surjOn owned
  start := isomorphism.start
  accepting := isomorphism.accepting
  next? := isomorphism.next?

theorem Quotient.recognizes_iff (quotient : Quotient dfa merged map) (inhabited : 0 < dfa.size)
    (inRange : dfa.InRange) (word : List Symbol) : merged.Recognizes word ↔ dfa.Recognizes word := by
  have owned : StateId.start < dfa.size := inhabited
  have accepts := quotient.acceptsFrom_iff inRange owned word
  rwa [quotient.start] at accepts

/-- Merging an acyclic automaton of reachable and live states makes it canonical. -/
theorem Acyclic.minimize_canonical (acyclic : dfa.Acyclic) (inhabited : 0 < dfa.size) (inRange : dfa.InRange)
    (trim : dfa.Trim) : ∃ merged map, dfa.minimize = .ok merged ∧ dfa.Quotient merged map ∧ merged.Canonical := by
  obtain ⟨merged, map, success, quotient, reduced⟩ := acyclic.minimize_eq_ok inRange trim.live
  obtain ⟨reachable, live⟩ := quotient.trim inRange inhabited trim
  exact ⟨merged, map, success, quotient, quotient.size_pos inhabited, quotient.inRange inRange, reachable, live,
    reduced⟩

end PatternAutomata.Dfa
