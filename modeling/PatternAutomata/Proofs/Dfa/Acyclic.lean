import Mathlib.Data.Finset.Card
import PatternAutomata.Dfa.Separation
import PatternAutomata.Proofs.Dfa.Classes
import PatternAutomata.Proofs.Dfa.Quotient

/-! # Merging is complete on acyclic automata

A walk of an acyclic automaton is shorter than its number of states (`Acyclic.length_lt`). If all states are
live, two of them that accept the same words agree for as many steps as no walk from one of them has
(`agreesFor_of_acceptsFrom_iff`), so merging identifies them, and its result is reduced
(`Acyclic.minimize_eq_ok`). A trim automaton is acyclic when the words that it recognizes are bounded
(`Trim.acyclic_of_bounded`).
-/

namespace PatternAutomata.Dfa

variable {dfa merged : Dfa} {p q : StateId}

/-- An acyclic automaton has no walk as long as it has states. -/
theorem Acyclic.length_lt (acyclic : dfa.Acyclic) (inRange : dfa.InRange) {id target : StateId}
    {word : List Symbol} (owned : id < dfa.size) (walk : dfa.walk? id word = some target) :
    word.length < dfa.size := by
  choose stop reaches using exists_walk?_take walk
  by_contra long
  have inside : ∀ count ∈ Finset.range (word.length + 1), stop count ∈ Finset.range dfa.size :=
    fun count _ => Finset.mem_range.mpr (walk?_lt inRange owned (reaches count))
  have fewer : (Finset.range dfa.size).card < (Finset.range (word.length + 1)).card := by
    simp only [Finset.card_range]
    omega
  obtain ⟨i, iWithin, j, jWithin, differ, same⟩ := Finset.exists_ne_map_eq_of_card_lt_of_maps_to fewer inside
  wlog before : i < j generalizing i j
  · exact this j jWithin i iWithin differ.symm same.symm (by omega)
  -- what is read between the two visits leads from the state back to it
  have front : (word.take j).take i = word.take i := by
    rw [List.take_take, Nat.min_eq_left (Nat.le_of_lt before)]
  have split : word.take j = word.take i ++ (word.take j).drop i := by rw [← front, List.take_append_drop]
  have around : dfa.walk? (stop i) ((word.take j).drop i) = some (stop i) := by
    have later := reaches j
    rwa [split, walk?_append, reaches i, Option.bind_some, ← same] at later
  have nothing := congrArg List.length (acyclic _ _ around)
  have bound := Finset.mem_range.mp jWithin
  simp only [List.length_drop, List.length_take, List.length_nil] at nothing
  omega

/-- Where transitions lead to higher numbers only, no walk leads back. -/
theorem acyclic_of_ascending (ascending : ∀ edge ∈ dfa.edges, edge.1 < edge.2) : dfa.Acyclic := by
  have climbs (word : List Symbol) (id target : Nat) (walk : dfa.walk? id word = some target) :
      id + word.length ≤ target := by
    induction word generalizing id with
    | nil => exact Nat.le_of_eq (Option.some.inj walk)
    | cons symbol rest ih =>
      obtain ⟨next, step, later⟩ := Option.bind_eq_some_iff.mp walk
      have higher : id < next := ascending (id, next) (mem_edges_iff.mpr ⟨symbol, step⟩)
      have above := ih next later
      rw [List.length_cons]
      omega
  intro id word walk
  have above := climbs word id id walk
  exact List.eq_nil_of_length_eq_zero (Nat.le_zero.mp (Nat.le_of_add_le_add_left above))

theorem lt_of_acceptsFrom {id : StateId} {word : List Symbol} (accepts : dfa.AcceptsFrom id word) :
    id < dfa.size := by
  cases word with
  | nil => exact (acceptsFrom_nil_iff.mp accepts).lt
  | cons symbol rest =>
    obtain ⟨next, step, -⟩ := acceptsFrom_cons_iff.mp accepts
    exact lt_of_next? step

/-- Where all states are live, a symbol leads somewhere when some word that it begins is accepted. -/
theorem isSome_next?_iff (inRange : dfa.InRange) (live : ∀ id < dfa.size, dfa.Live id) {id : StateId}
    {symbol : Symbol} : (dfa.next? id symbol).isSome ↔ ∃ rest, dfa.AcceptsFrom id (symbol :: rest) := by
  rw [Option.isSome_iff_exists]
  constructor
  · rintro ⟨next, step⟩
    obtain ⟨rest, accepts⟩ := live next (inRange id symbol next step)
    exact ⟨rest, acceptsFrom_cons_iff.mpr ⟨next, step, accepts⟩⟩
  · rintro ⟨rest, accepts⟩
    obtain ⟨next, step, -⟩ := acceptsFrom_cons_iff.mp accepts
    exact ⟨next, step⟩

/-- States that accept the same words lead to states that accept the same words. -/
theorem acceptsFrom_iff_of_next? {other : Dfa} {pNext qNext : StateId} {symbol : Symbol}
    (same : ∀ word, dfa.AcceptsFrom p word ↔ other.AcceptsFrom q word) (pStep : dfa.next? p symbol = some pNext)
    (qStep : other.next? q symbol = some qNext) (word : List Symbol) :
    dfa.AcceptsFrom pNext word ↔ other.AcceptsFrom qNext word := by
  have here := same (symbol :: word)
  simpa only [acceptsFrom_cons_iff, pStep, qStep, Option.some.injEq, exists_eq_left'] using here

/-- Live states that accept the same words agree for more steps than any walk from one of them has. -/
theorem agreesFor_of_acceptsFrom_iff (inRange : dfa.InRange) (live : ∀ id < dfa.size, dfa.Live id) {bound : Nat}
    (pOwned : p < dfa.size) (qOwned : q < dfa.size)
    (short : ∀ word target, dfa.walk? p word = some target → word.length < bound)
    (same : ∀ word, dfa.AcceptsFrom p word ↔ dfa.AcceptsFrom q word) : dfa.AgreesFor bound p q := by
  -- by induction on the height of the first state, for all pairs at once
  induction bound generalizing p q with
  | zero => exact absurd (short [] p rfl) (Nat.not_lt_zero _)
  | succ bound ih =>
    refine (agreesFor_succ_iff pOwned qOwned).mpr ⟨?_, fun symbol => ?_⟩
    · simpa only [acceptsFrom_nil_iff] using same []
    have leads : (dfa.next? p symbol).isSome ↔ (dfa.next? q symbol).isSome := by
      simp only [isSome_next?_iff inRange live, same]
    refine rel_of_isSome_iff leads fun pNext qNext pStep qStep => ?_
    refine ih (inRange p symbol pNext pStep) (inRange q symbol qNext qStep) (fun word target walk => ?_)
      (acceptsFrom_iff_of_next? same pStep qStep)
    have longer := short (symbol :: word) target (by rw [walk?_cons, pStep, Option.bind_some, walk])
    exact Nat.lt_of_succ_lt_succ longer

/-- Merging an acyclic automaton of live states leaves no two states that accept the same words. -/
theorem Acyclic.minimize_eq_ok (acyclic : dfa.Acyclic) (inRange : dfa.InRange)
    (live : ∀ id < dfa.size, dfa.Live id) :
    ∃ merged map, dfa.minimize = .ok merged ∧ dfa.Quotient merged map ∧ merged.Reduced := by
  obtain ⟨results, -, passes, success⟩ := Dfa.minimize_eq_ok inRange
  have quotient := passes.quotient_stateAfter inRange
  refine ⟨_, _, success, quotient, fun a aOwned b bOwned differ => ?_⟩
  obtain ⟨p, pOwned, rfl⟩ := quotient.onto a aOwned
  obtain ⟨q, qOwned, rfl⟩ := quotient.onto b bOwned
  by_contra together
  have same (word : List Symbol) : dfa.AcceptsFrom p word ↔ dfa.AcceptsFrom q word := by
    rw [← quotient.acceptsFrom_iff inRange pOwned, ← quotient.acceptsFrom_iff inRange qOwned]
    by_contra apart
    exact together ⟨word, (xor_iff_not_iff _ _).mpr apart⟩
  have agree : dfa.AgreesFor dfa.size p q :=
    agreesFor_of_acceptsFrom_iff inRange live pOwned qOwned (fun _ _ => acyclic.length_lt inRange pOwned) same
  exact differ ((passes.stateAfter_eq_iff_exists inRange pOwned qOwned).mpr ⟨_, agree⟩)

theorem walk?_replicate_flatten {id : StateId} {word : List Symbol} (walk : dfa.walk? id word = some id)
    (times : Nat) : dfa.walk? id (List.replicate times word).flatten = some id := by
  induction times with
  | zero => rfl
  | succ times ih => rw [List.replicate_succ, List.flatten_cons, walk?_append, walk, Option.bind_some, ih]

/-- A cycle that can be reached and left again can be gone around any number of times. -/
theorem Trim.acyclic_of_bounded (trim : dfa.Trim) {bound : Nat}
    (bounded : ∀ word, dfa.Recognizes word → word.length ≤ bound) : dfa.Acyclic := by
  intro id word walk
  cases word with
  | nil => rfl
  | cons symbol rest =>
    obtain ⟨next, step, -⟩ := Option.bind_eq_some_iff.mp walk
    obtain ⟨front, arrives⟩ := trim.reachable id (lt_of_next? step)
    obtain ⟨back, target, leaves, accepting⟩ := trim.live id (lt_of_next? step)
    have around := walk?_replicate_flatten walk (bound + 1)
    have often : bound + 1 ≤ (List.replicate (bound + 1) (symbol :: rest)).flatten.length := by
      rw [List.length_flatten, List.map_replicate, List.sum_replicate_nat]
      exact Nat.le_mul_of_pos_right _ (Nat.succ_pos _)
    have long := bounded (front ++ ((List.replicate (bound + 1) (symbol :: rest)).flatten ++ back))
      ⟨target, by simp only [walk?_append, arrives, around, leaves, Option.bind_some], accepting⟩
    simp only [List.length_append] at long
    omega

end PatternAutomata.Dfa
