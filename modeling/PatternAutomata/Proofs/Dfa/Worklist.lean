import PatternAutomata.Dfa.Worklist
import PatternAutomata.Proofs.Dfa.Interning
import PatternAutomata.Proofs.Lists

/-! # The table of numbers keeps up with the states

A construction that keeps the numbers of its sets in a table of their own goes along with the one that finds
them among the origins of the states (`Worklist.Tracks`). There are as many numbers as states, every pending
set is in the table, and the targets of transitions are states, so it goes through with the same result
(`Worklist.determinize_eq`).
-/

namespace PatternAutomata.Worklist

variable {nfa : Nfa} {table further : Worklist} {work next : SubsetConstruction}

/-- Both constructions have built the same, the same sets wait, and the table has the states and their
origins. -/
structure Tracks (table : Worklist) (work : SubsetConstruction) : Prop where
  dfa : table.dfa = work.dfa
  pending : table.pending = work.pending.map Prod.snd
  lookup : ∀ set id, table.ids.lookup set = some id ↔ work.dfa.StandsFor id set
  length : table.ids.length = work.dfa.size

theorem Tracks.nothing : Tracks {} {} where
  dfa := rfl
  pending := rfl
  lookup _ id := iff_of_false nofun fun stands => Nat.not_lt_zero id stands.lt
  length := rfl

theorem Tracks.intern (tracks : Tracks table work) {set : StateSet} {id : StateId}
    (success : work.intern nfa set = .ok (next, id)) :
    ∃ further, table.intern nfa set = .ok (further, id) ∧ Tracks further next := by
  unfold SubsetConstruction.intern at success
  cases found : work.idOf? set with
  | some known =>
    simp only [found, Except.ok.injEq, Prod.mk.injEq] at success
    obtain ⟨rfl, rfl⟩ := success
    have listed := (tracks.lookup set known).mpr (SubsetConstruction.idOf?_eq_some found)
    exact ⟨table, by simp only [Worklist.intern, listed], tracks⟩
  | none =>
    have fresh := SubsetConstruction.idOf?_eq_none found
    have absent : table.ids.lookup set = none := by
      rw [Option.eq_none_iff_forall_ne_some]
      exact fun known listed => fresh known ((tracks.lookup set known).mp listed)
    simp only [found] at success
    obtain ⟨accepting, accepts, success⟩ := bind_eq_ok_iff.mp success
    obtain ⟨rfl, rfl⟩ := Prod.mk.inj (Except.ok.inj success)
    -- the table has as many sets as there are states, so both give the same next number
    refine ⟨{ ids := (set, work.dfa.size) :: table.ids
              pending := set :: table.pending
              dfa := table.dfa.push { accepting, origin := some set } }, ?_, ?_, ?_, ?_, ?_⟩
    · simp only [Worklist.intern, absent, accepts, bind, Except.bind, tracks.length]
    · simp only [tracks.dfa]
    · simp only [tracks.pending, List.map_cons]
    · intro other known
      rw [Dfa.standsFor_push, ← tracks.lookup, List.lookup_cons, Option.some.injEq]
      by_cases same : other = set
      · subst same
        simp [absent, eq_comm]
      · simp [beq_eq_false_iff_ne.mpr same, Ne.symm same]
    · simp only [List.length_cons, tracks.length, Dfa.size_push]

/-- Where a transition is added its target is a state, so nothing need be asked of it. -/
theorem Tracks.addTransition (tracks : Tracks table work) {id target : StateId} {symbol : Symbol} {dfa : Dfa}
    (added : work.dfa.addTransition id symbol target = .ok dfa) :
    table.dfa.update id (fun state =>
        { state with transitions := state.transitions.insert symbol target }) = .ok dfa ∧
      Tracks { table with dfa } { work with dfa } := by
  obtain ⟨source, reached⟩ := Dfa.lt_of_addTransition added
  obtain ⟨updated, success, sameSize, -, stands, -⟩ := Dfa.addTransition_eq_ok symbol source reached
  obtain rfl := Except.ok.inj (added.symm.trans success)
  refine ⟨?_, rfl, tracks.pending, fun set p => ?_, tracks.length.trans sameSize.symm⟩
  · rwa [Dfa.addTransition, if_pos reached, ← tracks.dfa] at added
  · rw [tracks.lookup, stands]

theorem Tracks.expandOn (tracks : Tracks table work) {id : StateId} {set : StateSet} {symbol : Symbol}
    (success : work.expandOn nfa id set symbol = .ok next) :
    ∃ further, table.expandOn nfa id set symbol = .ok further ∧ Tracks further next := by
  obtain ⟨stepped, step, success⟩ := bind_eq_ok_iff.mp success
  by_cases empty : stepped.isEmpty
  · rw [if_pos empty] at success
    obtain rfl := Except.ok.inj success
    refine ⟨table, ?_, tracks⟩
    simp only [Worklist.expandOn, step, bind, Except.bind, if_pos empty]
  · rw [if_neg empty] at success
    obtain ⟨closed, close, success⟩ := bind_eq_ok_iff.mp success
    obtain ⟨⟨interned, target⟩, numbered, success⟩ := bind_eq_ok_iff.mp success
    obtain ⟨dfa, added, success⟩ := bind_eq_ok_iff.mp success
    obtain rfl := Except.ok.inj success
    obtain ⟨middle, tableNumbered, middleTracks⟩ := tracks.intern numbered
    obtain ⟨updated, furtherTracks⟩ := middleTracks.addTransition added
    refine ⟨_, ?_, furtherTracks⟩
    simp only [Worklist.expandOn, step, bind, Except.bind, if_neg empty, close, tableNumbered, updated]

theorem Tracks.expandOnAll {id : StateId} {set : StateSet} {symbols : List Symbol}
    (tracks : Tracks table work)
    (success : symbols.foldlM (SubsetConstruction.expandOn nfa id set) work = .ok next) :
    ∃ further, symbols.foldlM (Worklist.expandOn nfa id set) table = .ok further ∧ Tracks further next := by
  induction symbols generalizing table work with
  | nil =>
    obtain rfl := Except.ok.inj success
    exact ⟨table, rfl, tracks⟩
  | cons symbol rest ih =>
    obtain ⟨after, step, later⟩ := foldlM_cons_eq_ok_iff.mp success
    obtain ⟨middle, tableStep, middleTracks⟩ := tracks.expandOn step
    obtain ⟨further, run, furtherTracks⟩ := ih middleTracks later
    exact ⟨further, foldlM_cons_eq_ok_iff.mpr ⟨middle, tableStep, run⟩, furtherTracks⟩

variable {owed : StateId → Symbol → Prop}

/-- A set that waits stands for a state, so its number is found and is the one it waits with. -/
theorem Tracks.expandNext {alphabet : Alphabet} (tracks : Tracks table work)
    (progress : SubsetConstruction.Progress nfa owed work)
    (success : work.expandNext nfa alphabet = .ok next) :
    ∃ further, table.expandNext nfa alphabet = .ok further ∧ Tracks further next := by
  have waiting := tracks.pending
  cases front : work.pending with
  | nil =>
    rw [front, List.map_nil] at waiting
    simp only [SubsetConstruction.expandNext, front] at success
    obtain rfl := Except.ok.inj success
    exact ⟨table, by simp only [Worklist.expandNext, waiting], tracks⟩
  | cons entry pending =>
    obtain ⟨id, set⟩ := entry
    rw [front, List.map_cons] at waiting
    have listed : table.ids.lookup set = some id :=
      (tracks.lookup set id).mpr (progress.pending id set (by simp [front]))
    have taken : Tracks { table with pending := pending.map Prod.snd } { work with pending } :=
      ⟨tracks.dfa, rfl, tracks.lookup, tracks.length⟩
    simp only [SubsetConstruction.expandNext, front] at success
    obtain ⟨further, run, furtherTracks⟩ := taken.expandOnAll success
    refine ⟨further, ?_, furtherTracks⟩
    simp only [Worklist.expandNext, waiting, listed, run, Except.mapError]

/-- Rounds after which no set waits go along. -/
theorem Tracks.expandAll (inRange : nfa.InRange) (rounds : Nat) (tracks : Tracks table work)
    (progress : SubsetConstruction.Progress nfa (fun _ _ => False) work)
    (success : work.expandAll nfa nfa.alphabet rounds = .ok next) (done : next.pending = []) :
    ∃ further, table.expandAll nfa nfa.alphabet rounds = .ok further ∧ Tracks further next := by
  -- the same sets wait on both sides, so both stop after the same round
  induction rounds generalizing table work with
  | zero =>
    obtain rfl := Except.ok.inj success
    have waiting := tracks.pending
    rw [done, List.map_nil] at waiting
    exact ⟨table, by simp only [Worklist.expandAll, waiting, List.isEmpty_nil, if_true], tracks⟩
  | succ rounds ih =>
    have waiting := tracks.pending
    cases front : work.pending with
    | nil =>
      rw [front, List.map_nil] at waiting
      simp only [SubsetConstruction.expandAll, front, List.isEmpty_nil, if_true] at success
      obtain rfl := Except.ok.inj success
      exact ⟨table, by simp only [Worklist.expandAll, waiting, List.isEmpty_nil, if_true], tracks⟩
    | cons entry pending =>
      rw [front, List.map_cons] at waiting
      simp only [SubsetConstruction.expandAll, front, List.isEmpty_cons, Bool.false_eq_true, if_false] at success
      obtain ⟨after, step, later⟩ := bind_eq_ok_iff.mp success
      obtain ⟨same, sameStep, afterProgress, -⟩ := progress.expandNext inRange front
      obtain rfl := Except.ok.inj (step.symm.trans sameStep)
      obtain ⟨middle, tableStep, middleTracks⟩ := tracks.expandNext progress step
      obtain ⟨further, run, furtherTracks⟩ := ih middleTracks afterProgress later
      refine ⟨further, ?_, furtherTracks⟩
      simp only [Worklist.expandAll, waiting, List.isEmpty_cons, Bool.false_eq_true, if_false, tableStep, bind,
        Except.bind, run]

/-- Both constructions begin alike. -/
theorem Tracks.begin (success : SubsetConstruction.begin nfa = .ok work) :
    ∃ table, Worklist.begin nfa = .ok table ∧ Tracks table work := by
  obtain ⟨start, initial, success⟩ := bind_eq_ok_iff.mp success
  obtain ⟨⟨interned, id⟩, numbered, success⟩ := bind_eq_ok_iff.mp success
  obtain rfl := Except.ok.inj success
  obtain ⟨table, tableNumbered, tracks⟩ := Tracks.nothing.intern numbered
  exact ⟨table, by simp only [Worklist.begin, initial, tableNumbered, bind, Except.bind], tracks⟩

/-- Numbers kept in a table are always found, the rounds are enough, and the automaton is the same. -/
theorem determinize_eq (inRange : nfa.InRange) :
    Worklist.determinize nfa = nfa.determinize.mapError .fault := by
  obtain ⟨-, work, done, -, begins, progress, run, -, empty, -⟩ := SubsetConstruction.Progress.whole inRange
  obtain ⟨table, tableBegins, tracks⟩ := Tracks.begin begins
  obtain ⟨further, tableRun, furtherTracks⟩ := tracks.expandAll inRange (Nat.pow 2 nfa.size) progress run empty
  have plain : nfa.determinize = .ok done.dfa := by
    simp only [Nfa.determinize, begins, run, bind, Except.bind]
  rw [plain]
  simp only [Worklist.determinize, tableBegins, tableRun, furtherTracks.dfa, bind, Except.bind, liftM, monadLift,
    MonadLift.monadLift, Except.mapError]

end PatternAutomata.Worklist
