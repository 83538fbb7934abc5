import PatternAutomata.BuildLog
import PatternAutomata.Proofs.Dfa.Fixpoint

/-! # What is told of merging

What merging tells on its way is what follows from the results of its passes (`minimizeTelling_eq_ok`). The passes that
tell of their sizes are all but the first, and they are numbered without it, although the number of passes that is told
in the end has it (`minimizeTelling_leaves_out_first_pass`).
-/

namespace PatternAutomata

open BuildLog

namespace BuildLog

/-- The events of passes numbered from `number` on, each of which leads from one of some sizes to the next. -/
def passEvents (number : Nat) : List Nat → List Event
  | before :: after :: later => .passDone number before after :: passEvents (number + 1) (after :: later)
  | _ => []

theorem length_passEvents (number : Nat) (sizes : List Nat) :
    (passEvents number sizes).length = sizes.length - 1 := by
  induction sizes generalizing number with
  | nil => rfl
  | cons before later ih =>
    cases later with
    | nil => rfl
    | cons after later =>
      rw [passEvents, List.length_cons, ih]
      rfl

theorem filter_stateMerged (merges : List (StateId × StateId)) :
    (merges.map fun (id, kept) => Event.stateMerged id kept).filter (·.level = .debug) = [] := by
  rw [List.filter_map, List.map_eq_nil_iff]
  exact List.filter_false merges

theorem filter_ofPass_zero (before after : Dfa) : (ofPass 0 before after).filter (·.level = .debug) = [] := by
  rw [ofPass, if_pos rfl, filter_stateMerged]

/-- The summary of a later pass has its number and tells of its sizes. -/
theorem filter_ofPass {number : Nat} (counted : number ≠ 0) (before after : Dfa) :
    (ofPass number before after).filter (·.level = .debug) = [.passDone number before.size after.size] := by
  rw [ofPass, if_neg counted, List.filter_append, filter_stateMerged]
  rfl

/-- The summaries of passes after the first have their numbers and tell of their sizes. -/
theorem filter_ofPassesFrom {number : Nat} (counted : number ≠ 0) (before : Dfa) (results : List Dfa) :
    (ofPassesFrom number before results).filter (·.level = .debug) =
      passEvents number ((before :: results).map Dfa.size) := by
  induction results generalizing number before with
  | nil => rfl
  | cons after later ih =>
    rw [ofPassesFrom, List.filter_append, filter_ofPass counted, ih (Nat.succ_ne_zero number)]
    rfl

/-- What is told of merging that has a first pass. -/
theorem ofMinimize_cons (dfa first : Dfa) (later : List Dfa) :
    ofMinimize dfa (first :: later) = ofPassesFrom 0 dfa (first :: later) ++
      [.minimized dfa.size (later.getLastD first).size (later.length + 1)] := by
  rw [ofMinimize, List.getLast?_cons, List.getLastD_eq_getLast?, List.length_cons]

end BuildLog

namespace Telling

/-- Telling events one by one adds them to what was told. -/
theorem run_forM_tell {α : Type} (event : α → Event) (items : List α) (told : List Event) :
    (items.forM fun item => tell (event item)).run told = .ok ⟨⟩ (told ++ items.map event) := by
  induction items generalizing told with
  | nil =>
    rw [List.map_nil, List.append_nil]
    rfl
  | cons item rest ih =>
    have later := ih (told ++ [event item])
    rw [List.append_assoc] at later
    exact later

end Telling

namespace Dfa

variable {dfa next : Dfa} {results : List Dfa}

theorem minimizeOnceTelling_eq_ok (told : List Event) {result : Option Dfa} (pass : dfa.minimizeOnce = .ok result) :
    dfa.minimizeOnceTelling.run told =
      .ok result (told ++ dfa.merges.map fun (id, kept) => .stateMerged id kept) := by
  rw [minimizeOnceTelling, pass, EStateM.run_bind, Telling.run_forM_tell]
  rfl

/-- A pass that finds nothing to merge tells nothing. -/
theorem minimizeOnceTelling_eq_none (told : List Event) (last : dfa.minimizeOnce = .ok none) :
    dfa.minimizeOnceTelling.run told = .ok none told := by
  have nothing : dfa.merges = [] := List.isEmpty_iff.mp (minimizeOnce_eq_none_iff.mp last)
  rw [minimizeOnceTelling_eq_ok told last, nothing, List.map_nil, List.append_nil]

/-- Going on with passes tells what follows from their results and their numbers. -/
theorem Passes.mergeOn_eq_ok (passes : Passes dfa results) (told : List Event) {limit number : Nat}
    (enough : results.length ≤ limit) (counted : number ≠ 0) : (mergeOn limit number dfa).run told =
      .ok (results.getLastD dfa, number + results.length) (told ++ ofPassesFrom number dfa results) := by
  induction passes generalizing limit number told with
  | none last =>
    rw [ofPassesFrom, List.append_nil]
    cases limit with
    | zero => rfl
    | succ limit =>
      rw [mergeOn, EStateM.run_bind, minimizeOnceTelling_eq_none told last]
      rfl
  | @pass dfa next later first rest ih =>
    cases limit with
    | zero => cases enough
    | succ limit =>
      have others := ih (told ++ ofPass number dfa next) (Nat.le_of_succ_le_succ enough) (Nat.succ_ne_zero number)
      rw [List.append_assoc, Nat.succ_add_eq_add_succ] at others
      rw [ofPassesFrom, List.getLastD_cons, List.length_cons, ← others, mergeOn, EStateM.run_bind,
        minimizeOnceTelling_eq_ok told first, ofPass, if_neg counted, ← List.append_assoc]
      rfl

theorem minimizeTelling_eq_ok (told : List Event) (inRange : dfa.InRange) (passes : Passes dfa results) :
    dfa.minimizeTelling.run told = .ok (results.getLastD dfa) (told ++ ofMinimize dfa results) := by
  cases passes with
  | none last =>
    rw [minimizeTelling, EStateM.run_bind, minimizeOnceTelling_eq_none told last]
    rfl
  | @pass _ next later first rest =>
    have enough : later.length ≤ dfa.size := by
      have bound := (Passes.pass first rest).length_le inRange
      rw [List.length_cons] at bound
      omega
    have others := rest.mergeOn_eq_ok (told ++ ofPass 0 dfa next) enough Nat.one_ne_zero
    rw [List.append_assoc, Nat.add_comm] at others
    rw [ofMinimize_cons, ofPassesFrom, List.getLastD_cons, minimizeTelling, EStateM.run_bind,
      minimizeOnceTelling_eq_ok told first]
    change EStateM.run (mergeOn dfa.size 1 next >>= _) (told ++ ofPass 0 dfa next) = _
    rw [EStateM.run_bind, others, ← List.append_assoc told _ [_]]
    rfl

/-- Where two states have the same signature, merging makes a first pass and then others until one finds nothing to
merge, each of which starts from what the one before it left. What it tells has one summary for each pass but the
first, numbered from one on, with the sizes that the pass led from and to, and then the size of the given automaton,
that of the result and the number of all passes. So the summaries are not those of all passes. -/
theorem minimizeTelling_leaves_out_first_pass (inRange : dfa.InRange) (shared : ¬ dfa.DistinctSignatures) :
    ∃ first later merged events, dfa.passes = .ok (first :: later) ∧ dfa.minimize = .ok merged ∧
      ((dfa :: first :: later).IsChain fun before after => before.minimizeOnce = .ok (some after)) ∧
      later.getLastD first = merged ∧ merged.minimizeOnce = .ok none ∧
      dfa.minimizeTelling.run [] = .ok merged events ∧ ofMinimize dfa (first :: later) = events ∧
      events.filter (·.level = .debug) =
        passEvents 1 ((first :: later).map size) ++ [.minimized dfa.size merged.size (later.length + 1)] ∧
      (passEvents 1 ((first :: later).map size)).length = later.length ∧
      passEvents 1 ((first :: later).map size) ≠ passEvents 1 ((dfa :: first :: later).map size) := by
  obtain ⟨results, success, passes, minimizes⟩ := minimize_eq_ok inRange
  have chain := passes.isChain inRange
  have tells := minimizeTelling_eq_ok [] inRange passes
  cases results with
  | nil =>
    cases passes with
    | none last => exact absurd (minimizeOnce_eq_none_iff_distinct.mp last) shared
  | cons first later =>
    have last := passes.last
    rw [List.getLastD_cons] at minimizes tells last
    have number : (passEvents 1 ((first :: later).map size)).length = later.length := by
      rw [length_passEvents, List.length_map, List.length_cons, Nat.add_sub_cancel]
    refine ⟨first, later, _, _, success, minimizes, chain.imp fun _ _ step => step.1, rfl, last, tells, rfl,
      ?_, number, fun same => ?_⟩
    · rw [List.nil_append, ofMinimize_cons, ofPassesFrom, List.filter_append, List.filter_append,
        filter_ofPass_zero, filter_ofPassesFrom Nat.one_ne_zero, List.nil_append]
      rfl
    · have lengths := congrArg List.length same
      rw [number, length_passEvents, List.length_map, List.length_cons, List.length_cons] at lengths
      omega

/-- In a diamond whose two ends accept, the ends are merged first and then the two branches. Only the second of these
passes tells of its sizes, as the first one. -/
theorem minimizeTelling_leaves_out_first_pass_of_diamond :
    ∃ dfa : Dfa, dfa.InRange ∧ ¬ dfa.DistinctSignatures ∧
      ∃ first second merged events, dfa.passes = .ok [first, second] ∧
        [dfa, first, second].map size = [5, 4, 3] ∧ dfa.minimizeTelling.run [] = .ok merged events ∧
        events.filter (·.level = .debug) = [.passDone 1 4 3, .minimized 5 3 2] ∧
        (events.filter (·.level = .debug)).map Event.message =
          ["pass 1: 4 -> 3 states", "minimized 5 states to 3 in 2 passes"] := by
  let stands (accepting : Bool) (transitions : List (Symbol × StateId)) : DfaState :=
    { accepting, transitions := transitions.foldl (fun map edge => map.insert edge.1 edge.2) ∅ }
  let diamond : Dfa :=
    ⟨#[stands false [('a', 1), ('b', 2)], stands false [('b', 3)], stands false [('b', 4)], stands true [],
      stands true []]⟩
  have inRange : diamond.InRange := by decide
  have shared : ¬ diamond.DistinctSignatures := by decide
  obtain ⟨first, later, merged, events, success, minimizes, -, last, -, tells, -, summaries, -, -⟩ :=
    minimizeTelling_leaves_out_first_pass inRange shared
  have sizes : diamond.passes.map (fun results => results.map size) = .ok [4, 3] := rfl
  rw [success] at sizes
  have sizes : (first :: later).map size = [4, 3] := Except.ok.inj sizes
  obtain ⟨second, rfl⟩ : ∃ second, later = [second] := by
    have length := congrArg List.length sizes
    rw [List.length_map, List.length_cons] at length
    exact List.length_eq_one_iff.mp (Nat.succ.inj length)
  obtain rfl : second = merged := last
  have two : second.size = 3 := (List.cons.inj (List.cons.inj sizes).2).1
  have told : events.filter (·.level = .debug) = [.passDone 1 4 3, .minimized 5 3 2] := by
    rw [summaries, sizes, two]
    rfl
  refine ⟨diamond, inRange, shared, first, second, second, events, success, ?_, tells, told, ?_⟩
  · exact congrArg (5 :: ·) sizes
  · rw [told]
    decide

end Dfa

end PatternAutomata
