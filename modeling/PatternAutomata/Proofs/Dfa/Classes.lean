import Mathlib.Order.Bounds.Defs
import PatternAutomata.Proofs.Dfa.Agreement
import PatternAutomata.Proofs.Dfa.Merging

/-! # Which states merging merges

A pass tells apart what one step more tells apart: two states have the same number after it, and agree
there for some steps, if they agreed for one step more before it (`agreesFor_rank_iff`). So after all
passes states are one if they agree for as many steps as there were passes (`Passes.stateAfter_eq_iff`),
and passes go on for as long as one step more tells something new (`Passes.isLeast_length`). A class is
represented by its lowest member, and the classes are numbered in the order of these
(`Passes.exists_survivor`).
-/

namespace PatternAutomata.Dfa

variable {dfa next : Dfa} {results : List Dfa} {steps : Nat} {p q : StateId}

/-- The state that a pass makes its state of a given number from. -/
def survivor (dfa : Dfa) (number : StateId) : StateId := dfa.kept[number]?.getD number

/-- The states that are left after passes with the given results, each as the state it is made from. -/
def survivorsAfter : Dfa → List Dfa → List StateId
  | dfa, [] => List.range dfa.size
  | dfa, next :: later => (survivorsAfter next later).map dfa.survivor

/-- States have the same signature if they agree for one step. -/
theorem signature?_eq_iff (pOwned : p < dfa.size) (qOwned : q < dfa.size) :
    dfa.signature? p = dfa.signature? q ↔ dfa.AgreesFor 1 p q := by
  rw [agreesFor_succ_iff pOwned qOwned]
  constructor
  · intro same
    refine ⟨accepting_iff_of_signature? same, fun symbol => ?_⟩
    rw [next?_eq_of_signature? same symbol]
    cases dfa.next? q symbol with
    | none => exact .none
    | some target => exact .some (.refl target)
  · rintro ⟨accepting, targets⟩
    have transitions : dfa.states[p].transitions = dfa.states[q].transitions := by
      apply SortedMap.ext_get?
      intro symbol
      have ends := targets symbol
      rw [next?, next?, getElem?_of_lt pOwned, getElem?_of_lt qOwned, Option.bind_some,
        Option.bind_some] at ends
      generalize dfa.states[p].transitions.get? symbol = pNext,
        dfa.states[q].transitions.get? symbol = qNext at ends ⊢
      cases ends with
      | none => rfl
      | some agree => rw [AgreesFor.zero_iff.mp agree]
    have flags : dfa.states[p].accepting = dfa.states[q].accepting := by
      rw [Bool.eq_iff_iff]
      simpa only [Accepting, getElem?_of_lt pOwned, getElem?_of_lt qOwned, Option.some.injEq,
        exists_eq_left'] using accepting
    rw [signature?, signature?, getElem?_of_lt pOwned, getElem?_of_lt qOwned, Option.map_some,
      Option.map_some, DfaState.signature, DfaState.signature, transitions, flags]

/-- States agree after a pass if they agreed for one step more before it. -/
theorem agreesFor_rank_iff (inRange : dfa.InRange) (pass : dfa.minimizeOnce = .ok (some next))
    (pOwned : p < dfa.size) (qOwned : q < dfa.size) :
    next.AgreesFor steps (dfa.rank p) (dfa.rank q) ↔ dfa.AgreesFor (steps + 1) p q := by
  obtain ⟨quotient, -⟩ := quotient_pass inRange pass
  induction steps generalizing p q with
  | zero => rw [AgreesFor.zero_iff, rank_eq_iff pOwned qOwned, signature?_eq_iff pOwned qOwned]
  | succ steps ih =>
    rw [agreesFor_succ_iff (quotient.into p pOwned) (quotient.into q qOwned),
      agreesFor_succ_iff pOwned qOwned, quotient.accepting p pOwned, quotient.accepting q qOwned]
    refine and_congr_right fun _ => forall_congr' fun symbol => ?_
    rw [quotient.next? p pOwned, quotient.next? q qOwned]
    cases pStep : dfa.next? p symbol with
    | none => cases dfa.next? q symbol <;> simp
    | some pNext =>
      cases qStep : dfa.next? q symbol with
      | none => simp
      | some qNext =>
        have here := ih (inRange p symbol pNext pStep) (inRange q symbol qNext qStep)
        simpa using here

/-- A pass that merges nothing has found no two states that agree for one step. -/
theorem stableAt_zero_iff : dfa.StableAt 0 ↔ dfa.minimizeOnce = .ok none := by
  rw [minimizeOnce_eq_none_iff, merges_isEmpty_iff]
  constructor
  · intro stable id owned
    have agree : dfa.AgreesFor 1 (dfa.representative id) id :=
      (signature?_eq_iff (representative_lt owned) owned).mp (signature?_representative owned)
    exact AgreesFor.zero_iff.mp ((stable _ (representative_lt owned) id owned).mpr agree)
  · intro same p pOwned q qOwned
    rw [AgreesFor.zero_iff, ← signature?_eq_iff pOwned qOwned, ← representative_eq_iff pOwned qOwned,
      same p pOwned, same q qOwned]

/-- One more step tells the same apart after a pass as it did before, after one step more. -/
theorem stableAt_pass_iff (inRange : dfa.InRange) (pass : dfa.minimizeOnce = .ok (some next)) :
    next.StableAt steps ↔ dfa.StableAt (steps + 1) := by
  obtain ⟨quotient, -⟩ := quotient_pass inRange pass
  constructor
  · intro stable p pOwned q qOwned
    rw [← agreesFor_rank_iff inRange pass pOwned qOwned, ← agreesFor_rank_iff inRange pass pOwned qOwned]
    exact stable _ (quotient.into p pOwned) _ (quotient.into q qOwned)
  · intro stable p pOwned q qOwned
    obtain ⟨first, firstOwned, rfl⟩ := quotient.onto p pOwned
    obtain ⟨second, secondOwned, rfl⟩ := quotient.onto q qOwned
    rw [agreesFor_rank_iff inRange pass firstOwned secondOwned,
      agreesFor_rank_iff inRange pass firstOwned secondOwned]
    exact stable first firstOwned second secondOwned

namespace Passes

/-- States are one after all passes if they agree for as many steps as there are passes. -/
theorem stateAfter_eq_iff (passes : Passes dfa results) (inRange : dfa.InRange) (pOwned : p < dfa.size)
    (qOwned : q < dfa.size) :
    dfa.stateAfter results p = dfa.stateAfter results q ↔ dfa.AgreesFor results.length p q := by
  induction passes generalizing p q with
  | none _ => exact AgreesFor.zero_iff.symm
  | pass first _ ih =>
    obtain ⟨quotient, -⟩ := quotient_pass inRange first
    have later := ih (quotient.inRange inRange) (quotient.into p pOwned) (quotient.into q qOwned)
    exact later.trans (agreesFor_rank_iff inRange first pOwned qOwned)

/-- There are as many passes as steps are needed until one more tells nothing new. -/
theorem isLeast_length (passes : Passes dfa results) (inRange : dfa.InRange) :
    IsLeast {steps | dfa.StableAt steps} results.length := by
  induction passes with
  | none last => exact ⟨stableAt_zero_iff.mpr last, fun steps _ => Nat.zero_le steps⟩
  | pass first _ ih =>
    obtain ⟨quotient, -⟩ := quotient_pass inRange first
    obtain ⟨stable, least⟩ := ih (quotient.inRange inRange)
    refine ⟨(stableAt_pass_iff inRange first).mp stable, fun steps stableThere => ?_⟩
    cases steps with
    | zero =>
      have last := stableAt_zero_iff.mp stableThere
      rw [first] at last
      cases last
    | succ steps => exact Nat.succ_le_succ (least ((stableAt_pass_iff inRange first).mpr stableThere))

/-- States that agree for any number of steps are one after all passes, and no others are. -/
theorem stateAfter_eq_iff_exists (passes : Passes dfa results) (inRange : dfa.InRange)
    (pOwned : p < dfa.size) (qOwned : q < dfa.size) :
    dfa.stateAfter results p = dfa.stateAfter results q ↔ ∃ steps, dfa.AgreesFor steps p q := by
  rw [passes.stateAfter_eq_iff inRange pOwned qOwned]
  refine ⟨fun agree => ⟨_, agree⟩, ?_⟩
  rintro ⟨steps, agree⟩
  rcases Nat.le_total steps results.length with short | long
  · exact agree.of_le short
  · exact (passes.isLeast_length inRange).1.agreesFor inRange long pOwned qOwned agree

end Passes

theorem survivor_eq {number : StateId} (inside : number < dfa.kept.length) :
    dfa.survivor number = dfa.kept[number] := by
  rw [survivor, List.getElem?_eq_getElem inside, Option.getD_some]

theorem survivor_lt {number : StateId} (inside : number < dfa.kept.length) :
    dfa.survivor number < dfa.size := by
  rw [survivor_eq inside]
  exact (rank_getElem_kept inside).1

theorem rank_survivor {number : StateId} (inside : number < dfa.kept.length) :
    dfa.rank (dfa.survivor number) = number := by
  rw [survivor_eq inside]
  exact (rank_getElem_kept inside).2

/-- A state is merged into none that comes after it. -/
theorem survivor_rank_le (owned : p < dfa.size) : dfa.survivor (dfa.rank p) ≤ p := by
  rw [survivor, getElem?_rank owned, Option.getD_some]
  exact representative_le owned rfl

theorem survivor_strictMonoOn : StrictMonoOn dfa.survivor {number | number < dfa.kept.length} := by
  intro first firstInside second secondInside before
  rw [survivor_eq firstInside, survivor_eq secondInside]
  exact List.pairwise_iff_getElem.mp dfa.pairwise_kept first second firstInside secondInside before

namespace Passes

theorem lt_of_mem_survivorsAfter (passes : Passes dfa results) (inRange : dfa.InRange) {id : StateId}
    (member : id ∈ dfa.survivorsAfter results) : id < dfa.size := by
  induction passes generalizing id with
  | none _ => exact List.mem_range.mp member
  | pass first _ ih =>
    obtain ⟨quotient, -⟩ := quotient_pass inRange first
    obtain ⟨number, numberMember, rfl⟩ := List.mem_map.mp member
    have inside := ih (quotient.inRange inRange) numberMember
    exact survivor_lt (size_pass inRange first ▸ inside)

/-- As many states survive all passes as there are afterwards. -/
theorem length_survivorsAfter (passes : Passes dfa results) :
    (dfa.survivorsAfter results).length = (results.getLastD dfa).size := by
  induction passes with
  | none _ => exact List.length_range
  | pass _ _ ih => rw [survivorsAfter, List.length_map, ih, List.getLastD_cons]

theorem pairwise_survivorsAfter (passes : Passes dfa results) (inRange : dfa.InRange) :
    (dfa.survivorsAfter results).Pairwise (· < ·) := by
  induction passes with
  | none _ => exact List.pairwise_lt_range
  | pass first rest ih =>
    obtain ⟨quotient, -⟩ := quotient_pass inRange first
    have nextInRange := quotient.inRange inRange
    refine List.pairwise_map.mpr ((ih nextInRange).imp_of_mem ?_)
    intro p q pMember qMember before
    have pInside := rest.lt_of_mem_survivorsAfter nextInRange pMember
    have qInside := rest.lt_of_mem_survivorsAfter nextInRange qMember
    rw [size_pass inRange first] at pInside qInside
    exact survivor_strictMonoOn pInside qInside before

/-- What a state has become is made from the lowest state that has become the same. -/
theorem exists_survivor (passes : Passes dfa results) (inRange : dfa.InRange) (owned : p < dfa.size) :
    ∃ survivor, (dfa.survivorsAfter results)[dfa.stateAfter results p]? = some survivor ∧
      IsLeast {q | q < dfa.size ∧ dfa.stateAfter results q = dfa.stateAfter results p} survivor := by
  induction passes generalizing p with
  | none _ =>
    refine ⟨p, List.getElem?_range owned, ⟨owned, rfl⟩, ?_⟩
    rintro q ⟨-, rfl⟩
    exact Nat.le_refl _
  | pass first _ ih =>
    obtain ⟨quotient, -⟩ := quotient_pass inRange first
    have size := size_pass inRange first
    obtain ⟨number, read, ⟨numberOwned, same⟩, least⟩ :=
      ih (quotient.inRange inRange) (quotient.into p owned)
    have inside := size ▸ numberOwned
    refine ⟨_, by rw [survivorsAfter, List.getElem?_map, stateAfter, read, Option.map_some], ?_, ?_⟩
    · refine ⟨survivor_lt inside, ?_⟩
      rw [stateAfter, rank_survivor inside, same, stateAfter]
    · -- a pass numbers its survivors in order, so the lowest state after it is made from the lowest before
      rintro q ⟨qOwned, qSame⟩
      have later : number ≤ _ := least ⟨quotient.into q qOwned, qSame⟩
      exact (survivor_strictMonoOn.monotoneOn inside (rank_lt qOwned) later).trans (survivor_rank_le qOwned)

end Passes

/-- Merging makes states one if they agree for some number of steps, keeps the lowest of those that are
made one, numbers these in their order, and takes as many passes as steps are needed until one more
tells nothing new. -/
theorem minimize_identifies_agreeing (inRange : dfa.InRange) :
    ∃ results merged, dfa.passes = .ok results ∧ dfa.minimize = .ok merged ∧
      Quotient dfa merged (dfa.stateAfter results) ∧
      (∀ p < dfa.size, ∀ q < dfa.size,
        (dfa.stateAfter results p = dfa.stateAfter results q ↔ ∃ steps, dfa.AgreesFor steps p q)) ∧
      (dfa.survivorsAfter results).Pairwise (· < ·) ∧
      (dfa.survivorsAfter results).length = merged.size ∧
      (∀ p < dfa.size, ∃ survivor,
        (dfa.survivorsAfter results)[dfa.stateAfter results p]? = some survivor ∧
        IsLeast {q | q < dfa.size ∧ dfa.stateAfter results q = dfa.stateAfter results p} survivor) ∧
      IsLeast {steps | dfa.StableAt steps} results.length := by
  obtain ⟨results, success, passes, merges⟩ := minimize_eq_ok inRange
  refine ⟨results, _, success, merges, passes.quotient_stateAfter inRange, ?_,
    passes.pairwise_survivorsAfter inRange, passes.length_survivorsAfter, ?_,
    passes.isLeast_length inRange⟩
  · exact fun p pOwned q qOwned => passes.stateAfter_eq_iff_exists inRange pOwned qOwned
  · exact fun p owned => passes.exists_survivor inRange owned

/-- The two branches of a diamond become one in the second pass, after the states they end in have. -/
theorem minimize_identifies_agreeing_in_diamond :
    ∃ dfa : Dfa, dfa.InRange ∧ dfa.size = 5 ∧ (¬ ∃ steps, dfa.AgreesFor steps 0 1) ∧
      (∃ steps, dfa.AgreesFor steps 1 2) ∧ IsLeast {steps | dfa.StableAt steps} 2 ∧
      ∃ results, dfa.passes = .ok results ∧ dfa.survivorsAfter results = [0, 1, 3] := by
  let leads (symbol : Symbol) (target : StateId) (others : SortedMap Symbol StateId) : DfaState :=
    { transitions := others.insert symbol target }
  let diamond : Dfa :=
    ⟨#[leads 'a' 1 (leads 'b' 2 ∅).transitions, leads 'b' 3 ∅, leads 'b' 4 ∅, { accepting := true },
      { accepting := true }]⟩
  have inRange : diamond.InRange := by decide
  obtain ⟨results, -, success, -, -, identified, -, -, -, least⟩ := minimize_identifies_agreeing inRange
  have computed : diamond.passes.map (fun results =>
      ((List.range 3).map (diamond.stateAfter results), diamond.survivorsAfter results, results.length))
      = .ok ([0, 1, 1], [0, 1, 3], 2) := rfl
  rw [success] at computed
  have computed := Except.ok.inj computed
  simp only [Prod.mk.injEq, List.range, List.range.loop, List.map_cons, List.map_nil, List.cons.injEq] at computed
  obtain ⟨⟨start, left, right, -⟩, survivors, length⟩ := computed
  refine ⟨diamond, inRange, rfl, ?_, ?_, length ▸ least, results, success, survivors⟩
  · rw [← identified 0 (by decide) 1 (by decide), start, left]
    decide
  · rw [← identified 1 (by decide) 2 (by decide), left, right]

end PatternAutomata.Dfa
