import PatternAutomata.Proofs.Dfa.Merging

/-! # Merging reaches a fixpoint

A pass merges something when two states have the same signature (`minimizeOnce_eq_none_iff_distinct`), and then
leaves fewer states, none of which has an origin. So passes come to an end after fewer of them than there are
states (`Passes.length_le`), at an automaton that merging leaves as it is (`minimize_reaches_fixpoint`).
-/

namespace PatternAutomata.Dfa

variable {dfa next : Dfa} {results : List Dfa}

def DistinctSignatures (dfa : Dfa) : Prop := (dfa.states.toList.map DfaState.signature).Nodup

instance (dfa : Dfa) : Decidable dfa.DistinctSignatures :=
  inferInstanceAs (Decidable (dfa.states.toList.map DfaState.signature).Nodup)

/-- Signatures differ when every state represents itself. -/
theorem distinctSignatures_iff : dfa.DistinctSignatures ↔ ∀ id < dfa.size, dfa.representative id = id := by
  have length : (dfa.states.toList.map DfaState.signature).length = dfa.size := by simp [size]
  constructor
  · intro distinct id owned
    obtain ⟨signature, has⟩ := exists_signature? owned
    rw [representative_eq_idxOf has]
    obtain ⟨inside, rfl⟩ := List.getElem?_eq_some_iff.mp ((getElem?_signatures dfa id).trans has)
    exact distinct.idxOf_getElem id inside
  · intro same
    rw [DistinctSignatures, List.nodup_iff_getElem?_ne_getElem?]
    intro p q before qInside equal
    rw [length] at qInside
    have pInside : p < dfa.size := Nat.lt_trans before qInside
    rw [getElem?_signatures, getElem?_signatures, ← representative_eq_iff pInside qInside, same p pInside,
      same q qInside] at equal
    exact Nat.ne_of_lt before equal

theorem minimizeOnce_eq_none_iff_distinct : dfa.minimizeOnce = .ok none ↔ dfa.DistinctSignatures := by
  rw [minimizeOnce_eq_none_iff, merges_isEmpty_iff, distinctSignatures_iff]

/-- A pass that merges something drops all origins. -/
theorem origin_pass (inRange : dfa.InRange) (pass : dfa.minimizeOnce = .ok (some next)) :
    ∀ state ∈ next.states, state.origin = none := by
  obtain ⟨found, success, size, made⟩ := minimizeOnce_eq_ok inRange (merges_of_minimizeOnce pass)
  obtain rfl := Option.some.inj (Except.ok.inj (pass.symm.trans success))
  intro state member
  obtain ⟨position, read⟩ := Array.mem_iff_getElem?.mp member
  have inside : position < dfa.kept.length := size ▸ lt_of_getElem? read
  obtain ⟨owned, rank⟩ := rank_getElem_kept inside
  obtain ⟨other, otherRead, merged⟩ := made _ owned
  rw [rank] at otherRead
  obtain rfl := Option.some.inj (read.symm.trans otherRead)
  exact merged.origin

namespace Passes

/-- Every pass starts from what the one before it left, and leaves fewer states. -/
theorem isChain (passes : Passes dfa results) (inRange : dfa.InRange) :
    (dfa :: results).IsChain fun before after =>
      before.minimizeOnce = .ok (some after) ∧ after.size < before.size := by
  induction passes with
  | none _ => exact .singleton _
  | pass first _ ih =>
    obtain ⟨quotient, fewer⟩ := quotient_pass inRange first
    exact .cons_cons ⟨first, fewer⟩ (ih (quotient.inRange inRange))

/-- There are fewer passes than states, unless there are none of either. -/
theorem length_le (passes : Passes dfa results) (inRange : dfa.InRange) : results.length ≤ dfa.size - 1 := by
  induction passes with
  | none _ => exact Nat.zero_le _
  | @pass dfa next later first _ ih =>
    obtain ⟨quotient, fewer⟩ := quotient_pass inRange first
    have inhabited : 0 < next.size :=
      Nat.zero_lt_of_lt (quotient.into StateId.start (Nat.zero_lt_of_lt fewer))
    have others : later.length ≤ next.size - 1 := ih (quotient.inRange inRange)
    rw [List.length_cons]
    omega

/-- A limit of at least as many passes as there are does not cut them off. -/
theorem passesUpTo_eq_ok (passes : Passes dfa results) {limit : Nat} (enough : results.length ≤ limit) :
    passesUpTo limit dfa = .ok results := by
  induction passes generalizing limit with
  | none last =>
    cases limit with
    | zero => rfl
    | succ limit => simp only [passesUpTo, last, bind, Except.bind]
  | pass first _ ih =>
    cases limit with
    | zero => cases enough
    | succ limit => simp only [passesUpTo, first, ih (Nat.le_of_succ_le_succ enough), bind, Except.bind]

/-- After a pass that merges something there are no origins. -/
theorem origin (passes : Passes dfa results) (inRange : dfa.InRange) (merges : results ≠ []) :
    ∀ state ∈ (results.getLastD dfa).states, state.origin = .none := by
  induction passes with
  | none _ => exact absurd rfl merges
  | @pass dfa next later first rest ih =>
    rw [List.getLastD_cons]
    cases rest with
    | none _ => exact origin_pass inRange first
    | pass _ _ =>
      obtain ⟨quotient, -⟩ := quotient_pass inRange first
      exact ih (quotient.inRange inRange) (List.cons_ne_nil _ _)

end Passes

theorem minimize_eq_self (last : dfa.minimizeOnce = .ok none) : dfa.minimize = .ok dfa := by
  have passes : dfa.passes = .ok [] := (Passes.none last).passesUpTo_eq_ok (Nat.zero_le _)
  simp only [minimize, passes, bind, Except.bind, List.getLastD_nil]

/-- Merging comes to an end after fewer passes than there are states, each of which leaves fewer states. In its
result no two states have the same signature, so that a pass finds nothing to merge there and merging leaves it as
it is. The result is the given automaton, with its origins, if no two states of that have the same signature, and
only then; otherwise none of its states has an origin. -/
theorem minimize_reaches_fixpoint (inRange : dfa.InRange) :
    ∃ results merged, dfa.passes = .ok results ∧ dfa.minimize = .ok merged ∧ results.getLastD dfa = merged ∧
      results.length ≤ dfa.size - 1 ∧
      (∀ limit, dfa.size - 1 ≤ limit → passesUpTo limit dfa = .ok results) ∧
      ((dfa :: results).IsChain fun before after =>
        before.minimizeOnce = .ok (some after) ∧ after.size < before.size) ∧
      merged.DistinctSignatures ∧ merged.minimizeOnce = .ok none ∧ merged.minimize = .ok merged ∧
      (merged = dfa ↔ dfa.DistinctSignatures) ∧
      (¬ dfa.DistinctSignatures → ∀ state ∈ merged.states, state.origin = none) := by
  obtain ⟨results, success, passes, minimizes⟩ := minimize_eq_ok inRange
  have length := passes.length_le inRange
  have distinct := minimizeOnce_eq_none_iff_distinct.mp passes.last
  refine ⟨results, _, success, minimizes, rfl, length, fun limit enough => ?_, passes.isChain inRange, distinct,
    passes.last, minimize_eq_self passes.last, ⟨fun same => same ▸ distinct, fun distinctHere => ?_⟩,
    fun shared => passes.origin inRange ?_⟩
  · exact passes.passesUpTo_eq_ok (Nat.le_trans length enough)
  · have last := minimize_eq_self (minimizeOnce_eq_none_iff_distinct.mpr distinctHere)
    exact Except.ok.inj (minimizes.symm.trans last)
  · rintro rfl
    exact shared distinct

/-- The two ends of a diamond are merged first, which makes its two branches equal, and then they are merged. The
states of the diamond have origins, and those that are left do not. -/
theorem minimize_reaches_fixpoint_of_diamond :
    ∃ dfa : Dfa, dfa.InRange ∧ dfa.size = 5 ∧ ¬ dfa.DistinctSignatures ∧ (∀ state ∈ dfa.states, state.origin ≠ none) ∧
      ∃ results merged, dfa.passes = .ok results ∧ results.map Dfa.size = [4, 3] ∧ dfa.minimize = .ok merged ∧
        merged.minimize = .ok merged ∧ ∀ state ∈ merged.states, state.origin = none := by
  let stands (id : StateId) (accepting : Bool) (transitions : List (Symbol × StateId)) : DfaState :=
    { accepting
      transitions := transitions.foldl (fun map edge => map.insert edge.1 edge.2) ∅
      origin := some (.ofList [id]) }
  let diamond : Dfa :=
    ⟨#[stands 0 false [('a', 1), ('b', 2)], stands 1 false [('b', 3)], stands 2 false [('b', 4)], stands 3 true [],
      stands 4 true []]⟩
  have inRange : diamond.InRange := by decide
  have shared : ¬ diamond.DistinctSignatures := by decide
  obtain ⟨results, merged, success, minimizes, -, -, -, -, -, -, fixed, -, origins⟩ :=
    minimize_reaches_fixpoint inRange
  have sizes : diamond.passes.map (fun results => results.map Dfa.size) = .ok [4, 3] := rfl
  rw [success] at sizes
  exact ⟨diamond, inRange, rfl, shared, by decide, results, merged, success, Except.ok.inj sizes, minimizes, fixed,
    origins shared⟩

end PatternAutomata.Dfa
