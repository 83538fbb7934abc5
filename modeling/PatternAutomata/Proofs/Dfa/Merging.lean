import PatternAutomata.Dfa.Merging
import PatternAutomata.Proofs.Dfa.Quotient
import PatternAutomata.Proofs.Dfa.Searching
import PatternAutomata.Proofs.SortedMap

/-! # Merging gives a quotient

A pass maps every state to the rank of the first state with its signature among the states that are
kept. States with the same signature accept the same and lead to the same states, so this is a quotient
(`quotient_pass`); quotients compose over the passes, of which there are fewer than states
(`minimize_eq_ok`).
-/

namespace PatternAutomata.Dfa

variable {dfa : Dfa}

def signature? (dfa : Dfa) (id : StateId) : Option Signature := (dfa.states[id]?).map DfaState.signature

def representative (dfa : Dfa) (id : StateId) : StateId := (dfa.representatives[id]?).getD id

@[simp] theorem length_representatives (dfa : Dfa) : dfa.representatives.length = dfa.size := by
  simp [representatives, size]

theorem getElem?_signatures (dfa : Dfa) (id : StateId) :
    (dfa.states.toList.map DfaState.signature)[id]? = dfa.signature? id := by
  rw [List.getElem?_map, Array.getElem?_toList, signature?]

theorem getElem?_representatives {id : StateId} (owned : id < dfa.size) :
    dfa.representatives[id]? = some (dfa.representative id) := by
  have inside : id < dfa.representatives.length := dfa.length_representatives.symm ▸ owned
  rw [representative, List.getElem?_eq_getElem inside, Option.getD_some]

theorem exists_signature? {id : StateId} (owned : id < dfa.size) :
    ∃ signature, dfa.signature? id = some signature :=
  ⟨_, by rw [signature?, getElem?_of_lt owned, Option.map_some]⟩

theorem representative_eq_idxOf {id : StateId} {signature : Signature}
    (has : dfa.signature? id = some signature) :
    dfa.representative id = (dfa.states.toList.map DfaState.signature).idxOf signature := by
  rw [← getElem?_signatures] at has
  simp only [representative, representatives, List.getElem?_map, has, Option.map_some, Option.getD_some]

theorem signature?_representative {id : StateId} (owned : id < dfa.size) :
    dfa.signature? (dfa.representative id) = dfa.signature? id := by
  obtain ⟨signature, has⟩ := exists_signature? owned
  have member : signature ∈ dfa.states.toList.map DfaState.signature :=
    List.mem_of_getElem? ((dfa.getElem?_signatures id).trans has)
  rw [representative_eq_idxOf has, has, ← getElem?_signatures, List.getElem?_idxOf member]

theorem representative_lt {id : StateId} (owned : id < dfa.size) : dfa.representative id < dfa.size := by
  obtain ⟨signature, has⟩ := exists_signature? owned
  rw [← signature?_representative owned] at has
  obtain ⟨state, read, -⟩ := Option.map_eq_some_iff.mp has
  exact lt_of_getElem? read

/-- States have the same representative when they have the same signature. -/
theorem representative_eq_iff {p q : StateId} (pOwned : p < dfa.size) (qOwned : q < dfa.size) :
    dfa.representative p = dfa.representative q ↔ dfa.signature? p = dfa.signature? q := by
  constructor
  · intro same
    rw [← signature?_representative pOwned, same, signature?_representative qOwned]
  · intro same
    obtain ⟨signature, has⟩ := exists_signature? qOwned
    rw [representative_eq_idxOf has, representative_eq_idxOf (same.trans has)]

theorem representative_representative {id : StateId} (owned : id < dfa.size) :
    dfa.representative (dfa.representative id) = dfa.representative id :=
  (representative_eq_iff (representative_lt owned) owned).mpr (signature?_representative owned)

/-- No state before the representative has the signature. -/
theorem representative_le {p q : StateId} (pOwned : p < dfa.size)
    (same : dfa.signature? p = dfa.signature? q) : dfa.representative p ≤ q := by
  obtain ⟨signature, has⟩ := exists_signature? pOwned
  rw [representative_eq_idxOf has]
  rw [same, ← getElem?_signatures] at has
  exact idxOf_le_of_getElem? has

theorem representative_start (inhabited : 0 < dfa.size) : dfa.representative StateId.start = StateId.start :=
  Nat.le_zero.mp (representative_le inhabited rfl)

theorem accepting_iff_of_signature? {p q : StateId} (same : dfa.signature? p = dfa.signature? q) :
    dfa.Accepting p ↔ dfa.Accepting q := by
  have reads (id : StateId) :
      dfa.Accepting id ↔ (dfa.signature? id).map Signature.accepting = some true := by
    simp [Accepting, signature?, DfaState.signature]
  rw [reads, reads, same]

theorem next?_eq_of_signature? {p q : StateId} (same : dfa.signature? p = dfa.signature? q)
    (symbol : Symbol) :
    dfa.next? p symbol = dfa.next? q symbol := by
  have reads (id : StateId) :
      dfa.next? id symbol = (dfa.signature? id).bind fun signature => signature.transitions.get? symbol := by
    rw [next?, signature?, Option.bind_map]
    rfl
  rw [reads, reads, same]

def kept (dfa : Dfa) : List StateId := survivors dfa.representatives

/-- The number that a pass gives to the representative of a state. -/
def rank (dfa : Dfa) (id : StateId) : StateId := dfa.kept.idxOf (dfa.representative id)

theorem kept_eq_positions (dfa : Dfa) :
    dfa.kept = positions (fun kept id => decide (kept = id)) dfa.representatives := by
  simp [kept, survivors, positions]

/-- A pass keeps the states that represent themselves. -/
theorem mem_kept_iff {id : StateId} : id ∈ dfa.kept ↔ id < dfa.size ∧ dfa.representative id = id := by
  rw [kept_eq_positions, mem_positions_iff]
  simp only [decide_eq_true_eq, exists_eq_right]
  constructor
  · intro read
    have owned : id < dfa.size := dfa.length_representatives ▸ (List.getElem?_eq_some_iff.mp read).1
    exact ⟨owned, Option.some.inj ((getElem?_representatives owned).symm.trans read)⟩
  · rintro ⟨owned, same⟩
    rw [getElem?_representatives owned, same]

theorem pairwise_kept (dfa : Dfa) : dfa.kept.Pairwise (· < ·) :=
  dfa.kept_eq_positions ▸ pairwise_positions _ _

theorem nodup_kept (dfa : Dfa) : dfa.kept.Nodup := dfa.pairwise_kept.imp Nat.ne_of_lt

theorem representative_mem_kept {id : StateId} (owned : id < dfa.size) : dfa.representative id ∈ dfa.kept :=
  mem_kept_iff.mpr ⟨representative_lt owned, representative_representative owned⟩

theorem rank_lt {id : StateId} (owned : id < dfa.size) : dfa.rank id < dfa.kept.length :=
  List.idxOf_lt_length_of_mem (representative_mem_kept owned)

theorem getElem?_rank {id : StateId} (owned : id < dfa.size) :
    dfa.kept[dfa.rank id]? = some (dfa.representative id) :=
  List.getElem?_idxOf (representative_mem_kept owned)

theorem rank_eq_iff {p q : StateId} (pOwned : p < dfa.size) (qOwned : q < dfa.size) :
    dfa.rank p = dfa.rank q ↔ dfa.signature? p = dfa.signature? q := by
  rw [rank, rank, List.idxOf_inj (representative_mem_kept pOwned), representative_eq_iff pOwned qOwned]

theorem rank_start (inhabited : 0 < dfa.size) : dfa.rank StateId.start = StateId.start := by
  have start : dfa.representative StateId.start = StateId.start := representative_start inhabited
  have member : StateId.start ∈ dfa.kept := mem_kept_iff.mpr ⟨inhabited, start⟩
  rw [rank, start]
  exact idxOf_zero dfa.pairwise_kept member

/-- Every number below that of the kept states is the rank of a state. -/
theorem rank_getElem_kept {position : Nat} (inside : position < dfa.kept.length) :
    dfa.kept[position] < dfa.size ∧ dfa.rank dfa.kept[position] = position := by
  obtain ⟨owned, same⟩ := mem_kept_iff.mp (List.getElem_mem inside)
  refine ⟨owned, ?_⟩
  rw [rank, same]
  exact dfa.nodup_kept.idxOf_getElem position inside

theorem merges_isEmpty_iff : dfa.merges.isEmpty = true ↔ ∀ id < dfa.size, dfa.representative id = id := by
  simp only [merges, List.isEmpty_iff, List.filterMap_eq_nil_iff, Prod.forall, List.mem_zipIdx_iff_getElem?]
  constructor
  · intro none id owned
    simpa using none _ id (getElem?_representatives owned)
  · intro same kept id read
    have owned : id < dfa.size := dfa.length_representatives ▸ (List.getElem?_eq_some_iff.mp read).1
    obtain rfl := Option.some.inj (read.symm.trans (getElem?_representatives owned))
    exact if_pos (same id owned)

/-- Merging drops a state if it merges any. -/
theorem length_kept_lt (merges : dfa.merges.isEmpty = false) : dfa.kept.length < dfa.size := by
  have some : ¬ ∀ id < dfa.size, dfa.representative id = id := by
    rw [← merges_isEmpty_iff, merges]
    exact Bool.false_ne_true
  push Not at some
  obtain ⟨id, owned, differs⟩ := some
  have dropped : id ∉ dfa.kept := fun isKept => differs (mem_kept_iff.mp isKept).2
  have distinct : (id :: dfa.kept).Nodup := List.nodup_cons.mpr ⟨dropped, dfa.nodup_kept⟩
  have inside : id :: dfa.kept ⊆ List.range dfa.size := by
    intro other member
    rcases List.mem_cons.mp member with rfl | isKept
    · exact List.mem_range.mpr owned
    · exact List.mem_range.mpr (mem_kept_iff.mp isKept).1
  have bound := (List.subperm_of_subset distinct inside).length_le
  rw [List.length_range] at bound
  exact bound

theorem renumber_eq_ok {id : StateId} (owned : id < dfa.size) :
    renumber dfa.representatives dfa.kept id = .ok (dfa.rank id) := by
  simp only [renumber, getElem?_representatives owned, Option.bind_some,
    idxOf?_eq_some_idxOf (representative_mem_kept owned), rank]

structure MergedFrom (dfa : Dfa) (id : StateId) (state : DfaState) : Prop where
  accepting : state.accepting = true ↔ dfa.Accepting id
  next? : ∀ symbol, state.transitions.get? symbol = (dfa.next? id symbol).map dfa.rank
  origin : state.origin = none

theorem mergedState_eq_ok (inRange : dfa.InRange) {id : StateId} (owned : id < dfa.size) :
    ∃ state, dfa.mergedState (renumber dfa.representatives dfa.kept) id = .ok state ∧
      MergedFrom dfa id state := by
  have replaces : ∀ entry ∈ dfa.states[id].transitions.entries,
      renumber dfa.representatives dfa.kept entry.2 = .ok (dfa.rank entry.2) := by
    intro entry member
    refine renumber_eq_ok (inRange id entry.1 entry.2 ?_)
    simpa [next?, getElem?_of_lt owned] using SortedMap.get?_eq_some_iff.mpr member
  obtain ⟨transitions, success, reads⟩ := SortedMap.mapValuesM_eq_ok replaces
  refine ⟨{ accepting := dfa.states[id].accepting, transitions }, ?_, ?_, fun symbol => ?_, rfl⟩
  · simp only [mergedState, state_of_lt owned, success, bind, Except.bind]
  · simp [Accepting, getElem?_of_lt owned]
  · simp [reads, next?, getElem?_of_lt owned]

/-- A pass makes one state of each kept one. -/
theorem minimizeOnce_eq_ok (inRange : dfa.InRange) (merges : dfa.merges.isEmpty = false) :
    ∃ next, dfa.minimizeOnce = .ok (some next) ∧ next.size = dfa.kept.length ∧
      ∀ id < dfa.size, ∃ state, next.states[dfa.rank id]? = some state ∧
        MergedFrom dfa (dfa.representative id) state := by
  obtain ⟨states, success, related⟩ := mapM_eq_ok fun id (member : id ∈ dfa.kept) =>
    mergedState_eq_ok inRange (mem_kept_iff.mp member).1
  refine ⟨⟨states.toArray⟩, ?_, related.length_eq.symm, fun id owned => ?_⟩
  · rw [kept] at success
    simp only [minimizeOnce, merges, Bool.false_eq_true, ↓reduceIte, bind, Except.bind]
    rw [success]
  · obtain ⟨state, read, merged⟩ := exists_getElem?_of_forall₂ related (getElem?_rank owned)
    exact ⟨state, by simpa using read, merged⟩

theorem merges_of_minimizeOnce {next : Dfa} (pass : dfa.minimizeOnce = .ok (some next)) :
    dfa.merges.isEmpty = false := by
  cases merges : dfa.merges.isEmpty with
  | false => rfl
  | true => simp [minimizeOnce, merges] at pass

theorem size_pass (inRange : dfa.InRange) {next : Dfa} (pass : dfa.minimizeOnce = .ok (some next)) :
    next.size = dfa.kept.length := by
  obtain ⟨found, success, size, -⟩ := minimizeOnce_eq_ok inRange (merges_of_minimizeOnce pass)
  obtain rfl := Option.some.inj (Except.ok.inj (pass.symm.trans success))
  exact size

/-- A pass gives a quotient with fewer states. -/
theorem quotient_pass (inRange : dfa.InRange) {next : Dfa} (pass : dfa.minimizeOnce = .ok (some next)) :
    Quotient dfa next dfa.rank ∧ next.size < dfa.size := by
  have merges := merges_of_minimizeOnce pass
  obtain ⟨found, success, size, made⟩ := minimizeOnce_eq_ok inRange merges
  obtain rfl := Option.some.inj (Except.ok.inj (pass.symm.trans success))
  have fewer := length_kept_lt merges
  refine ⟨?_, size ▸ fewer⟩
  constructor
  case into => exact fun id owned => size ▸ rank_lt owned
  case onto =>
    intro position owned
    have inside : position < dfa.kept.length := size ▸ owned
    exact ⟨dfa.kept[position], rank_getElem_kept inside⟩
  case start => exact rank_start (Nat.zero_lt_of_lt fewer)
  case accepting =>
    intro id owned
    obtain ⟨state, read, merged⟩ := made id owned
    rw [← accepting_iff_of_signature? (signature?_representative owned), ← merged.accepting]
    simp [Accepting, read]
  case next? =>
    intro id owned symbol
    obtain ⟨state, read, merged⟩ := made id owned
    rw [← next?_eq_of_signature? (signature?_representative owned), ← merged.next?]
    simp [next?, read]

/-- Passes that follow one another until nothing is merged. -/
inductive Passes : Dfa → List Dfa → Prop
  | none {dfa : Dfa} (last : dfa.minimizeOnce = .ok none) : Passes dfa []
  | pass {dfa next : Dfa} {later : List Dfa} (first : dfa.minimizeOnce = .ok (some next))
      (rest : Passes next later) : Passes dfa (next :: later)

theorem minimizeOnce_cases (inRange : dfa.InRange) :
    dfa.minimizeOnce = .ok none ∨ ∃ next, dfa.minimizeOnce = .ok (some next) := by
  cases merges : dfa.merges.isEmpty with
  | true => exact .inl (by simp [minimizeOnce, merges])
  | false =>
    obtain ⟨next, success, -⟩ := minimizeOnce_eq_ok inRange merges
    exact .inr ⟨next, success⟩

theorem minimizeOnce_eq_none_iff : dfa.minimizeOnce = .ok none ↔ dfa.merges.isEmpty = true := by
  unfold minimizeOnce
  split
  · rename_i nothing
    exact iff_of_true rfl nothing
  · rename_i something
    refine iff_of_false (fun last => ?_) something
    obtain ⟨states, -, made⟩ := bind_eq_ok_iff.mp last
    cases made

/-- As many passes as there are states are enough. -/
theorem passesUpTo_eq_ok (inRange : dfa.InRange) {limit : Nat} (enough : dfa.size ≤ limit) :
    ∃ results, passesUpTo limit dfa = .ok results ∧ Passes dfa results := by
  induction limit generalizing dfa with
  | zero =>
    rcases minimizeOnce_cases inRange with last | ⟨next, pass⟩
    · exact ⟨[], rfl, .none last⟩
    · have fewer := (quotient_pass inRange pass).2
      omega
  | succ limit ih =>
    rcases minimizeOnce_cases inRange with last | ⟨next, pass⟩
    · exact ⟨[], by simp [passesUpTo, last, bind, Except.bind], .none last⟩
    · obtain ⟨quotient, fewer⟩ := quotient_pass inRange pass
      obtain ⟨later, success, rest⟩ := ih (quotient.inRange inRange) (by omega)
      exact ⟨next :: later, by simp [passesUpTo, pass, success, bind, Except.bind], .pass pass rest⟩

/-- What a state has become after passes with the given results. -/
def stateAfter : Dfa → List Dfa → StateId → StateId
  | _, [], id => id
  | dfa, next :: later, id => stateAfter next later (dfa.rank id)

/-- The quotients of all passes compose. -/
theorem Passes.quotient_stateAfter {results : List Dfa} (passes : Passes dfa results)
    (inRange : dfa.InRange) : Quotient dfa (results.getLastD dfa) (dfa.stateAfter results) := by
  induction passes with
  | none _ => exact .refl _
  | pass first _ ih =>
    obtain ⟨quotient, -⟩ := quotient_pass inRange first
    have later := ih (quotient.inRange inRange)
    rw [List.getLastD_cons]
    exact quotient.trans later

theorem Passes.quotient {results : List Dfa} (passes : Passes dfa results) (inRange : dfa.InRange) :
    ∃ map, Quotient dfa (results.getLastD dfa) map :=
  ⟨_, passes.quotient_stateAfter inRange⟩

/-- The last pass finds nothing to merge. -/
theorem Passes.last {results : List Dfa} (passes : Passes dfa results) :
    (results.getLastD dfa).minimizeOnce = .ok .none := by
  induction passes with
  | none last => exact last
  | pass _ _ ih => rwa [List.getLastD_cons]

/-- Merging goes through, and its result is that of passes until nothing is merged. -/
theorem minimize_eq_ok (inRange : dfa.InRange) :
    ∃ results, dfa.passes = .ok results ∧ Passes dfa results ∧
      dfa.minimize = .ok (results.getLastD dfa) := by
  obtain ⟨results, success, passes⟩ := passesUpTo_eq_ok inRange (Nat.le_refl dfa.size)
  refine ⟨results, success, passes, ?_⟩
  simp only [minimize, Dfa.passes, success, bind, Except.bind]

/-- Merging gives a quotient, which runs and searches cannot tell from the automaton, and in which the
same states are dead. -/
theorem minimize_gives_quotient (inhabited : 0 < dfa.size) (inRange : dfa.InRange) :
    ∃ merged map, dfa.minimize = .ok merged ∧ Quotient dfa merged map ∧
      (∀ input, ∃ outcome, dfa.run input = .ok outcome ∧ merged.run input = .ok outcome) ∧
      (∀ input, ∃ length, dfa.longestPrefix? input = .ok length ∧ merged.longestPrefix? input = .ok length) ∧
      (∀ input, ∃ span, dfa.find? input = .ok span ∧ merged.find? input = .ok span) ∧
      ∃ dead mergedDead, dfa.deadStates = .ok dead ∧ merged.deadStates = .ok mergedDead ∧
        ∀ id < dfa.size, (id ∈ dead ↔ map id ∈ mergedDead) := by
  obtain ⟨results, -, passes, success⟩ := minimize_eq_ok inRange
  obtain ⟨map, quotient⟩ := passes.quotient inRange
  refine ⟨_, map, success, quotient, fun input => ?_, fun input => ?_, fun input => ?_,
    quotient.exists_deadStates inRange⟩
  · obtain ⟨outcome, run, -⟩ := runFrom_eq_ok inRange inhabited 0 input.toList
    exact ⟨outcome, run, (quotient.run_eq inhabited inRange input).trans run⟩
  · obtain ⟨length, found⟩ := longestPrefix?_eq_ok inhabited inRange input
    exact ⟨length, found, (quotient.longestPrefix?_eq inhabited inRange input).trans found⟩
  · obtain ⟨span, found⟩ := find?_eq_ok inhabited inRange input
    exact ⟨span, found, (quotient.find?_eq inhabited inRange input).trans found⟩

/-- Of two states with one signature, one of them unreachable, and a dead state, two states are left. -/
theorem minimize_gives_quotient_of_loops :
    ∃ dfa : Dfa, 0 < dfa.size ∧ dfa.InRange ∧ dfa.size = 3 ∧
      ∃ merged map, dfa.minimize = .ok merged ∧ Quotient dfa merged map ∧ merged.size = 2 := by
  let loop (target : StateId) : DfaState :=
    { accepting := true, transitions := (∅ : SortedMap Symbol StateId).insert 'a' target }
  have inRange : Dfa.InRange ⟨#[loop 0, loop 0, {}]⟩ := by decide
  obtain ⟨merged, map, success, quotient, -⟩ := minimize_gives_quotient (by decide) inRange
  have size : (Dfa.minimize ⟨#[loop 0, loop 0, {}]⟩).map Dfa.size = .ok 2 := rfl
  rw [success] at size
  exact ⟨_, by decide, inRange, rfl, merged, map, success, quotient, Except.ok.inj size⟩

end PatternAutomata.Dfa
