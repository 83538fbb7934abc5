import PatternAutomata.Proofs.Dfa.TableReading
import PatternAutomata.Proofs.SortedMap

/-! # A table loses nothing but origins

If every letter has a column, the row of a state describes the state (`TableRow.toState_ofState`), whether or not a
symbol has several columns. So an automaton can be read back from its table, up to its origins (`ofTable?_table`), and
automata with the same table differ in nothing else (`table_eq_iff`).
-/

namespace PatternAutomata

namespace TableRow

variable {columns : List Symbol}

theorem get?_record (transitions : SortedMap Symbol StateId) (column : Symbol) (entry : Option StateId)
    (symbol : Symbol) : (record transitions (column, entry)).get? symbol =
      if column = symbol then entry.or (transitions.get? symbol) else transitions.get? symbol := by
  cases entry with
  | none => simp [record]
  | some target => simp [record]

/-- Recording what a map answers for each column gives its answers for them, and for other symbols what was recorded
before. -/
theorem get?_foldl_record (answer : Symbol → Option StateId) (start : SortedMap Symbol StateId) (symbol : Symbol) :
    ((columns.zip (columns.map answer)).foldl record start).get? symbol =
      (if symbol ∈ columns then answer symbol else none).or (start.get? symbol) := by
  induction columns generalizing start with
  | nil => rfl
  | cons column rest ih =>
    rw [List.map_cons, List.zip_cons_cons, List.foldl_cons, ih, get?_record]
    by_cases same : column = symbol
    · -- a symbol that has another column later is recorded again, with the same entry
      subst same
      rw [if_pos rfl, if_pos (List.mem_cons_self ..)]
      split
      · rw [← Option.or_assoc, Option.or_self]
      · rw [Option.none_or]
    · rw [if_neg same]
      simp only [List.mem_cons, Ne.symm same, false_or]

/-- With a column for every letter of a state, its row describes it up to its origin. -/
theorem toState_ofState {state : DfaState} (covers : ∀ symbol ∈ state.transitions.keys, symbol ∈ columns)
    (id : StateId) : (ofState columns state id).toState columns = { state with origin := none } := by
  have transitions : ((ofState columns state id).toState columns).transitions = state.transitions := by
    apply SortedMap.ext_get?
    intro symbol
    change ((columns.zip (columns.map state.transitions.get?)).foldl record ∅).get? symbol = _
    rw [get?_foldl_record, SortedMap.get?_empty, Option.or_none]
    split
    · rfl
    · rename_i uncovered
      exact (SortedMap.get?_eq_none_iff.mpr fun key => uncovered (covers symbol key)).symm
  calc (ofState columns state id).toState columns
      = { accepting := state.accepting,
          transitions := ((ofState columns state id).toState columns).transitions } := rfl
    _ = { state with origin := none } := by rw [transitions]

end TableRow

namespace Dfa

variable {dfa first second : Dfa} {columns : List Symbol}

def withoutOrigins (dfa : Dfa) : Dfa :=
  ⟨(dfa.states.toList.map fun state => { state with origin := none }).toArray⟩

theorem getElem?_withoutOrigins (dfa : Dfa) (id : StateId) :
    dfa.withoutOrigins.states[id]? = (dfa.states[id]?).map fun state => { state with origin := none } := by
  rw [withoutOrigins, List.getElem?_toArray, List.getElem?_map, Array.getElem?_toList]

/-- Up to origins, automata are the same if they have as many states, which accept the same and lead to the same
states. -/
theorem withoutOrigins_eq_iff : first.withoutOrigins = second.withoutOrigins ↔ first.size = second.size ∧
    ∀ id < first.size, (first.Accepting id ↔ second.Accepting id) ∧
      ∀ symbol, first.next? id symbol = second.next? id symbol := by
  constructor
  · intro same
    have size : first.size = second.size := by
      simpa [withoutOrigins, Dfa.size] using congrArg Dfa.size same
    refine ⟨size, fun id owned => ?_⟩
    have here := congrArg (fun dfa : Dfa => dfa.states[id]?) same
    simp only [getElem?_withoutOrigins, getElem?_of_lt owned, getElem?_of_lt (size ▸ owned), Option.map_some,
      Option.some.injEq, DfaState.mk.injEq, and_true] at here
    obtain ⟨accepting, transitions⟩ := here
    refine ⟨?_, fun symbol => ?_⟩
    · simp only [Accepting, getElem?_of_lt owned, getElem?_of_lt (size ▸ owned), Option.some.injEq, exists_eq_left',
        accepting]
    · simp only [next?, getElem?_of_lt owned, getElem?_of_lt (size ▸ owned), Option.bind_some, transitions]
  · rintro ⟨size, states⟩
    apply congrArg fun states : List DfaState => Dfa.mk states.toArray
    apply List.ext_getElem?
    intro id
    rw [List.getElem?_map, List.getElem?_map, Array.getElem?_toList, Array.getElem?_toList]
    rcases Nat.lt_or_ge id first.size with owned | foreign
    · obtain ⟨accepting, targets⟩ := states id owned
      simp only [next?, Accepting, getElem?_of_lt owned, getElem?_of_lt (size ▸ owned), Option.some.injEq,
        exists_eq_left', Option.bind_some, ← Bool.eq_iff_iff] at accepting targets
      rw [getElem?_of_lt owned, getElem?_of_lt (size ▸ owned), Option.map_some, Option.map_some, accepting,
        SortedMap.ext_get? targets]
    · rw [Array.getElem?_eq_none foreign, Array.getElem?_eq_none (Nat.le_trans size.ge foreign)]

theorem table_withoutOrigins (dfa : Dfa) (columns : List Symbol) :
    dfa.withoutOrigins.table columns = dfa.table columns := by
  rw [table, table, withoutOrigins, List.toList_toArray, List.zipIdx_map, List.flatMap_map]
  rfl

theorem covers_of_getElem? (covers : ∀ symbol ∈ dfa.alphabet, symbol ∈ columns) {id : StateId} {state : DfaState}
    (read : dfa.states[id]? = some state) : ∀ symbol ∈ state.transitions.keys, symbol ∈ columns :=
  fun symbol key => covers symbol (mem_alphabet.mpr ⟨state, Array.mem_of_getElem? read, key⟩)

/-- The line of a state alone gives back the state. -/
theorem toState_getElem?_lines (covers : ∀ symbol ∈ dfa.alphabet, symbol ∈ columns) (id : StateId) :
    ((Text.lines (dfa.table columns).toList)[id]?.bind TableRow.ofLine?).map (TableRow.toState columns) =
      dfa.withoutOrigins.states[id]? := by
  rw [lines_table, List.getElem?_map, List.getElem?_zipIdx, Array.getElem?_toList, getElem?_withoutOrigins]
  cases read : dfa.states[id]? with
  | none => rfl
  | some state =>
    simp only [Option.map_some, Option.bind_some, Nat.zero_add, TableRow.ofLine?_tableFields,
      TableRow.toState_ofState (covers_of_getElem? covers read)]

/-- With a column for every letter, the automaton can be read back from its table, up to its origins. -/
theorem ofTable?_table (covers : ∀ symbol ∈ dfa.alphabet, symbol ∈ columns) :
    ofTable? columns (dfa.table columns) = some dfa.withoutOrigins := by
  have states : ((dfa.rows columns).map (TableRow.toState columns)).toArray = dfa.withoutOrigins.states := by
    apply Array.ext_getElem?
    intro id
    rw [List.getElem?_toArray, List.getElem?_map, getElem?_withoutOrigins]
    cases read : dfa.states[id]? with
    | none => simp [rows, List.getElem?_zipIdx, read]
    | some state =>
      rw [getElem?_rows columns read, Option.map_some, Option.map_some,
        TableRow.toState_ofState (covers_of_getElem? covers read)]
  rw [ofTable?, readTable?_table]
  exact congrArg (fun states => some (Dfa.mk states)) states

/-- With columns for all letters, two automata have the same table if they have as many states, which accept the
same and lead to the same states, and only then. Each is read back from its table up to its origins, and each of its
states from its line. -/
theorem table_eq_iff (firstCovers : ∀ symbol ∈ first.alphabet, symbol ∈ columns)
    (secondCovers : ∀ symbol ∈ second.alphabet, symbol ∈ columns) :
    (first.table columns = second.table columns ↔ first.size = second.size ∧
      ∀ id < first.size, (first.Accepting id ↔ second.Accepting id) ∧
        ∀ symbol, first.next? id symbol = second.next? id symbol) ∧
    ofTable? columns (first.table columns) = some first.withoutOrigins ∧
    ofTable? columns (second.table columns) = some second.withoutOrigins ∧
    ∀ id : StateId, ((Text.lines (first.table columns).toList)[id]?.bind TableRow.ofLine?).map
      (TableRow.toState columns) = first.withoutOrigins.states[id]? := by
  refine ⟨?_, ofTable?_table firstCovers, ofTable?_table secondCovers, toState_getElem?_lines firstCovers⟩
  rw [← withoutOrigins_eq_iff]
  constructor
  · intro same
    have read := ofTable?_table firstCovers
    rw [same, ofTable?_table secondCovers] at read
    exact (Option.some.inj read).symm
  · intro same
    rw [← table_withoutOrigins, same, table_withoutOrigins]

/-- A symbol with two columns and one that no transition has, and a state that leads nowhere: without its origins the
automaton has the same table, from which it is read back. -/
theorem table_eq_iff_with_repeated_columns :
    ∃ dfa : Dfa, dfa ≠ dfa.withoutOrigins ∧ (∀ symbol ∈ dfa.alphabet, symbol ∈ ['b', 'a', 'b', 'c']) ∧
      dfa.table ['b', 'a', 'b', 'c'] = "- 0 0 1 0 E\n+ 1 E E E E\n" ∧
      dfa.table ['b', 'a', 'b', 'c'] = dfa.withoutOrigins.table ['b', 'a', 'b', 'c'] ∧
      ofTable? ['b', 'a', 'b', 'c'] (dfa.table ['b', 'a', 'b', 'c']) = some dfa.withoutOrigins := by
  let dfa : Dfa := ⟨#[
    { transitions := ((∅ : SortedMap Symbol StateId).insert 'a' 1).insert 'b' 0, origin := some (.ofList [0, 2]) },
    { accepting := true, origin := some (.ofList [1]) }]⟩
  have covers : ∀ symbol ∈ dfa.alphabet, symbol ∈ ['b', 'a', 'b', 'c'] := by
    intro symbol member
    have letter : symbol ∈ ['a', 'b'] := member
    rcases List.mem_pair.mp letter with rfl | rfl <;> decide
  have same : dfa.withoutOrigins.alphabet = dfa.alphabet := by decide
  obtain ⟨determines, read, -⟩ := table_eq_iff covers (same ▸ covers)
  exact ⟨dfa, by decide, covers, rfl, determines.mpr (withoutOrigins_eq_iff.mp rfl), read⟩

end Dfa

end PatternAutomata
