import PatternAutomata.Dfa.TableReading
import PatternAutomata.Proofs.Description.Reading
import PatternAutomata.Proofs.Dfa.Transitions

/-! # A table is the automaton that it was made from

The lines of a table say what the states of the automaton say: reading a table gives one row for each state,
with the targets of the column symbols (`Dfa.readTable?_table`). If every letter has a column, nothing is lost,
and a run over the rows ends as the run of the automaton does (`Dfa.walkTable?_rows`).
-/

namespace PatternAutomata

/-- Reading with an answer for every item reads all items. -/
theorem mapM_map_eq_some {α β γ : Type} {f : β → Option γ} {g : α → β} {h : α → γ} {items : List α}
    (each : ∀ item ∈ items, f (g item) = some (h item)) : (items.map g).mapM f = some (items.map h) := by
  induction items with
  | nil => rfl
  | cons item rest ih =>
    have first := each item (List.mem_cons_self ..)
    have later := ih fun other member => each other (List.mem_cons_of_mem _ member)
    rw [List.map_cons, List.mapM_cons, first, later]
    rfl

namespace TableRow

def ofState (columns : List Symbol) (state : DfaState) (id : StateId) : TableRow where
  accepting := state.accepting
  id := id
  entries := columns.map state.transitions.get?

theorem readFlag?_flagOf (accepting : Bool) : readFlag? [flagOf accepting] = some accepting := by
  cases accepting <;> rfl

/-- A numeral is not taken for the mark of a symbol that leads nowhere. -/
theorem writeNumeral_ne_noTransitionMark (n : Nat) : Text.writeNumeral n ≠ Dfa.noTransitionMark := by
  intro same
  have member : 'E' ∈ Text.writeNumeral n := by
    rw [same]
    exact List.mem_singleton_self 'E'
  exact absurd (Text.isDigit_of_mem_writeNumeral member) (by decide)

theorem readEntry?_tableEntry (state : DfaState) (symbol : Symbol) :
    readEntry? (Dfa.tableEntry state symbol) = some (state.transitions.get? symbol) := by
  unfold Dfa.tableEntry
  cases state.transitions.get? symbol with
  | none => rfl
  | some target =>
    unfold readEntry?
    rw [if_neg (writeNumeral_ne_noTransitionMark target), Text.readNatural?_writeNumeral]
    rfl

theorem isField_of_mem_tableFields {columns : List Symbol} {state : DfaState} {id : StateId}
    {field : List Char} (member : field ∈ Dfa.tableFields columns state id) : Text.IsField field := by
  rcases List.mem_cons.mp member with rfl | later
  · exact Description.isField_flagOf _
  · rcases List.mem_cons.mp later with rfl | entry
    · exact Description.isField_writeNumeral _
    · obtain ⟨symbol, -, rfl⟩ := List.mem_map.mp entry
      unfold Dfa.tableEntry
      split
      · exact Description.isField_writeNumeral _
      · exact Text.isField_singleton (by decide)

theorem ofLine?_tableFields (columns : List Symbol) (state : DfaState) (id : StateId) :
    ofLine? ([' '].intercalate (Dfa.tableFields columns state id)) = some (ofState columns state id) := by
  have entries : (columns.map (Dfa.tableEntry state)).mapM readEntry? =
      some (columns.map state.transitions.get?) :=
    mapM_map_eq_some fun symbol _ => readEntry?_tableEntry state symbol
  rw [ofLine?, Text.fields_intercalate fun field member => isField_of_mem_tableFields member]
  simp only [Dfa.tableFields, readFlag?_flagOf, Text.readNatural?_writeNumeral, entries, bind, Option.bind_some]
  rfl

/-- A row with a column for a symbol tells where it leads. -/
theorem next?_ofState {columns : List Symbol} {symbol : Symbol} (covered : symbol ∈ columns)
    (state : DfaState) (id : StateId) :
    (ofState columns state id).next? columns symbol = state.transitions.get? symbol := by
  simp [next?, ofState, List.getElem?_map, List.getElem?_idxOf covered]

theorem next?_ofState_of_not_mem {columns : List Symbol} {symbol : Symbol} (uncovered : symbol ∉ columns)
    (state : DfaState) (id : StateId) : (ofState columns state id).next? columns symbol = none := by
  simp [next?, ofState, List.idxOf_of_notMem uncovered]

end TableRow

namespace Dfa

variable {dfa : Dfa} {columns : List Symbol}

def rows (dfa : Dfa) (columns : List Symbol) : List TableRow :=
  dfa.states.toList.zipIdx.map fun (state, id) => TableRow.ofState columns state id

theorem getElem?_rows (columns : List Symbol) {id : StateId} {state : DfaState}
    (read : dfa.states[id]? = some state) :
    (dfa.rows columns)[id]? = some (TableRow.ofState columns state id) := by
  simp [rows, List.getElem?_zipIdx, read]

theorem length_rows (dfa : Dfa) (columns : List Symbol) : (dfa.rows columns).length = dfa.size := by
  simp [rows, size]

/-- Rows are numbered as the states, and have an entry for each column. -/
theorem row_of_getElem?_rows {id : StateId} {row : TableRow} (read : (dfa.rows columns)[id]? = some row) :
    row.id = id ∧ row.entries.length = columns.length := by
  have inside : id < dfa.size := length_rows dfa columns ▸ (List.getElem?_eq_some_iff.mp read).1
  obtain rfl := Option.some.inj (read.symm.trans (getElem?_rows columns (getElem?_of_lt inside)))
  exact ⟨rfl, List.length_map _⟩

/-- The table of an automaton has a line for each state, with the fields of the state. -/
theorem lines_table (dfa : Dfa) (columns : List Symbol) :
    Text.lines (dfa.table columns).toList = dfa.states.toList.zipIdx.map fun (state, id) =>
      [' '].intercalate (tableFields columns state id) := by
  have written : (dfa.table columns).toList = (dfa.states.toList.zipIdx.map fun (state, id) =>
      tableFields columns state id).flatMap Text.writeLine := by
    rw [table, String.toList_ofList, List.flatMap_map]
  rw [written, Text.lines_flatMap_writeLine, List.map_map]
  · rfl
  · intro line lineMember field fieldMember
    obtain ⟨⟨state, id⟩, -, rfl⟩ := List.mem_map.mp lineMember
    exact TableRow.isField_of_mem_tableFields fieldMember

theorem readTable?_table (dfa : Dfa) (columns : List Symbol) :
    readTable? (dfa.table columns) = some (dfa.rows columns) := by
  rw [readTable?, lines_table]
  exact mapM_map_eq_some fun (state, id) _ => TableRow.ofLine?_tableFields columns state id

/-- With a column for every letter, the row of a state tells where every symbol leads. -/
theorem next?_row (covers : ∀ symbol ∈ dfa.alphabet, symbol ∈ columns) {id : StateId} {state : DfaState}
    (read : dfa.states[id]? = some state) (symbol : Symbol) :
    (TableRow.ofState columns state id).next? columns symbol = dfa.next? id symbol := by
  have here : dfa.next? id symbol = state.transitions.get? symbol := by simp [next?, read]
  by_cases covered : symbol ∈ columns
  · rw [TableRow.next?_ofState covered, here]
  · rw [TableRow.next?_ofState_of_not_mem covered]
    cases step : dfa.next? id symbol with
    | none => rfl
    | some target => exact absurd (covers symbol (mem_alphabet_iff_next?.mpr ⟨id, target, step⟩)) covered

/-- With a column for every letter, a run over the rows of the table ends as the run of the automaton. -/
theorem walkTable?_rows (covers : ∀ symbol ∈ dfa.alphabet, symbol ∈ columns) {word : List Symbol}
    {id : StateId} {offset : Nat} {outcome : Outcome} (success : dfa.runFrom id offset word = .ok outcome) :
    walkTable? columns (dfa.rows columns) id offset word = some outcome := by
  induction word generalizing id offset with
  | nil =>
    obtain ⟨accepting, accepts, same⟩ := bind_eq_ok_iff.mp success
    obtain ⟨state, read, flag⟩ := bind_eq_ok_iff.mp accepts
    obtain rfl := Except.ok.inj flag
    obtain rfl := Except.ok.inj same
    have row := getElem?_rows columns (StateTable.read_eq_ok_iff.mp read)
    simp only [walkTable?, row, bind, Option.bind_some, TableRow.ofState]
  | cons symbol rest ih =>
    obtain ⟨next, step, later⟩ := bind_eq_ok_iff.mp success
    obtain ⟨state, read, leads⟩ := bind_eq_ok_iff.mp step
    have present := StateTable.read_eq_ok_iff.mp read
    have target : (TableRow.ofState columns state id).next? columns symbol = next := by
      rw [next?_row covers present, Dfa.next?, present, Option.bind_some]
      exact Except.ok.inj leads
    simp only [walkTable?, getElem?_rows columns present, bind, Option.bind_some, target]
    cases next with
    | none => exact congrArg some (Except.ok.inj later)
    | some target => exact ih later

end Dfa

end PatternAutomata
