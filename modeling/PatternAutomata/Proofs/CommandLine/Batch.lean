import PatternAutomata.CommandLine.Program
import PatternAutomata.Proofs.Description.Recognition
import PatternAutomata.Proofs.Dfa.Minimized
import PatternAutomata.Proofs.Dfa.TableReading

/-! # The table of a batch and its verdicts

A batch writes a table and prints a verdict on each input. Both are about the automaton of the description:
reading the table back and running over its rows gives the outcomes of the verdicts, and an outcome is a match
when the described automaton accepts the input (`Batch.report_table_agrees`).
-/

namespace PatternAutomata

/-- Only a match is told as one. -/
theorem Outcome.message_eq_match_iff (outcome : Outcome) : outcome.message = "match" ↔ outcome = .matched := by
  have long (rest : String) : "no match at offset " ++ rest ≠ "match" := by
    intro same
    have lengths := congrArg String.length same
    rw [String.length_append] at lengths
    have front : "no match at offset ".length = 19 := rfl
    have whole : "match".length = 5 := rfl
    omega
  cases outcome with
  | matched => exact iff_of_true rfl rfl
  | noTransition offset => exact iff_of_false (long _) nofun
  | endOfInput offset =>
    have apart : "no match at offset " ++ toString offset ++ " (end of input)" ≠ "match" := by
      rw [String.append_assoc]
      exact long _
    exact iff_of_false apart nofun

namespace CommandLine.Batch

variable {text : String} {read : Description}

/-- A report is made when there is content, it can be read, and the automaton and all its runs go through. -/
theorem report_eq (text : String) (inputs : List String) : report text inputs =
    if Text.allBlank text.toList then .error .emptyInput
    else ((Description.ofText text).mapError Failure.build).bind fun read =>
      ((((automaton read).mapError Error.fault).bind fun dfa =>
        (inputs.mapM fun input => ((dfa.run input).mapError Error.fault).bind fun outcome =>
            .ok (verdict input outcome)).bind fun verdicts =>
          .ok { table := dfa.table (columns read), verdicts := String.join verdicts }).mapError Failure.build) :=
  rfl

/-- The automaton of a description that was read is made without a fault. -/
theorem automaton_eq_ok (success : Description.ofText text = .ok read) :
    ∃ subset dfa map, automaton read = .ok dfa ∧ SubsetAutomaton read.nfa subset ∧ subset.Quotient dfa map := by
  obtain ⟨inRange, -⟩ := Description.inRange_of_ofText success
  obtain ⟨subset, dfa, map, determinizes, minimizes, subsets, quotient⟩ := Nfa.exists_minimized inRange
  refine ⟨subset, dfa, map, ?_, subsets, quotient⟩
  simp only [automaton, determinizes, minimizes, bind, Except.bind]

theorem nodup_columns (read : Description) : (columns read).Nodup := nodup_eraseDups _

theorem mem_columns_of_mem_alphabet (success : Description.ofText text = .ok read) {dfa : Dfa}
    (made : automaton read = .ok dfa) {symbol : Symbol} (member : symbol ∈ dfa.alphabet) :
    symbol ∈ columns read := by
  obtain ⟨inRange, alphabet⟩ := Description.inRange_of_ofText success
  obtain ⟨subset, merged, map, makes, subsets, quotient⟩ := automaton_eq_ok success
  obtain rfl := Except.ok.inj (made.symm.trans makes)
  rw [quotient.alphabet_eq] at member
  exact Alphabet.mem_columns.mpr (.inr (alphabet ▸ subsets.mem_alphabet inRange member))

/-- The run of the automaton on an input ends as the run over the rows of the table, with a match when the
described automaton accepts the input. -/
structure Agrees (read : Description) (dfa : Dfa) (rows : List TableRow) (input : String)
    (outcome : Outcome) : Prop where
  run : dfa.run input = .ok outcome
  walk : walkTable? (columns read) rows StateId.start 0 input.toList = some outcome
  accepts : ∃ accepted, read.nfa.accepts input = .ok accepted ∧ (outcome.message = "match" ↔ accepted = true)

/-- A run of the automaton of a description ends as the run over the rows of its table. -/
theorem exists_agrees (success : Description.ofText text = .ok read) {dfa : Dfa}
    (made : automaton read = .ok dfa) (input : String) :
    ∃ outcome, dfa.run input = .ok outcome ∧ Agrees read dfa (dfa.rows (columns read)) input outcome := by
  obtain ⟨inRange, -⟩ := Description.inRange_of_ofText success
  obtain ⟨subset, merged, map, makes, subsets, quotient⟩ := automaton_eq_ok success
  obtain rfl := Except.ok.inj (made.symm.trans makes)
  obtain ⟨outcome, accepted, run, answers, matched⟩ := quotient.run_matched_iff subsets inRange input
  have walk := Dfa.walkTable?_rows (fun _ member => mem_columns_of_mem_alphabet success made member) run
  exact ⟨outcome, run, run, walk, accepted, answers, outcome.message_eq_match_iff.trans matched⟩

/-- When all runs end, their outcomes are reported below the table. -/
theorem report_eq_ok (success : Description.ofText text = .ok read) {dfa : Dfa}
    (made : automaton read = .ok dfa) {inputs : List String} {outcomes : List Outcome}
    (runs : List.Forall₂ (fun input outcome => dfa.run input = .ok outcome) inputs outcomes) :
    report text inputs = .ok
      { table := dfa.table (columns read), verdicts := String.join (List.zipWith verdict inputs outcomes) } := by
  obtain ⟨listing, lines, -⟩ := Description.ofText_eq_ok_iff.mp success
  have content := Description.Listing.allBlank_eq_false_of_ofText lines
  have told (input : String) (outcome : Outcome) (run : dfa.run input = .ok outcome) :
      (((dfa.run input).mapError Error.fault).bind fun outcome => .ok (verdict input outcome)) =
        .ok (verdict input outcome) := by
    rw [run]
    rfl
  have verdicts := mapM_eq_ok_iff_forall₂.mpr (forall₂_zipWith runs told)
  rw [report_eq, content, success]
  simp only [Bool.false_eq_true, ↓reduceIte, Except.mapError, Except.bind, made] at verdicts ⊢
  rw [verdicts]

/-- A batch on a description that can be read goes through. Its columns are distinct and have all letters of
the automaton. Its table is read back as one row for each state, numbered as the states, with an entry for
each column. Each verdict tells how the run over these rows ends, and tells of a match when the described
automaton accepts the input. -/
theorem report_table_agrees (success : Description.ofText text = .ok read) (inputs : List String) :
    ∃ dfa report rows outcomes, automaton read = .ok dfa ∧ Batch.report text inputs = .ok report ∧
      (columns read).Nodup ∧ (∀ symbol ∈ dfa.alphabet, symbol ∈ columns read) ∧
      readTable? report.table = some rows ∧ rows.length = dfa.size ∧
      (∀ (id : StateId) (row : TableRow), rows[id]? = some row →
        row.id = id ∧ row.entries.length = (columns read).length) ∧
      report.verdicts = String.join (List.zipWith verdict inputs outcomes) ∧
      List.Forall₂ (Agrees read dfa rows) inputs outcomes := by
  obtain ⟨subset, dfa, map, made, -⟩ := automaton_eq_ok success
  obtain ⟨outcomes, -, agree⟩ := mapM_eq_ok fun input (_ : input ∈ inputs) => exists_agrees success made input
  have reported := report_eq_ok success made (agree.imp fun _ _ agrees => agrees.run)
  exact ⟨dfa, _, dfa.rows (columns read), outcomes, made, reported, nodup_columns read,
    fun symbol => mem_columns_of_mem_alphabet success made, Dfa.readTable?_table dfa (columns read),
    Dfa.length_rows dfa (columns read), fun id row => Dfa.row_of_getElem?_rows, rfl, agree⟩

/-- A batch on an automaton that is merged, with a match, an input that a symbol of stops, and one that ends too
early. -/
theorem report_table_agrees_on_diamond :
    ∃ text read dfa rows outcomes, Description.ofText text = .ok read ∧
      Batch.report text ["aa", "ab", "a"] = .ok
        { table := "- 0 1 1\n- 1 2 E\n+ 2 E E\n"
          verdicts := "\"aa\": match\n\"ab\": no match at offset 1\n\"a\": no match at offset 1 (end of input)\n" } ∧
      readTable? "- 0 1 1\n- 1 2 E\n+ 2 E E\n" = some rows ∧
      List.Forall₂ (Agrees read dfa rows) ["aa", "ab", "a"] outcomes := by
  let text := "4 ~ a b\n- 0 1 a\n- 0 2 b\n- 1 3 a\n- 2 3 a\n+ 3 3 ~\n"
  have computed : (Batch.report text ["aa", "ab", "a"]).toOption = some
      { table := "- 0 1 1\n- 1 2 E\n+ 2 E E\n"
        verdicts := "\"aa\": match\n\"ab\": no match at offset 1\n\"a\": no match at offset 1 (end of input)\n" } := by
    decide +kernel
  have readable : (Description.ofText text).toOption.isSome = true := by decide +kernel
  cases success : Description.ofText text with
  | error cause =>
    rw [success] at readable
    cases readable
  | ok read =>
    obtain ⟨dfa, report, rows, outcomes, -, reported, -, -, table, -, -, -, agree⟩ :=
      report_table_agrees success ["aa", "ab", "a"]
    rw [reported] at computed
    obtain rfl := Option.some.inj computed
    exact ⟨text, read, dfa, rows, outcomes, success, reported, table, agree⟩

end CommandLine.Batch

end PatternAutomata
