import PatternAutomata.Proofs.CommandLine.Batch
import PatternAutomata.Proofs.CommandLine.Files

/-! # What a batch does to the files

A batch reads its input, empties its output, and only then looks at what it has read (`perform_runBatch`).
-/

namespace PatternAutomata.CommandLine

/-- What the program does in a workspace: how it ends, and what it leaves. -/
def Workspace.perform {α : Type} (workspace : Workspace) (action : ExceptT Failure (StateM Workspace) α) :
    Except Failure α × Workspace :=
  action.run workspace

namespace Workspace

variable {α β : Type} {workspace after : Workspace}

/-- One action after another: a failure ends the whole. -/
theorem perform_bind (action : ExceptT Failure (StateM Workspace) α)
    (later : α → ExceptT Failure (StateM Workspace) β) :
    workspace.perform (action >>= later) =
      match workspace.perform action with
      | (.ok answer, next) => next.perform (later answer)
      | (.error failure, next) => (.error failure, next) := by
  change ExceptT.bindCont later (workspace.perform action).1 (workspace.perform action).2 = _
  rcases workspace.perform action with ⟨_ | _, next⟩ <;> rfl

def readText (path : String) (workspace : Workspace) : Except Failure String := do
  match String.fromUTF8? (← (workspace.readFile path).mapError Failure.host) with
  | some text => .ok text
  | none => .error (.host .notText)

theorem perform_readText (path : String) :
    workspace.perform (CommandLine.readText path) = (workspace.readText path, workspace) := by
  have granted : workspace.perform (granted (Host.readFile path)) =
      ((workspace.readFile path).mapError Failure.host, workspace) := rfl
  rw [CommandLine.readText, perform_bind, granted, readText]
  cases workspace.readFile path with
  | error cause => rfl
  | ok bytes =>
    simp only [Except.mapError, bind, Except.bind]
    cases String.fromUTF8? bytes <;> rfl

theorem perform_checked (result : Except Failure α) :
    workspace.perform (checked result) = (result, workspace) := rfl

theorem perform_createFile (path : String) :
    workspace.perform (granted (Host.createFile path)) =
      match workspace.replaceFile path .empty with
      | .ok emptied => (.ok (), emptied)
      | .error cause => (.error (.host cause), workspace) := by
  simp only [perform, granted, Host.createFile, ExceptT.run, ExceptT.mk, bind, StateT.bind, get, getThe,
    MonadStateOf.get, StateT.get, pure]
  cases workspace.replaceFile path .empty <;> rfl

theorem perform_writeFile (path text : String) :
    workspace.perform (granted (Host.writeFile path text)) =
      match workspace.replaceFile path text.toUTF8 with
      | .ok written => (.ok (), written)
      | .error cause => (.error (.host cause), workspace) := by
  simp only [perform, granted, Host.writeFile, ExceptT.run, ExceptT.mk, bind, StateT.bind, get, getThe,
    MonadStateOf.get, StateT.get, pure]
  cases workspace.replaceFile path text.toUTF8 <;> rfl

theorem perform_print (text : String) :
    workspace.perform (ExceptT.lift (Host.print text)) =
      (.ok (), { workspace with output := workspace.output ++ text }) := rfl

/-- A batch reads its input and empties its output before it looks at what it has read. -/
theorem perform_runBatch (workspace : Workspace) (input output : String) (tests : List String) :
    workspace.perform (runBatch input output tests) =
      match workspace.readText input with
      | .error failure => (.error failure, workspace)
      | .ok text =>
        match workspace.replaceFile output .empty with
        | .error cause => (.error (.host cause), workspace)
        | .ok emptied =>
          match Batch.report text tests with
          | .error failure => (.error failure, emptied)
          | .ok report =>
            match emptied.replaceFile output report.table.toUTF8 with
            | .error cause => (.error (.host cause), emptied)
            | .ok written => (.ok (), { written with output := written.output ++ report.verdicts }) := by
  rw [runBatch, perform_bind, perform_readText]
  cases workspace.readText input with
  | error failure => rfl
  | ok text =>
    simp only [perform_bind, perform_createFile]
    cases workspace.replaceFile output .empty with
    | error cause => rfl
    | ok emptied =>
      simp only [perform_checked]
      cases Batch.report text tests with
      | error failure => rfl
      | ok report =>
        simp only [perform_writeFile]
        cases emptied.replaceFile output report.table.toUTF8 with
        | error cause => rfl
        | ok written => exact perform_print report.verdicts

/-- A text that cannot be read is the machine's fault. -/
theorem readText_eq_error {path : String} {failure : Failure} (fails : workspace.readText path = .error failure) :
    ∃ cause, failure = .host cause := by
  unfold readText at fails
  cases found : workspace.readFile path with
  | error cause =>
    rw [found] at fails
    exact ⟨cause, (Except.error.inj fails).symm⟩
  | ok bytes =>
    simp only [found, Except.mapError, bind, Except.bind] at fails
    cases decoded : String.fromUTF8? bytes with
    | none =>
      rw [decoded] at fails
      exact ⟨.notText, (Except.error.inj fails).symm⟩
    | some text => simp [decoded] at fails

end Workspace

/-- A batch that fails for another reason than the machine has emptied its output, and has done nothing
else. -/
theorem replaceFile_of_runBatch_eq_error {workspace after : Workspace} {input output : String}
    {tests : List String} {failure : Failure}
    (fails : workspace.perform (runBatch input output tests) = (.error failure, after))
    (ownFault : ∀ cause, failure ≠ .host cause) : workspace.replaceFile output .empty = .ok after := by
  rw [Workspace.perform_runBatch] at fails
  cases found : workspace.readText input with
  | error other =>
    simp only [found, Prod.mk.injEq, Except.error.injEq] at fails
    obtain ⟨cause, same⟩ := Workspace.readText_eq_error found
    exact absurd (fails.1.symm.trans same) (ownFault cause)
  | ok text =>
    simp only [found] at fails
    cases emptied : workspace.replaceFile output .empty with
    | error cause =>
      simp only [emptied, Prod.mk.injEq, Except.error.injEq] at fails
      exact absurd fails.1.symm (ownFault cause)
    | ok next =>
      simp only [emptied] at fails
      cases reported : Batch.report text tests with
      | error other =>
        simp only [reported, Prod.mk.injEq] at fails
        rw [fails.2]
      | ok report =>
        simp only [reported] at fails
        cases written : next.replaceFile output report.table.toUTF8 with
        | error cause =>
          simp only [written, Prod.mk.injEq, Except.error.injEq] at fails
          exact absurd fails.1.symm (ownFault cause)
        | ok last =>
          simp only [written, Prod.mk.injEq, reduceCtorEq, false_and] at fails

/-- A batch whose description is empty or malformed prints no verdict, but its output has been emptied by then:
what was there is lost unless it was nothing, and what was not there has been made. Nothing else changes. -/
theorem runBatch_failure_empties_output {workspace after : Workspace} {input output : String}
    {tests : List String} {failure : Failure}
    (fails : workspace.perform (runBatch input output tests) = (.error failure, after))
    (reason : failure = .emptyInput ∨ ∃ cause, failure = .build (.description cause)) :
    after.output = workspace.output ∧ after.readFile output = .ok .empty ∧
      (after.readFile output = workspace.readFile output ↔ workspace.readFile output = .ok .empty) ∧
      ∃ route place, Route.ofPath output = .ok route ∧
        workspace.follow (workspace.start route) route.names = .ok place ∧
        Workspace.Replaced workspace after place := by
  have ownFault (cause : HostError) : failure ≠ .host cause := by
    rcases reason with rfl | ⟨_, rfl⟩ <;> exact nofun
  have emptied := replaceFile_of_runBatch_eq_error fails ownFault
  have empty := Workspace.readFile_of_replaceFile_empty emptied
  obtain ⟨route, place, routed, leads, replaced⟩ := Workspace.exists_replaced emptied
  exact ⟨replaced.output, empty, empty ▸ eq_comm, route, place, routed, leads, replaced⟩

/-- A malformed description empties the table that an earlier batch wrote. -/
theorem runBatch_failure_empties_earlier_table :
    ∃ workspace after : Workspace, workspace.readFile "out.txt" = .ok "old\n".toUTF8 ∧
      workspace.perform (runBatch "in.txt" "out.txt" ["a"]) =
        (.error (.build (.description (.badFlag 2 "*"))), after) ∧
      after.output = workspace.output ∧ after.readFile "out.txt" = .ok .empty := by
  let workspace : Workspace :=
    { nodes := [(["in.txt"], .file "2 ~ a\n* 0 1 a\n".toUTF8), (["out.txt"], .file "old\n".toUTF8)] }
  have found : workspace.readText "in.txt" = .ok "2 ~ a\n* 0 1 a\n" := rfl
  have emptied : workspace.replaceFile "out.txt" .empty = .ok (workspace.put ["out.txt"] (.file .empty)) := rfl
  have reported : Batch.report "2 ~ a\n* 0 1 a\n" ["a"] = .error (.build (.description (.badFlag 2 "*"))) := rfl
  have old : workspace.readFile "out.txt" = .ok "old\n".toUTF8 := rfl
  have fails : workspace.perform (runBatch "in.txt" "out.txt" ["a"]) =
      (.error (.build (.description (.badFlag 2 "*"))), workspace.put ["out.txt"] (.file .empty)) := by
    simp only [Workspace.perform_runBatch, found, emptied, reported]
  obtain ⟨silent, empty, -⟩ := runBatch_failure_empties_output fails (.inr ⟨_, rfl⟩)
  exact ⟨workspace, _, old, fails, silent, empty⟩

end PatternAutomata.CommandLine
