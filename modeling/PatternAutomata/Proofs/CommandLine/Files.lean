import PatternAutomata.CommandLine.Workspace

/-! # What replacing a file changes

Replacing the file at a path changes what stands at one place, where the path leads to, and nothing else
(`Workspace.Replaced`). The path still leads there afterwards (`follow_put`), so it reads as the new content,
unless a device stands there, which is always empty (`readFile_of_replaceFile`).
-/

namespace PatternAutomata.CommandLine.Workspace

variable {workspace after : Workspace} {path : String} {content : ByteArray}

/-- One workspace differs from another at most in what stands at a place. -/
structure Replaced (workspace after : Workspace) (place : Place) : Prop where
  home : after.home = workspace.home
  input : after.input = workspace.input
  output : after.output = workspace.output
  errors : after.errors = workspace.errors
  elsewhere : ∀ other, other ≠ place → after.node? other = workspace.node? other

theorem Replaced.refl (workspace : Workspace) (place : Place) : Replaced workspace workspace place :=
  ⟨rfl, rfl, rfl, rfl, fun _ _ => rfl⟩

/-- What is no directory is not on the way to the working directory. -/
theorem not_prefix_home {place : Place} (notDirectory : workspace.node? place ≠ some .directory) :
    ¬ place <+: workspace.home := by
  intro above
  apply notDirectory
  rw [node?, if_pos (List.isPrefixOf_iff_prefix.mpr above)]

theorem Replaced.put {place : Place} (notDirectory : workspace.node? place ≠ some .directory) (node : Node) :
    Replaced workspace (workspace.put place node) place where
  home := rfl
  input := rfl
  output := rfl
  errors := rfl
  elsewhere other different := by rw [node?_put (not_prefix_home notDirectory), if_neg (Ne.symm different)]

/-- A way through directories is not changed by what stands at a place that is no directory. -/
theorem follow_put {place : Place} (notDirectory : workspace.node? place ≠ some .directory) (node : Node)
    {names : List String} {source target : Place} (leads : workspace.follow source names = .ok target) :
    (workspace.put place node).follow source names = .ok target := by
  induction names generalizing source with
  | nil => exact leads
  | cons name rest ih =>
    have passed : workspace.node? source = some .directory := by
      cases here : workspace.node? source with
      | none => simp [follow, here] at leads
      | some found => cases found <;> simp [follow, here] at leads ⊢
    have different : source ≠ place := by
      rintro rfl
      exact notDirectory passed
    have same := (Replaced.put notDirectory node).elsewhere source different
    simp only [follow, passed, same, bind, Except.bind] at leads ⊢
    cases stepped : step source name with
    | error cause => simp [stepped] at leads
    | ok next =>
      rw [stepped] at leads
      exact ih leads

/-- A file is replaced at the place that its path leads to, which is no directory. A device stays. -/
theorem replaceFile_cases (success : workspace.replaceFile path content = .ok after) :
    ∃ route place, Route.ofPath path = .ok route ∧ route.toDirectory = false ∧
      workspace.follow (workspace.start route) route.names = .ok place ∧
      (workspace.node? place = some .sink ∧ after = workspace ∨
        workspace.node? place ≠ some .directory ∧ after = workspace.put place (.file content)) := by
  unfold replaceFile at success
  cases routed : Route.ofPath path with
  | error cause => simp [routed, bind, Except.bind] at success
  | ok route =>
    simp only [routed, bind, Except.bind] at success
    split at success
    · split at success <;> cases success
    · rename_i toFile
      split at success
      · cases success
      · rename_i place leads
        refine ⟨route, place, rfl, Bool.eq_false_iff.mpr toFile, leads, ?_⟩
        split at success
        · cases success
        · rename_i sink
          exact .inl ⟨sink, (Except.ok.inj success).symm⟩
        · rename_i file
          exact .inr ⟨by simp [file], (Except.ok.inj success).symm⟩
        · rename_i absent
          exact .inr ⟨by simp [absent], (Except.ok.inj success).symm⟩

/-- Replacing a file changes nothing but what stands where the path leads. -/
theorem exists_replaced (success : workspace.replaceFile path content = .ok after) :
    ∃ route place, Route.ofPath path = .ok route ∧
      workspace.follow (workspace.start route) route.names = .ok place ∧ Replaced workspace after place := by
  obtain ⟨route, place, routed, -, leads, ⟨-, rfl⟩ | ⟨notDirectory, rfl⟩⟩ := replaceFile_cases success
  · exact ⟨route, place, routed, leads, .refl after place⟩
  · exact ⟨route, place, routed, leads, .put notDirectory _⟩

/-- What has been put into a file is read from it; a device is empty. -/
theorem readFile_of_replaceFile (success : workspace.replaceFile path content = .ok after) :
    after.readFile path = .ok content ∨ after = workspace ∧ after.readFile path = .ok .empty := by
  obtain ⟨route, place, routed, toFile, leads, ⟨sink, rfl⟩ | ⟨notDirectory, rfl⟩⟩ := replaceFile_cases success
  · refine .inr ⟨rfl, ?_⟩
    simp only [readFile, routed, Route.steps, toFile, bind, Except.bind, Bool.false_eq_true, ↓reduceIte, leads,
      sink]
  · have leadsThere := follow_put notDirectory (.file content) leads
    have here : (workspace.put place (.file content)).node? place = some (.file content) := by
      rw [node?_put (not_prefix_home notDirectory), if_pos rfl]
    have start : (workspace.put place (.file content)).start route = workspace.start route := rfl
    refine .inl ?_
    simp only [readFile, routed, Route.steps, toFile, bind, Except.bind, Bool.false_eq_true, ↓reduceIte, start,
      leadsThere, here]

theorem readFile_of_replaceFile_empty (success : workspace.replaceFile path .empty = .ok after) :
    after.readFile path = .ok .empty := by
  rcases readFile_of_replaceFile success with file | ⟨-, sink⟩
  · exact file
  · exact sink

end PatternAutomata.CommandLine.Workspace
