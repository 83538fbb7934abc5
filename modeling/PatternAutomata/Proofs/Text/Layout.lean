import PatternAutomata.Proofs.Text.Line

/-! # Cutting a text undoes its layout

Cutting a line gives the fields that are laid out on it (`fields_of_spaced`), and cutting a text gives its lines, up
to a carriage return that might belong to the end of a line as well (`exists_lines_append`). As every text is also a
layout of its fields (`laidOut_fields`), what is laid out in a text is exactly what cutting it gives (`laidOut_iff`).
-/

namespace PatternAutomata.Text

variable {line text gap : List Char} {c : Char}

theorem allBlank_cons_iff : allBlank (c :: gap) = true ↔ isBlank c = true ∧ allBlank gap = true :=
  Bool.and_eq_true_iff

theorem fields_append_of_allBlank (blank : allBlank gap = true) (rest : List Char) :
    fields (gap ++ rest) = fields rest := by
  induction gap with
  | nil => rfl
  | cons c gap ih =>
    obtain ⟨first, later⟩ := allBlank_cons_iff.mp blank
    rw [List.cons_append, fields, if_pos first, ih later]

/-- Cutting a line gives the fields that are laid out on it. -/
theorem fields_of_spaced {items : List (List Char)} (spaced : Spaced items line) : fields line = items := by
  induction spaced with
  | nil blank => exact fields_eq_nil_iff.mpr blank
  | cons blank isField ends _ ih => rw [fields_append_of_allBlank blank, fields_append isField ends, ih]

/-- A blank character at the front belongs to the gap before the first field. -/
theorem Spaced.cons_blank {items : List (List Char)} (spaced : Spaced items line) (blank : isBlank c = true) :
    Spaced items (c :: line) := by
  cases spaced with
  | nil gapBlank => exact .nil (allBlank_cons_iff.mpr ⟨blank, gapBlank⟩)
  | cons gapBlank isField ends rest => exact .cons (allBlank_cons_iff.mpr ⟨blank, gapBlank⟩) isField ends rest

/-- A visible character in front of a line that begins with a field belongs to this field. -/
theorem Spaced.cons_visible {first : List Char} {later : List (List Char)} (spaced : Spaced (first :: later) line)
    (visible : isBlank c = false) (goesOn : line.head?.all isBlank = false) :
    Spaced ((c :: first) :: later) (c :: line) := by
  cases spaced with
  | @cons gap _ line _ gapBlank isField ends rest =>
    cases gap with
    | nil =>
      refine @Spaced.cons [] _ _ _ rfl ⟨List.cons_ne_nil c first, fun other member => ?_⟩ ends rest
      rcases List.mem_cons.mp member with rfl | inFirst
      · exact visible
      · exact isField.visible other inFirst
    | cons d gap =>
      have blank : isBlank d = true := (allBlank_cons_iff.mp gapBlank).1
      exact absurd (goesOn.symm.trans blank) Bool.false_ne_true

/-- Every line is a layout of its fields. -/
theorem spaced_fields (line : List Char) : Spaced (fields line) line := by
  fun_induction fields line with
  | case1 => exact .nil rfl
  | case2 c rest blank ih => exact ih.cons_blank blank
  | case3 c rest visible ends ih =>
    exact @Spaced.cons [] _ _ _ rfl (isField_singleton (Bool.eq_false_iff.mpr visible)) ends ih
  | case4 c rest visible goesOn none ih =>
    have blank := fields_eq_nil_iff.mp none
    cases rest with
    | nil => exact absurd rfl goesOn
    | cons d rest => exact absurd (allBlank_cons_iff.mp blank).1 goesOn
  | case5 c rest visible goesOn first later cut ih =>
    rw [cut] at ih
    exact ih.cons_visible (Bool.eq_false_iff.mpr visible) (Bool.eq_false_iff.mpr goesOn)

/-- Blank characters may follow the last field. -/
theorem Spaced.append_blank {items : List (List Char)} (spaced : Spaced items line) (blank : allBlank gap = true) :
    Spaced items (line ++ gap) := by
  induction spaced with
  | nil before =>
    refine .nil ?_
    rw [allBlank, List.all_append]
    exact Bool.and_eq_true_iff.mpr ⟨before, blank⟩
  | @cons before field line _ beforeBlank isField ends _ ih =>
    rw [List.append_assoc, List.append_assoc]
    refine .cons beforeBlank isField ?_ ih
    cases line with
    | nil =>
      cases gap with
      | nil => rfl
      | cons c gap => exact (allBlank_cons_iff.mp blank).1
    | cons c line => exact ends

/-- A carriage return at the end of a line makes no difference to its fields. -/
theorem fields_append_blank (line : List Char) (blank : allBlank gap = true) : fields (line ++ gap) = fields line :=
  fields_of_spaced ((spaced_fields line).append_blank blank)

/-- A character that ends no line is the first of its line. -/
theorem lines_cons {first : List Char} {later : List (List Char)} (notFeed : c ≠ '\n')
    (notEnd : c = '\r' → text.head? ≠ some '\n') (cut : lines text = first :: later) :
    lines (c :: text) = (c :: first) :: later := by
  unfold lines
  split
  · rename_i none
    cases none
  · rename_i same
    obtain ⟨rfl, rfl⟩ := List.cons.inj same
    exact absurd rfl (notEnd rfl)
  · rename_i same
    exact absurd (List.cons.inj same).1 notFeed
  · rename_i same
    obtain ⟨rfl, rfl⟩ := List.cons.inj same
    rw [cut]

/-- A line feed ends the line before it, to which a carriage return right before the line feed need not belong. -/
theorem exists_lines_append (within : '\n' ∉ line) (rest : List Char) :
    ∃ first, lines (line ++ '\n' :: rest) = first :: lines rest ∧ (line = first ∨ line = first ++ ['\r']) := by
  induction line with
  | nil => exact ⟨[], by simp [lines], .inl rfl⟩
  | cons c line ih =>
    obtain ⟨notFeed, later⟩ := not_or.mp (List.mem_cons.not.mp within)
    obtain ⟨first, cut, ends⟩ := ih later
    by_cases return_ : c = '\r' ∧ line = []
    · obtain ⟨rfl, rfl⟩ := return_
      exact ⟨[], by simp [lines], .inr rfl⟩
    · refine ⟨c :: first, lines_cons (Ne.symm notFeed) (fun isReturn => ?_) cut, ?_⟩
      · cases line with
        | nil => exact absurd ⟨isReturn, rfl⟩ return_
        | cons d line => exact fun same => later (Option.some.inj same ▸ List.mem_cons_self ..)
      · exact ends.imp (congrArg (c :: ·)) (congrArg (c :: ·))

/-- The end of a line makes no difference to its fields. -/
theorem exists_lines_eq_cons (within : '\n' ∉ line) {ending : List Char}
    (ends : ending = ['\n'] ∨ ending = ['\r', '\n']) (rest : List Char) :
    ∃ first, lines (line ++ (ending ++ rest)) = first :: lines rest ∧ fields first = fields line := by
  have cutOff {longer first : List Char} (kept : longer = first ∨ longer = first ++ ['\r']) :
      fields first = fields longer := by
    rcases kept with rfl | rfl
    · rfl
    · exact (fields_append_blank first (by decide)).symm
  rcases ends with rfl | rfl
  · obtain ⟨first, cut, kept⟩ := exists_lines_append within rest
    exact ⟨first, cut, cutOff kept⟩
  · have longer : '\n' ∉ line ++ ['\r'] := by simpa using within
    obtain ⟨first, cut, kept⟩ := exists_lines_append longer rest
    rw [List.append_assoc] at cut
    exact ⟨first, cut, (cutOff kept).trans (fields_append_blank line (by decide))⟩

theorem eq_nil_of_lines (none : lines text = []) : text = [] := by
  fun_induction lines text with
  | case1 => rfl
  | case2 rest ih => cases none
  | case3 rest ih => cases none
  | case4 c rest _ _ cut ih => cases none
  | case5 c rest _ _ first later cut ih => cases none

/-- A text without line feeds is a single line, unless it is empty. -/
theorem lines_of_not_mem (within : '\n' ∉ line) (inhabited : line ≠ []) : lines line = [line] := by
  induction line with
  | nil => exact absurd rfl inhabited
  | cons c rest ih =>
    obtain ⟨notFeed, later⟩ := not_or.mp (List.mem_cons.not.mp within)
    cases rest with
    | nil => simp [lines, Ne.symm notFeed]
    | cons d rest =>
      refine lines_cons (Ne.symm notFeed) (fun _ same => ?_) (ih later (List.cons_ne_nil d rest))
      exact later (Option.some.inj same ▸ List.mem_cons_self ..)

/-- Every text is made of its lines. -/
theorem lined_lines (text : List Char) : Lined (lines text) text := by
  fun_induction lines text with
  | case1 => exact .nil
  | case2 rest ih => exact @Lined.cons [] _ _ _ List.not_mem_nil (.inr rfl) ih
  | case3 rest ih => exact @Lined.cons [] _ _ _ List.not_mem_nil (.inl rfl) ih
  | case4 c rest notEnd notFeed cut ih =>
    obtain rfl := eq_nil_of_lines cut
    exact .last (List.mem_singleton.not.mpr fun same => notFeed same.symm)
  | case5 c rest notEnd notFeed first later cut ih =>
    have notIn {line : List Char} (within : '\n' ∉ line) : '\n' ∉ c :: line := fun member =>
      (List.mem_cons.mp member).elim (fun same => notFeed same.symm) within
    rw [cut] at ih
    cases ih with
    | last within => exact .last (notIn within)
    | cons within ends below => exact @Lined.cons (c :: first) _ _ _ (notIn within) ends below

/-- The fields of the lines of a text are those of the lines that it is made of, apart from blank lines. -/
theorem Lined.filter_fields {all : List (List Char)} (lined : Lined all text) :
    ((lines text).map fields).filter (· ≠ []) = (all.map fields).filter (· ≠ []) := by
  induction lined with
  | nil => rfl
  | @last line within =>
    cases line with
    | nil => rfl
    | cons c line => rw [lines_of_not_mem within (List.cons_ne_nil c line)]
  | @cons line ending text lines within ends _ ih =>
    obtain ⟨first, cut, same⟩ := exists_lines_eq_cons within ends text
    rw [cut, List.map_cons, List.map_cons, same, List.filter_cons, List.filter_cons, ih]

theorem LaidOut.filter_fields {content : List (List (List Char))} (laidOut : LaidOut content text) :
    ((lines text).map fields).filter (· ≠ []) = content := by
  obtain ⟨all, rows, rfl, spaced, lined⟩ := laidOut
  have same : rows.map fields = all := by
    rw [← List.forall₂_eq_eq_eq, List.forall₂_map_left_iff]
    exact spaced.flip.imp fun _ _ here => fields_of_spaced here
  rw [lined.filter_fields, same]

/-- Every text is a layout of its fields. -/
theorem laidOut_fields (text : List Char) : LaidOut (((lines text).map fields).filter (· ≠ [])) text := by
  refine ⟨_, lines text, rfl, ?_, lined_lines text⟩
  rw [List.forall₂_map_left_iff]
  exact List.forall₂_same.mpr fun line _ => spaced_fields line

/-- What is laid out in a text is what cutting it gives. -/
theorem laidOut_iff {content : List (List (List Char))} :
    LaidOut content text ↔ ((lines text).map fields).filter (· ≠ []) = content := by
  constructor
  · exact LaidOut.filter_fields
  · rintro rfl
    exact laidOut_fields text

instance (content : List (List (List Char))) (text : List Char) : Decidable (LaidOut content text) :=
  decidable_of_iff' _ laidOut_iff

end PatternAutomata.Text
