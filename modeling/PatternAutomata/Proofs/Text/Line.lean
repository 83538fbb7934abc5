import Mathlib.Data.List.Basic
import PatternAutomata.Description.Spelling

/-! # Lines and fields of written texts

A field has no blank characters and is not empty, whatever line it is cut from. Fields that are written
side by side on a line are the fields of the line again (`fields_intercalate`), and lines of fields that
are written below one another are the lines of the text again (`lines_flatMap_writeLine`).
-/

namespace PatternAutomata.Text

theorem isField_singleton {c : Char} (visible : isBlank c = false) : IsField [c] where
  inhabited := List.cons_ne_nil c []
  visible _ member := List.mem_singleton.mp member ▸ visible

/-- Lines are cut into fields. -/
theorem isField_of_mem_fields {line field : List Char} (member : field ∈ fields line) : IsField field := by
  fun_induction fields line generalizing field with
  | case1 => simp at member
  | case2 c rest blank ih => exact ih member
  | case3 c rest visible ends ih =>
    rcases List.mem_cons.mp member with rfl | later
    · exact isField_singleton (Bool.eq_false_iff.mpr visible)
    · exact ih later
  | case4 c rest visible goesOn none ih =>
    obtain rfl := List.mem_singleton.mp member
    exact isField_singleton (Bool.eq_false_iff.mpr visible)
  | case5 c rest visible goesOn first later cut ih =>
    rcases List.mem_cons.mp member with rfl | elsewhere
    · refine ⟨List.cons_ne_nil c first, fun other otherMember => ?_⟩
      rcases List.mem_cons.mp otherMember with rfl | inFirst
      · exact Bool.eq_false_iff.mpr visible
      · exact (ih (cut ▸ List.mem_cons_self ..)).visible other inFirst
    · exact ih (cut ▸ List.mem_cons_of_mem _ elsewhere)

/-- A field ends where a blank character follows. -/
theorem fields_append {field rest : List Char} (isField : IsField field)
    (ends : rest.head?.all isBlank = true) :
    fields (field ++ rest) = field :: fields rest := by
  obtain ⟨inhabited, visible⟩ := isField
  induction field with
  | nil => exact absurd rfl inhabited
  | cons c field ih =>
    have first := visible c (List.mem_cons_self ..)
    cases field with
    | nil => simp [fields, first, ends]
    | cons d field =>
      have second := visible d (by simp)
      have tail := ih (List.cons_ne_nil d field) fun other member =>
        visible other (List.mem_cons_of_mem _ member)
      rw [List.cons_append] at tail
      rw [List.cons_append, List.cons_append, fields]
      simp only [first, Bool.false_eq_true, ↓reduceIte, List.head?_cons, Option.all_some, second, tail]

theorem intercalate_cons_cons (first second : List Char) (rest : List (List Char)) :
    [' '].intercalate (first :: second :: rest) = first ++ ' ' :: [' '].intercalate (second :: rest) := by
  simp [List.intercalate_cons_cons]

/-- Fields that are separated by single spaces are read back. -/
theorem fields_intercalate {items : List (List Char)} (all : ∀ field ∈ items, IsField field) :
    fields ([' '].intercalate items) = items := by
  induction items with
  | nil => rfl
  | cons first rest ih =>
    have isField := all first (List.mem_cons_self ..)
    have later := ih fun field member => all field (List.mem_cons_of_mem _ member)
    cases rest with
    | nil =>
      have alone : fields (first ++ []) = first :: fields [] := fields_append isField rfl
      simpa [fields] using alone
    | cons second rest =>
      rw [intercalate_cons_cons, fields_append isField (by rfl), fields, if_pos (by rfl), later]

theorem mem_intercalate {items : List (List Char)} {c : Char} (member : c ∈ [' '].intercalate items) :
    c = ' ' ∨ ∃ field ∈ items, c ∈ field := by
  induction items with
  | nil => simp at member
  | cons first rest ih =>
    cases rest with
    | nil => exact .inr ⟨first, List.mem_cons_self .., by simpa using member⟩
    | cons second rest =>
      rw [intercalate_cons_cons, List.mem_append, List.mem_cons] at member
      rcases member with here | rfl | later
      · exact .inr ⟨first, List.mem_cons_self .., here⟩
      · exact .inl rfl
      · exact (ih later).imp_right fun ⟨field, fieldMember, inField⟩ =>
          ⟨field, List.mem_cons_of_mem _ fieldMember, inField⟩

theorem lines_append {line rest : List Char} (plain : ∀ c ∈ line, c ≠ '\n' ∧ c ≠ '\r') :
    lines (line ++ '\n' :: rest) = line :: lines rest := by
  induction line with
  | nil => simp [lines]
  | cons c line ih =>
    obtain ⟨notFeed, notReturn⟩ := plain c (List.mem_cons_self ..)
    have later := ih fun other member => plain other (List.mem_cons_of_mem _ member)
    rw [List.cons_append]
    simp [lines, notReturn, later]

/-- Characters that end no line stand in front of the first line. -/
theorem lines_append_of_cons {front text first : List Char} {later : List (List Char)}
    (plain : ∀ c ∈ front, c ≠ '\n' ∧ c ≠ '\r') (cut : lines text = first :: later) :
    lines (front ++ text) = (front ++ first) :: later := by
  induction front with
  | nil => exact cut
  | cons c front ih =>
    obtain ⟨notFeed, notReturn⟩ := plain c (List.mem_cons_self ..)
    have tail := ih fun other member => plain other (List.mem_cons_of_mem _ member)
    rw [List.cons_append]
    simp [lines, notReturn, tail]

theorem exists_lines_cons_space (rest : List Char) :
    ∃ line later, lines (' ' :: rest) = (' ' :: line) :: later := by
  cases cut : lines rest with
  | nil => exact ⟨[], [], by simp [lines, cut]⟩
  | cons line later => exact ⟨line, later, by simp [lines, cut]⟩

/-- Cutting into lines leaves out characters, and adds none. -/
theorem mem_of_mem_lines {text line : List Char} (member : line ∈ lines text) {c : Char} (inLine : c ∈ line) :
    c ∈ text := by
  fun_induction lines text generalizing line with
  | case1 => cases member
  | case2 rest ih =>
    rcases List.mem_cons.mp member with rfl | later
    · cases inLine
    · exact List.mem_cons_of_mem _ (List.mem_cons_of_mem _ (ih later inLine))
  | case3 rest ih =>
    rcases List.mem_cons.mp member with rfl | later
    · cases inLine
    · exact List.mem_cons_of_mem _ (ih later inLine)
  | case4 d rest _ _ none ih =>
    obtain rfl := List.mem_singleton.mp member
    obtain rfl := List.mem_singleton.mp inLine
    exact List.mem_cons_self ..
  | case5 d rest _ _ first later cut ih =>
    rcases List.mem_cons.mp member with rfl | elsewhere
    · rcases List.mem_cons.mp inLine with rfl | inFirst
      · exact List.mem_cons_self ..
      · exact List.mem_cons_of_mem _ (ih (cut ▸ List.mem_cons_self ..) inFirst)
    · exact List.mem_cons_of_mem _ (ih (cut ▸ List.mem_cons_of_mem _ elsewhere) inLine)

theorem IsField.plain {field : List Char} (isField : IsField field) {c : Char} (member : c ∈ field) :
    c ≠ '\n' ∧ c ≠ '\r' := by
  have visible := isField.visible c member
  constructor
  · rintro rfl
    exact absurd visible (by decide)
  · rintro rfl
    exact absurd visible (by decide)

/-- Lines that are written one after another are read back. -/
theorem lines_flatMap_writeLine {items : List (List (List Char))}
    (all : ∀ line ∈ items, ∀ field ∈ line, IsField field) :
    lines (items.flatMap writeLine) = items.map ([' '].intercalate ·) := by
  induction items with
  | nil => rfl
  | cons first rest ih =>
    have plain (c : Char) (member : c ∈ [' '].intercalate first) : c ≠ '\n' ∧ c ≠ '\r' := by
      rcases mem_intercalate member with rfl | ⟨field, fieldMember, inField⟩
      · decide
      · exact (all first (List.mem_cons_self ..) field fieldMember).plain inField
    rw [List.flatMap_cons, writeLine, List.append_assoc, List.singleton_append, lines_append plain,
      ih fun line member => all line (List.mem_cons_of_mem _ member), List.map_cons]

end PatternAutomata.Text
