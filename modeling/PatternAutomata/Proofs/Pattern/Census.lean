import PatternAutomata.Pattern.Census
import PatternAutomata.Proofs.Pattern.Growth
import PatternAutomata.Proofs.Pattern.Offences

/-! # Counting the characters of a pattern

A text that goes on has the symbols, groups and outer bars of both of its parts, where a bar of the second part is
outer if it is at the level that the first part leaves off at (`hasOuterBar_append_iff`). What a pattern consists of
accounts for no more characters than it has (`length_plainSymbols_add_le`).
-/

namespace PatternAutomata.Pattern

variable {front rest text : List Char} {c : Char}

/-- What a text consists of accounts for no more characters than it has. -/
theorem length_plainSymbols_add_le (text : List Char) :
    (plainSymbols text).length + groupCount text + text.count ')' + text.count '|' ≤ text.length := by
  induction text with
  | nil => exact Nat.le_refl _
  | cons c rest ih =>
    have here : (plainSymbols [c]).length + groupCount [c] + [c].count ')' + [c].count '|' ≤ 1 := by
      by_cases plain : IsPlain c
      · obtain ⟨notOpen, notClose, notBar, -⟩ := id plain
        simp [plainSymbols, groupCount, plain, notOpen, notClose, notBar]
      · have noSymbol : plainSymbols [c] = [] := by simp [plainSymbols, plain]
        by_cases opens : c = '('
        · subst opens
          decide
        · by_cases closes : c = ')'
          · subst closes
            decide
          · have once : [c].count '|' ≤ [c].length := List.count_le_length
            simpa [noSymbol, groupCount, opens, closes] using once
    rw [← List.singleton_append, plainSymbols_append, groupCount_append, List.count_append, List.count_append,
      List.length_append, List.length_append, List.length_singleton]
    omega

/-- Whether a bar of a longer text stands outside all groups depends on the level where it begins to be longer. -/
theorem hasOuterBar_append_iff : HasOuterBar (front ++ rest) ↔
    HasOuterBar front ∨ ∃ position < rest.length, rest[position]? = some '|' ∧
      level front + depth rest position = 0 := by
  have later (position : Nat) :
      depth (front ++ rest) (front.length + position) = level front + depth rest position := by
    rw [depth, List.take_length_add_append, level_append, depth]
  constructor
  · rintro ⟨position, inside, bar, outside⟩
    rcases Nat.lt_or_ge position front.length with before | after
    · rw [List.getElem?_append_left before] at bar
      rw [depth_append_of_le (Nat.le_of_lt before)] at outside
      exact .inl ⟨position, before, bar, outside⟩
    · obtain ⟨further, rfl⟩ := Nat.exists_eq_add_of_le after
      rw [List.length_append] at inside
      rw [List.getElem?_append_right after, Nat.add_sub_cancel_left] at bar
      exact .inr ⟨further, Nat.lt_of_add_lt_add_left inside, bar, later further ▸ outside⟩
  · rintro (⟨position, inside, bar, outside⟩ | ⟨position, inside, bar, outside⟩)
    · refine ⟨position, ?_, ?_, ?_⟩
      · rw [List.length_append]
        omega
      · rw [List.getElem?_append_left inside, bar]
      · rw [depth_append_of_le (Nat.le_of_lt inside), outside]
    · refine ⟨front.length + position, ?_, ?_, (later position).trans outside⟩
      · rw [List.length_append]
        omega
      · rw [List.getElem?_append_right (Nat.le_add_right _ _), Nat.add_sub_cancel_left, bar]

theorem HasOuterBar.count_pos (outer : HasOuterBar text) : 0 < text.count '|' := by
  obtain ⟨position, -, bar, -⟩ := outer
  exact List.count_pos_iff.mpr (List.mem_of_getElem? bar)

theorem hasOuterBar_append_of_not_mem (none : '|' ∉ rest) : HasOuterBar (front ++ rest) ↔ HasOuterBar front := by
  refine hasOuterBar_append_iff.trans (or_iff_left ?_)
  rintro ⟨position, -, bar, -⟩
  exact none (List.mem_of_getElem? bar)

theorem hasOuterBar_append_bar : HasOuterBar (front ++ ['|']) ↔ HasOuterBar front ∨ level front = 0 := by
  refine hasOuterBar_append_iff.trans (or_congr_right ?_)
  constructor
  · rintro ⟨position, inside, -, outside⟩
    obtain rfl : position = 0 := Nat.lt_one_iff.mp inside
    simpa [depth, level] using outside
  · intro outside
    exact ⟨0, Nat.zero_lt_one, rfl, by simpa [depth, level] using outside⟩

/-- Of the characters of a token the symbol stands for itself. -/
theorem plainSymbols_text {token : Token} (plain : ∀ x ∈ token.symbol?, IsPlain x) :
    plainSymbols token.text = token.symbol?.toList := by
  have nothing (quantifier : Option Quantifier) : plainSymbols (quantifierText quantifier) = [] := by
    rcases quantifier with _ | _ | _ <;> decide
  cases token with
  | symbol x quantifier =>
    have isPlain := plain x rfl
    rw [Token.text, ← List.singleton_append, plainSymbols_append, nothing]
    simp [plainSymbols, isPlain, Token.symbol?]
  | opening | bar => rfl
  | closing quantifier =>
    rw [Token.text, ← List.singleton_append, plainSymbols_append, nothing]
    rfl
  | stray quantifier => cases quantifier <;> rfl

theorem count_quantifierText (notStar : c ≠ '*') (notPlus : c ≠ '+') (quantifier : Option Quantifier) :
    (quantifierText quantifier).count c = 0 := by
  rw [List.count_eq_zero]
  rcases quantifier with _ | _ | _
  · exact List.not_mem_nil
  · exact List.mem_singleton.not.mpr notStar
  · exact List.mem_singleton.not.mpr notPlus

/-- A quantifier after a character changes neither the level nor the number of groups, and adds no bar. -/
theorem counts_cons_quantifierText (c : Char) (quantifier : Option Quantifier) :
    level (c :: quantifierText quantifier) = level [c] ∧
      groupCount (c :: quantifierText quantifier) = groupCount [c] ∧
      ('|' ∈ c :: quantifierText quantifier ↔ c = '|') := by
  have opens := count_quantifierText (c := '(') (by decide) (by decide) quantifier
  have closes := count_quantifierText (c := ')') (by decide) (by decide) quantifier
  have noBar := List.count_eq_zero.mp (count_quantifierText (c := '|') (by decide) (by decide) quantifier)
  rw [← List.singleton_append]
  refine ⟨?_, ?_, ?_⟩
  · simp only [level, List.count_append, opens, closes, Nat.add_zero]
  · rw [groupCount_append, groupCount, groupCount, opens, Nat.add_zero]
  · simp [noBar, eq_comm]

end PatternAutomata.Pattern
