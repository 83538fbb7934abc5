import Mathlib.Order.Bounds.Defs
import Mathlib.Tactic.MkIffOfInductiveProp
import PatternAutomata.Pattern.Census
import PatternAutomata.Proofs.Pattern.Spelling

/-! # Offences and open groups, character by character

Whether a position offends depends on what is before it alone, so a text that is read from the left
stays clean as long as no character offends at its end (`Clean.snoc`). Its unclosed parentheses form a
stack: an opening parenthesis adds its position, a closing one removes the last, and nothing else
changes them (`OpenAt`). In a clean text the stack has all of them (`OpenAt.mem_iff`).
-/

namespace PatternAutomata.Pattern

variable {text front rest : List Char} {c : Char} {position : Nat} {cause : PatternError}

theorem level_append (front rest : List Char) : level (front ++ rest) = level front + level rest := by
  simp only [level, List.count_append]
  omega

theorem level_other (notOpening : c ≠ '(') (notClosing : c ≠ ')') : level [c] = 0 := by
  simp [level, notOpening, notClosing]

theorem depth_append_of_le (before : position ≤ front.length) :
    depth (front ++ rest) position = depth front position := by
  rw [depth, List.take_append_of_le_length before, depth]

theorem depth_append_length : depth (front ++ rest) front.length = level front := by
  rw [depth, List.take_left]

theorem depth_length : depth text text.length = level text := by
  rw [depth, List.take_length]

attribute [mk_iff] Offence

/-- A quantifier after the text would have nothing to apply to. -/
def Loose (text : List Char) : Prop := ∀ before, text.getLast? = some before → isQuantifiable before = false

theorem isQuantifiable_eq_false_iff : isQuantifiable c = false ↔ c ∈ ['(', '|', '*', '+'] := by
  simp only [isQuantifiable, Bool.and_eq_false_iff, bne_eq_false_iff_eq, Option.isNone_eq_false_iff,
    Option.isSome_iff_exists, Quantifier.ofChar?_eq_some_iff, List.mem_cons, List.not_mem_nil, or_false]
  constructor
  · rintro ((opens | bar) | ⟨quantifier, rfl⟩)
    · exact .inl opens
    · exact .inr (.inl bar)
    · cases quantifier with
      | star => exact .inr (.inr (.inl rfl))
      | plus => exact .inr (.inr (.inr rfl))
  · rintro (opens | bar | star | plus)
    · exact .inl (.inl opens)
    · exact .inl (.inr bar)
    · exact .inr ⟨.star, star⟩
    · exact .inr ⟨.plus, plus⟩

namespace Offence

theorem lt (offence : Offence text position cause) : position < text.length := by
  cases offence with
  | close here _ => exact (List.getElem?_eq_some_iff.mp here).1
  | stray here _ => exact (List.getElem?_eq_some_iff.mp here).1

theorem unique {other : PatternError} (offence : Offence text position cause)
    (again : Offence text position other) : cause = other := by
  rw [offence_iff] at offence again
  rcases offence with ⟨here, -, rfl⟩ | ⟨quantifier, here, -, rfl⟩ <;>
    rcases again with ⟨same, -, rfl⟩ | ⟨another, same, -, rfl⟩ <;>
    have same := Option.some.inj (here.symm.trans same)
  · rfl
  · cases another <;> cases same
  · cases quantifier <;> cases same
  · cases quantifier <;> cases another <;> first | rfl | cases same

/-- What follows a position does not matter for it. -/
theorem append_iff (inside : position < front.length) :
    Offence (front ++ rest) position cause ↔ Offence front position cause := by
  have before : position - 1 < front.length := by omega
  rw [offence_iff, offence_iff, List.getElem?_append_left inside, List.getElem?_append_left before,
    depth_append_of_le (Nat.le_of_lt inside)]

/-- A character offends at the end of a text if it closes what is not open, or if it is a quantifier
with nothing to apply to. -/
theorem length_iff :
    Offence (front ++ c :: rest) front.length cause ↔
      (c = ')' ∧ level front = 0 ∧ cause = .unmatchedClose front.length) ∨
      ∃ quantifier, c = quantifier.toChar ∧ Loose front ∧ cause = .strayQuantifier quantifier front.length := by
  have here : (front ++ c :: rest)[front.length]? = some c := by simp
  have loose : (front.length = 0 ∨ ∃ before ∈ ['(', '|', '*', '+'],
      (front ++ c :: rest)[front.length - 1]? = some before) ↔ Loose front := by
    rcases List.eq_nil_or_concat front with rfl | ⟨init, last, rfl⟩
    · simp [Loose]
    · simp [Loose, isQuantifiable_eq_false_iff]
  rw [offence_iff, here, depth_append_length, loose]
  simp only [Option.some.injEq]

end Offence

/-- Another character keeps a text clean if it closes only what is open, and if a quantifier has
something to apply to. -/
theorem Clean.snoc (clean : Clean front) (closes : c = ')' → level front ≠ 0)
    (applies : ∀ quantifier : Quantifier, c = quantifier.toChar → ¬ Loose front) : Clean (front ++ [c]) := by
  intro position cause offence
  have inside := offence.lt
  rw [List.length_append, List.length_singleton] at inside
  rcases Nat.lt_succ_iff_lt_or_eq.mp inside with before | rfl
  · exact clean position cause ((Offence.append_iff before).mp offence)
  · rcases Offence.length_iff.mp offence with ⟨isClose, nothingOpen, -⟩ | ⟨quantifier, isQuantifier, loose, -⟩
    · exact closes isClose nothingOpen
    · exact applies quantifier isQuantifier loose

theorem Clean.quantifiable (clean : Clean front) (quantifiable : isQuantifiable c = true)
    (closes : c = ')' → level front ≠ 0) (quantifier : Option Quantifier) :
    Clean (front ++ c :: quantifierText quantifier) := by
  have notLoose : ¬ Loose (front ++ [c]) := by
    intro loose
    simp [loose c List.getLast?_concat] at quantifiable
  have first : Clean (front ++ [c]) := by
    apply clean.snoc closes
    rintro other rfl
    cases other <;> cases quantifiable
  cases quantifier with
  | none => exact first
  | some quantifier =>
    have second : Clean (front ++ [c] ++ [quantifier.toChar]) := by
      apply first.snoc
      · cases quantifier <;> nofun
      · exact fun _ _ => notLoose
    rwa [List.append_assoc] at second

/-- In a clean text no more parentheses are closed than opened. -/
theorem Clean.depth_nonneg (clean : Clean text) (position : Nat) : 0 ≤ depth text position := by
  induction position with
  | zero => exact Int.le_refl 0
  | succ position ih =>
    rcases Nat.lt_or_ge position text.length with inside | outside
    · have longer : depth text (position + 1) = depth text position + level [text[position]] := by
        rw [depth, List.take_succ_eq_append_getElem inside, level_append, depth]
      rw [longer]
      by_cases closes : text[position] = ')'
      · have isOpen : depth text position ≠ 0 := fun nothingOpen =>
          clean position _ (.close (List.getElem?_eq_some_iff.mpr ⟨inside, closes⟩) nothingOpen)
        rw [closes]
        change 0 ≤ depth text position + -1
        omega
      · by_cases opens : text[position] = '('
        · rw [opens]
          change 0 ≤ depth text position + 1
          omega
        · rw [level_other opens closes]
          omega
    · rw [depth, List.take_of_length_le (Nat.le_succ_of_le outside)]
      rwa [depth, List.take_of_length_le outside] at ih

namespace Unclosed

variable {other : Nat}

theorem depth_lt (unclosed : Unclosed text position) (later : Unclosed text other) (before : position < other) :
    depth text position < depth text other :=
  unclosed.2 other before (Nat.le_of_lt (List.getElem?_eq_some_iff.mp later.1).1)

theorem eq_of_depth_eq (unclosed : Unclosed text position) (again : Unclosed text other)
    (same : depth text position = depth text other) : position = other := by
  rcases Nat.lt_trichotomy position other with before | equal | after
  · exact absurd same (Int.ne_of_lt (unclosed.depth_lt again before))
  · exact equal
  · exact absurd same (Int.ne_of_gt (again.depth_lt unclosed after))

theorem lt_of_depth_lt (unclosed : Unclosed text position) (deeper : Unclosed text other)
    (less : depth text position < depth text other) : position < other := by
  rcases Nat.lt_trichotomy position other with before | rfl | after
  · exact before
  · exact absurd less (Int.lt_irrefl _)
  · exact absurd less (Int.lt_asymm (deeper.depth_lt unclosed after))

end Unclosed

/-- The unclosed parentheses of a text, the last in front. -/
structure OpenAt (text : List Char) (opened : List Nat) : Prop where
  level : level text = opened.length
  unclosed : ∀ position outer, position :: outer <:+ opened →
    Unclosed text position ∧ depth text position = outer.length

namespace OpenAt

variable {opened kept outer : List Nat}

/-- Parentheses stay unclosed as long as a text has no lower level than there are of them. -/
theorem unclosed_snoc (here : OpenAt front opened) (suffix : kept <:+ opened)
    (above : kept.length ≤ Pattern.level (front ++ [c])) (position : Nat) (outer : List Nat)
    (inner : position :: outer <:+ kept) :
    Unclosed (front ++ [c]) position ∧ depth (front ++ [c]) position = outer.length := by
  obtain ⟨⟨opens, stays⟩, atDepth⟩ := here.unclosed position outer (inner.trans suffix)
  have inside : position < front.length := (List.getElem?_eq_some_iff.mp opens).1
  have fewer : outer.length < kept.length := inner.length_le
  have sameDepth : depth (front ++ [c]) position = depth front position :=
    depth_append_of_le (Nat.le_of_lt inside)
  refine ⟨⟨by rwa [List.getElem?_append_left inside], fun later after within => ?_⟩, sameDepth.trans atDepth⟩
  rw [List.length_append, List.length_singleton] at within
  -- the end of the longer text is the only place that is new, and its depth there is its level
  rcases Nat.lt_or_eq_of_le within with before | rfl
  · rw [sameDepth, depth_append_of_le (Nat.le_of_lt_succ before)]
    exact stays later after (Nat.le_of_lt_succ before)
  · have whole : depth (front ++ [c]) (front.length + 1) = Pattern.level (front ++ [c]) := by
      rw [← depth_length, List.length_append, List.length_singleton]
    omega

theorem opening (here : OpenAt front opened) : OpenAt (front ++ ['(']) (front.length :: opened) := by
  have higher : Pattern.level (front ++ ['(']) = opened.length + 1 := by
    rw [level_append, here.level]
    rfl
  refine ⟨by rw [higher, List.length_cons, Int.natCast_succ], fun position outer inner => ?_⟩
  rcases List.suffix_cons_iff.mp inner with same | earlier
  · obtain ⟨rfl, rfl⟩ := List.cons.inj same
    have atDepth : depth (front ++ ['(']) front.length = outer.length := depth_append_length.trans here.level
    refine ⟨⟨List.getElem?_concat_length, fun later after within => ?_⟩, atDepth⟩
    obtain rfl : later = (front ++ ['(']).length := by
      rw [List.length_append, List.length_singleton] at within ⊢
      omega
    rw [depth_length, atDepth, higher]
    omega
  · exact here.unclosed_snoc List.suffix_rfl (by omega) position outer earlier

theorem closing (here : OpenAt front (position :: outer)) : OpenAt (front ++ [')']) outer := by
  have lower : Pattern.level (front ++ [')']) = outer.length := by
    rw [level_append, here.level, List.length_cons, Int.natCast_succ]
    exact Int.add_neg_cancel_right _ 1
  exact ⟨lower, here.unclosed_snoc (List.suffix_cons position outer) (Int.le_of_eq lower.symm)⟩

theorem other (here : OpenAt front opened) (notOpening : c ≠ '(') (notClosing : c ≠ ')') :
    OpenAt (front ++ [c]) opened := by
  have same : Pattern.level (front ++ [c]) = opened.length := by
    rw [level_append, here.level, level_other notOpening notClosing, Int.add_zero]
  exact ⟨same, here.unclosed_snoc List.suffix_rfl (Int.le_of_eq same.symm)⟩

theorem quantifier (here : OpenAt front opened) (quantifier : Option Quantifier) :
    OpenAt (front ++ quantifierText quantifier) opened := by
  cases quantifier with
  | none =>
    rw [quantifierText, List.append_nil]
    exact here
  | some quantifier => cases quantifier <;> exact here.other (by decide) (by decide)

/-- The innermost open group is the one that the last unclosed parenthesis opens. -/
theorem isGreatest (here : OpenAt text (position :: outer)) :
    IsGreatest {position | Unclosed text position} position := by
  obtain ⟨⟨opens, stays⟩, atDepth⟩ := here.unclosed position outer List.suffix_rfl
  refine ⟨⟨opens, stays⟩, fun later unclosed => ?_⟩
  have inside : later < text.length := (List.getElem?_eq_some_iff.mp unclosed.1).1
  refine Nat.not_lt.mp fun after => ?_
  have deeper := stays later after (Nat.le_of_lt inside)
  have deepest := unclosed.2 text.length inside (Nat.le_refl _)
  rw [depth_length, here.level, List.length_cons, Int.natCast_succ] at deepest
  omega

/-- The open groups are listed from the last one on. -/
theorem pairwise (here : OpenAt text opened) (suffix : kept <:+ opened) : kept.Pairwise (· > ·) := by
  induction kept with
  | nil => exact .nil
  | cons position outer ih =>
    refine List.pairwise_cons.mpr ⟨fun earlier member => ?_, ih ((List.suffix_cons position outer).trans suffix)⟩
    obtain ⟨between, others, rfl⟩ := List.append_of_mem member
    have inner : earlier :: others <:+ opened :=
      ((List.suffix_append between _).trans (List.suffix_cons position _)).trans suffix
    obtain ⟨unclosed, atDepth⟩ := here.unclosed position _ suffix
    obtain ⟨earlierUnclosed, earlierDepth⟩ := here.unclosed earlier others inner
    refine earlierUnclosed.lt_of_depth_lt unclosed ?_
    rw [atDepth, earlierDepth, List.length_append, List.length_cons]
    omega

/-- Where no more is closed than opened, the open groups are those of all unclosed parentheses. -/
theorem mem_iff (here : OpenAt text opened) (nonneg : ∀ position, 0 ≤ depth text position) :
    position ∈ opened ↔ Unclosed text position := by
  constructor
  · intro member
    obtain ⟨between, outer, rfl⟩ := List.append_of_mem member
    exact (here.unclosed position outer (List.suffix_append between _)).1
  · intro unclosed
    have below : depth text position < opened.length := by
      have inside : position < text.length := (List.getElem?_eq_some_iff.mp unclosed.1).1
      rw [← here.level, ← depth_length]
      exact unclosed.2 text.length inside (Nat.le_refl _)
    obtain ⟨outside, same⟩ := Int.eq_ofNat_of_zero_le (nonneg position)
    -- the group with as many others around it is the one that the parenthesis opens
    have inside : opened.length - 1 - outside < opened.length := by omega
    have suffix := List.drop_suffix (opened.length - 1 - outside) opened
    rw [List.drop_eq_getElem_cons inside] at suffix
    obtain ⟨itsUnclosed, itsDepth⟩ := here.unclosed _ _ suffix
    have sameDepth : depth text position = depth text opened[opened.length - 1 - outside] := by
      rw [itsDepth, same, List.length_drop]
      omega
    exact unclosed.eq_of_depth_eq itsUnclosed sameDepth ▸ List.getElem_mem inside

end OpenAt

end PatternAutomata.Pattern
