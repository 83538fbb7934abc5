import PatternAutomata.Pattern.Grammar

/-! # Words of repeated trees

A tree under a quantifier stands for words of the tree side by side: at least one under a plus
(`denotes_plus_iff`), any number under a star, where one may also be left out
(`denotes_star_iff`). A repeated symbol stands for the words that have no other symbol.
-/

namespace PatternAutomata.Pattern

def Tree.quantified (tree : Tree) : Option Quantifier → Tree
  | none => tree
  | some quantifier => .repeated tree quantifier

/-- One or more words of a language side by side. -/
inductive Iterated (language : List Symbol → Prop) : List Symbol → Prop
  | once {u : List Symbol} (word : language u) : Iterated language u
  | again {u v : List Symbol} (word : language u) (rest : Iterated language v) : Iterated language (u ++ v)

theorem denotes_plus_iff {tree : Tree} {word : List Symbol} :
    (Tree.repeated tree .plus).Denotes word ↔ Iterated tree.Denotes word := by
  constructor
  · intro denotes
    generalize shape : Tree.repeated tree .plus = whole at denotes
    induction denotes with
    | once first _ => cases shape; exact .once first
    | again first _ _ ih => cases shape; exact .again first (ih rfl)
    | _ => cases shape
  · intro iterated
    induction iterated with
    | once first => exact .once first
    | again first _ ih => exact .again first ih

theorem denotes_star_iff {tree : Tree} {word : List Symbol} :
    (Tree.repeated tree .star).Denotes word ↔ Iterated (fun u => u = [] ∨ tree.Denotes u) word := by
  constructor
  · intro denotes
    generalize shape : Tree.repeated tree .star = whole at denotes
    induction denotes with
    | never => exact .once (.inl rfl)
    | once first _ => cases shape; exact .once (.inr first)
    | again first _ _ ih => cases shape; exact .again (.inr first) (ih rfl)
    | _ => cases shape
  · intro iterated
    induction iterated with
    | once first =>
      rcases first with rfl | denotes
      · exact .never
      · exact .once denotes
    | again first _ ih =>
      rcases first with rfl | denotes
      · exact ih
      · exact .again denotes ih

/-- A symbol under a star stands for the words without another symbol. -/
theorem denotes_star_symbol_iff {c : Symbol} {word : List Symbol} :
    (Tree.repeated (.symbol c) .star).Denotes word ↔ ∀ x ∈ word, x = c := by
  constructor
  · rw [denotes_star_iff]
    intro iterated
    have first {u : List Symbol} (word : u = [] ∨ (Tree.symbol c).Denotes u) : ∀ x ∈ u, x = c := by
      rcases word with rfl | denotes
      · simp
      · simp [Tree.denotes_symbol_iff.mp denotes]
    induction iterated with
    | once word => exact first word
    | again word _ ih =>
      intro x member
      exact (List.mem_append.mp member).elim (first word x) (ih x)
  · intro same
    induction word with
    | nil => exact .never
    | cons x rest ih =>
      obtain rfl := same x (List.mem_cons_self ..)
      exact .again (.symbol x) (ih fun y member => same y (List.mem_cons_of_mem _ member))

/-- A symbol under a plus stands for the words with this symbol and no other. -/
theorem denotes_plus_symbol_iff {c : Symbol} {word : List Symbol} :
    (Tree.repeated (.symbol c) .plus).Denotes word ↔ ∃ rest, word = c :: rest ∧ ∀ x ∈ rest, x = c := by
  constructor
  · rw [denotes_plus_iff]
    intro iterated
    induction iterated with
    | once word => exact ⟨[], Tree.denotes_symbol_iff.mp word, by simp⟩
    | again word _ ih =>
      obtain ⟨rest, rfl, same⟩ := ih
      obtain rfl := Tree.denotes_symbol_iff.mp word
      exact ⟨c :: rest, rfl, by simpa using same⟩
  · rintro ⟨rest, rfl, same⟩
    induction rest with
    | nil => exact .once (.symbol c)
    | cons x rest ih =>
      obtain rfl := same x (List.mem_cons_self ..)
      exact .again (.symbol x) (ih fun y member => same y (List.mem_cons_of_mem _ member))

end PatternAutomata.Pattern
