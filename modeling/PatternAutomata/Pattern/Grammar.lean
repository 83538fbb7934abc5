import PatternAutomata.Symbol

/-! # The grammar of patterns and what they denote

A pattern denotes a set of words. `Written` relates a text to the tree of its structure: items that
stand side by side form a sequence, bars separate the alternatives of the innermost group or of the
whole pattern, and a quantifier applies to the one symbol or group before it. `Tree.Denotes` says
which words a tree stands for. Neither mentions automata.
-/

namespace PatternAutomata.Pattern

inductive Tree
  /-- Nothing at all, which stands for the empty word. -/
  | nothing
  | symbol (symbol : Symbol)
  | sequence (first second : Tree)
  | choice (first second : Tree)
  | repeated (body : Tree) (quantifier : Quantifier)
deriving DecidableEq, Repr

inductive Tree.Denotes : Tree → List Symbol → Prop
  | nothing : Denotes .nothing []
  | symbol (c : Symbol) : Denotes (.symbol c) [c]
  | sequence {first second : Tree} {u v : List Symbol} (left : Denotes first u)
      (right : Denotes second v) : Denotes (.sequence first second) (u ++ v)
  | first {first second : Tree} {u : List Symbol} (left : Denotes first u) :
      Denotes (.choice first second) u
  | second {first second : Tree} {u : List Symbol} (right : Denotes second u) :
      Denotes (.choice first second) u
  | never {body : Tree} : Denotes (.repeated body .star) []
  | once {body : Tree} {quantifier : Quantifier} {u : List Symbol} (word : Denotes body u) :
      Denotes (.repeated body quantifier) u
  | again {body : Tree} {quantifier : Quantifier} {u v : List Symbol} (word : Denotes body u)
      (rest : Denotes (.repeated body quantifier) v) : Denotes (.repeated body quantifier) (u ++ v)

/-- A character that stands for itself. -/
def IsPlain (c : Char) : Prop := c ≠ '(' ∧ c ≠ ')' ∧ c ≠ '|' ∧ c ≠ '*' ∧ c ≠ '+'

instance (c : Char) : Decidable (IsPlain c) := by unfold IsPlain; infer_instance

/-- The parts of a pattern, from the inside out. -/
inductive Role
  /-- A symbol or a group. -/
  | atom
  /-- An atom that a quantifier may follow. -/
  | item
  /-- Items side by side. -/
  | alternative
  /-- Alternatives with bars between them. -/
  | whole
deriving DecidableEq, Repr

/-- A text that is a part of a pattern, and its structure. -/
inductive Written : Role → List Char → Tree → Prop
  | symbol {c : Char} (plain : IsPlain c) : Written .atom [c] (.symbol c)
  | group {text : List Char} {tree : Tree} (inner : Written .whole text tree) :
      Written .atom ('(' :: (text ++ [')'])) tree
  | once {text : List Char} {tree : Tree} (atom : Written .atom text tree) :
      Written .item text tree
  | repeated {text : List Char} {tree : Tree} (atom : Written .atom text tree)
      (quantifier : Quantifier) :
      Written .item (text ++ [quantifier.toChar]) (.repeated tree quantifier)
  | nothing : Written .alternative [] .nothing
  | sequence {front text : List Char} {first tree : Tree}
      (before : Written .alternative front first) (item : Written .item text tree) :
      Written .alternative (front ++ text) (.sequence first tree)
  | single {text : List Char} {tree : Tree} (alternative : Written .alternative text tree) :
      Written .whole text tree
  | choice {front text : List Char} {first tree : Tree} (before : Written .whole front first)
      (alternative : Written .alternative text tree) :
      Written .whole (front ++ '|' :: text) (.choice first tree)

/-- The words that a pattern stands for. -/
def Matches (pattern : String) (word : List Symbol) : Prop :=
  ∃ tree, Written .whole pattern.toList tree ∧ tree.Denotes word

/-- The word is a prefix of some word that the pattern stands for. -/
def Begins (pattern : String) (word : List Symbol) : Prop :=
  ∃ rest, Matches pattern (word ++ rest)

theorem Tree.denotes_nothing_iff {word : List Symbol} : Tree.nothing.Denotes word ↔ word = [] := by
  constructor
  · intro denotes
    cases denotes
    rfl
  · rintro rfl
    exact .nothing

theorem Tree.denotes_symbol_iff {c : Symbol} {word : List Symbol} :
    (Tree.symbol c).Denotes word ↔ word = [c] := by
  constructor
  · intro denotes
    cases denotes
    rfl
  · rintro rfl
    exact .symbol c

theorem Tree.denotes_sequence_iff {first second : Tree} {word : List Symbol} :
    (Tree.sequence first second).Denotes word ↔
      ∃ u v, word = u ++ v ∧ first.Denotes u ∧ second.Denotes v := by
  constructor
  · intro denotes
    cases denotes with
    | sequence left right => exact ⟨_, _, rfl, left, right⟩
  · rintro ⟨u, v, rfl, left, right⟩
    exact .sequence left right

theorem Tree.denotes_choice_iff {first second : Tree} {word : List Symbol} :
    (Tree.choice first second).Denotes word ↔ first.Denotes word ∨ second.Denotes word := by
  constructor
  · intro denotes
    cases denotes with
    | first left => exact .inl left
    | second right => exact .inr right
  · rintro (left | right)
    · exact .first left
    · exact .second right

end PatternAutomata.Pattern
