import PatternAutomata.Error
import PatternAutomata.Pattern.Grammar

/-! # What the text of a pattern tells

Whether a character may stand at a position of a pattern depends on the parentheses before it and on
the character right before it. A closing parenthesis needs an open group, and a quantifier needs
something to apply to. `Offence` names the positions where that is not so, without reading the pattern
from the left, and `Unclosed` the parentheses that open a group for good.

The automaton of a pattern has the letters that stand for themselves in it, and as many states as these
letters, the groups and a bar outside all groups account for. These are counted on the text as well.
-/

namespace PatternAutomata.Pattern

/-- How many more parentheses a text opens than it closes. -/
def level (text : List Char) : Int := text.count '(' - text.count ')'

def depth (text : List Char) (position : Nat) : Int := level (text.take position)

/-- A position where a character cannot stand, and what is wrong with it. -/
inductive Offence (text : List Char) (position : Nat) : PatternError → Prop
  | close (closes : text[position]? = some ')') (nothingOpen : depth text position = 0) :
      Offence text position (.unmatchedClose position)
  | stray {quantifier : Quantifier} (quantifies : text[position]? = some quantifier.toChar)
      (nothingBefore : position = 0 ∨
        ∃ before ∈ ['(', '|', '*', '+'], text[position - 1]? = some before) :
      Offence text position (.strayQuantifier quantifier position)

structure FirstOffence (text : List Char) (position : Nat) (cause : PatternError) : Prop where
  offence : Offence text position cause
  first : ∀ earlier < position, ∀ other, ¬ Offence text earlier other

def Clean (text : List Char) : Prop := ∀ position cause, ¬ Offence text position cause

/-- A parenthesis that opens a group which is open at the end of the text: from there on the depth stays
above what it is there. -/
def Unclosed (text : List Char) (position : Nat) : Prop :=
  text[position]? = some '(' ∧
    ∀ later, position < later → later ≤ text.length → depth text position < depth text later

/-- The characters of a text that stand for themselves, in order. -/
def plainSymbols (text : List Char) : List Symbol := text.filter (IsPlain ·)

def groupCount (text : List Char) : Nat := text.count '('

def HasOuterBar (text : List Char) : Prop :=
  ∃ position < text.length, text[position]? = some '|' ∧ depth text position = 0

instance (text : List Char) : Decidable (HasOuterBar text) :=
  inferInstanceAs (Decidable (∃ position < text.length, text[position]? = some '|' ∧ depth text position = 0))

theorem mem_plainSymbols {text : List Char} {c : Char} : c ∈ plainSymbols text ↔ c ∈ text ∧ IsPlain c := by
  simp [plainSymbols]

theorem plainSymbols_append (front rest : List Char) :
    plainSymbols (front ++ rest) = plainSymbols front ++ plainSymbols rest := List.filter_append ..

theorem groupCount_append (front rest : List Char) :
    groupCount (front ++ rest) = groupCount front + groupCount rest := List.count_append ..

end PatternAutomata.Pattern
