import PatternAutomata.SortedSet

/-! # Symbols, quantifiers and alphabets

A symbol is a single character. Two characters act as postfix quantifiers in a pattern. An
alphabet is a set of symbols, ascending by code point; `Alphabet.columns` orders it for a table
that a preferred order heads.
-/

namespace PatternAutomata

abbrev Symbol := Char

/-- How often the item before a quantifier occurs. -/
inductive Quantifier
  /-- Any number of times. -/
  | star
  /-- At least once. -/
  | plus
deriving DecidableEq, Repr

namespace Quantifier

def toChar : Quantifier → Char
  | star => '*'
  | plus => '+'

def ofChar? (c : Char) : Option Quantifier :=
  if c = '*' then some star else if c = '+' then some plus else none

theorem ofChar?_eq_some_iff {c : Char} {quantifier : Quantifier} :
    ofChar? c = some quantifier ↔ c = quantifier.toChar := by
  cases quantifier <;> simp only [ofChar?, toChar] <;> split <;> simp_all

end Quantifier

/-- A set of symbols, ascending by code point. -/
abbrev Alphabet := SortedSet Symbol

namespace Alphabet

/-- The preferred symbols in their given order, then the others ascending, none of them twice. -/
def columns (alphabet : Alphabet) (preferred : List Symbol) : List Symbol :=
  (preferred ++ alphabet.toList).eraseDups

theorem mem_columns {alphabet : Alphabet} {preferred : List Symbol} {symbol : Symbol} :
    symbol ∈ alphabet.columns preferred ↔ symbol ∈ preferred ∨ symbol ∈ alphabet := by
  simp [columns, SortedSet.mem_def]

def display (alphabet : Alphabet) : String := Text.braced (alphabet.toList.map toString)

end Alphabet

end PatternAutomata
