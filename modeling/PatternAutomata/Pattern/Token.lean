import PatternAutomata.Symbol

/-! # The tokens of a pattern

A quantifier belongs to the symbol or the closing parenthesis right before it and is part of that
token; a quantifier with neither before it is a stray token. Every other character is a token of
its own. Offsets count characters.
-/

namespace PatternAutomata.Pattern

/-- One step of reading a pattern. -/
inductive Token
  | symbol (symbol : Symbol) (quantifier : Option Quantifier)
  | opening
  | closing (quantifier : Option Quantifier)
  /-- Separates the alternatives of the innermost open group. -/
  | bar
  /-- A quantifier that applies to nothing. -/
  | stray (quantifier : Quantifier)
deriving DecidableEq, Repr

structure Lexeme where
  offset : Nat
  token : Token
deriving DecidableEq, Repr

/-- The token that a character begins, given the quantifier that may follow it. -/
def Token.ofChar (c : Char) (quantifier : Option Quantifier) : Token :=
  if c = ')' then .closing quantifier else .symbol c quantifier

/-- Whether a quantifier may follow a character as part of the same token. -/
def isQuantifiable (c : Char) : Bool :=
  c != '(' && c != '|' && (Quantifier.ofChar? c).isNone

/-- The token that a character is by itself when no quantifier can follow it. -/
def Token.alone (c : Char) : Token :=
  match Quantifier.ofChar? c with
  | some quantifier => .stray quantifier
  | none => if c = '(' then .opening else .bar

/-- The tokens of the rest of a pattern that begins at an offset. -/
def tokensFrom (offset : Nat) : List Char → List Lexeme
  | [] => []
  | [c] => [⟨offset, if isQuantifiable c then .ofChar c none else .alone c⟩]
  | c :: next :: rest =>
    if isQuantifiable c then
      match Quantifier.ofChar? next with
      | some quantifier => ⟨offset, .ofChar c (some quantifier)⟩ :: tokensFrom (offset + 2) rest
      | none => ⟨offset, .ofChar c none⟩ :: tokensFrom (offset + 1) (next :: rest)
    else ⟨offset, .alone c⟩ :: tokensFrom (offset + 1) (next :: rest)

def tokens (pattern : List Char) : List Lexeme := tokensFrom 0 pattern

end PatternAutomata.Pattern
