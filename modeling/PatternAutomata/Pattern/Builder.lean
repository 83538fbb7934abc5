import PatternAutomata.Error
import PatternAutomata.Nfa.Basic
import PatternAutomata.Pattern.Token

/-! # Automata from patterns

The automaton of a pattern is built token by token. Every open scope, the whole pattern or a
group, has an entry, where each of its alternatives begins, and once it has a second alternative
or is closed also an exit, where all of them end. An exit gets its edges only when the scope is
left, so alternatives cannot leak into one another.
-/

namespace PatternAutomata

namespace Pattern

structure Scope where
  entry : StateId
  exit? : Option StateId := none
deriving DecidableEq, Repr, Inhabited

/-- A group that is still open, and where its parenthesis stands. -/
structure OpenGroup where
  openedAt : Nat
  scope : Scope
deriving DecidableEq, Repr, Inhabited

/-- The automaton built so far, the state where the next token attaches, the scope of the whole
pattern and the open groups, the innermost in front. -/
structure Builder where
  nfa : Nfa
  current : StateId
  root : Scope
  groups : List OpenGroup := []
deriving DecidableEq, Repr, Inhabited

namespace Builder

/-- Before the first token there is the start state alone. -/
def start : Builder where
  nfa := .ofSize 1
  current := StateId.start
  root := { entry := StateId.start }

/-- Attaches a symbol: a state is added that the symbol leads to. A repeated symbol also leads from
that state to itself, and one that may be missing is replaced by an epsilon edge. -/
def addSymbol (builder : Builder) (symbol : Symbol) (quantifier : Option Quantifier) :
    Except Fault Builder := do
  let next := builder.nfa.size
  let nfa := builder.nfa.addState
  let nfa ← match quantifier with
    | none => nfa.addLetter builder.current symbol next
    | some .plus => do
      let nfa ← nfa.addLetter builder.current symbol next
      nfa.addLetter next symbol next
    | some .star => do
      let nfa ← nfa.addEpsilon builder.current next
      nfa.addLetter next symbol next
  .ok { builder with nfa, current := next }

def openGroup (builder : Builder) (offset : Nat) : Except Fault Builder := do
  let entry := builder.nfa.size
  let nfa ← builder.nfa.addState.addEpsilon builder.current entry
  .ok { builder with nfa, current := entry, groups := ⟨offset, { entry }⟩ :: builder.groups }

/-- The exit of a scope, which is added if the scope has none. -/
def exitOf (nfa : Nfa) (scope : Scope) : Nfa × StateId :=
  match scope.exit? with
  | some exit => (nfa, exit)
  | none => (nfa.addState, nfa.size)

/-- Adds the edges by which a quantifier repeats or skips a scope. -/
def quantify (nfa : Nfa) (entry exit : StateId) : Option Quantifier → Except Fault Nfa
  | none => .ok nfa
  | some .plus => nfa.addEpsilon exit entry
  | some .star => do
    let nfa ← nfa.addEpsilon exit entry
    nfa.addEpsilon entry exit

def closeGroup (builder : Builder) (offset : Nat) (quantifier : Option Quantifier) :
    Except Error Builder :=
  match builder.groups with
  | [] => .error (.pattern (.unmatchedClose offset))
  | group :: groups => do
    let (nfa, exit) := exitOf builder.nfa group.scope
    let nfa ← quantify nfa group.scope.entry exit quantifier
    let nfa ← nfa.addEpsilon builder.current exit
    .ok { builder with nfa, current := exit, groups }

/-- Ends an alternative of a scope and begins the next one. -/
def nextAlternative (builder : Builder) (scope : Scope) :
    Except Fault (Nfa × Scope) := do
  let (nfa, exit) := exitOf builder.nfa scope
  let nfa ← nfa.addEpsilon builder.current exit
  .ok (nfa, { scope with exit? := some exit })

/-- Begins the next alternative of the innermost scope. -/
def alternate (builder : Builder) : Except Fault Builder :=
  match builder.groups with
  | [] => do
    let (nfa, root) ← builder.nextAlternative builder.root
    .ok { builder with nfa, current := root.entry, root }
  | group :: groups => do
    let (nfa, scope) ← builder.nextAlternative group.scope
    .ok { builder with nfa, current := scope.entry, groups := { group with scope } :: groups }

def add (builder : Builder) (lexeme : Lexeme) : Except Error Builder :=
  match lexeme.token with
  | .symbol symbol quantifier => builder.addSymbol symbol quantifier
  | .opening => builder.openGroup lexeme.offset
  | .closing quantifier => builder.closeGroup lexeme.offset quantifier
  | .bar => builder.alternate
  | .stray quantifier => .error (.pattern (.strayQuantifier quantifier lexeme.offset))

/-- Ends the pattern: what its last alternative reached, or the exit, accepts. -/
def finish (builder : Builder) : Except Error Nfa :=
  match builder.groups with
  | group :: _ => .error (.pattern (.unmatchedOpen group.openedAt))
  | [] =>
    match builder.root.exit? with
    | none => builder.nfa.setAccepting builder.current true
    | some exit => do
      let nfa ← builder.nfa.addEpsilon builder.current exit
      nfa.setAccepting exit true

end Builder

end Pattern

def Nfa.ofPattern (pattern : String) : Except Error Nfa := do
  let builder ← (Pattern.tokens pattern.toList).foldlM Pattern.Builder.add Pattern.Builder.start
  builder.finish

end PatternAutomata
