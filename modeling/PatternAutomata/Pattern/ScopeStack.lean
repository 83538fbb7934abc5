import PatternAutomata.Pattern.Builder

/-! # Building on one stack of scopes

The scope of the whole pattern and those of the open groups can be held on one stack, the innermost on top. A
parenthesis that closes, a bar and the end of the pattern each look at the top. The scope of the whole pattern
is meant to stay at the bottom: only a parenthesis takes scopes off, and one that finds this scope ends the
building. A bar or an end that finds the stack empty has lost it.
-/

namespace PatternAutomata.Pattern

inductive Frame
  | root (scope : Scope)
  | group (group : OpenGroup)
deriving DecidableEq, Repr

namespace Frame

/-- The entry of a scope and its exit, if it has one. -/
def scope : Frame → Scope
  | .root scope => scope
  | .group inner => inner.scope

def withExit (exit : StateId) : Frame → Frame
  | .root scope => .root { scope with exit? := some exit }
  | .group inner => .group { inner with scope := { inner.scope with exit? := some exit } }

end Frame

/-- The automaton built so far, the state where the next token attaches, and the open scopes. -/
structure ScopeStack where
  nfa : Nfa
  current : StateId
  frames : List Frame
deriving DecidableEq, Repr

namespace ScopeStack

/-- Why building ends early. -/
inductive Interruption
  | failed (cause : Error)
  /-- The stack is empty where the innermost scope is needed. -/
  | rootLost
deriving DecidableEq, Repr

instance : MonadLift (Except Fault) (Except Interruption) :=
  ⟨Except.mapError fun fault => .failed (.fault fault)⟩

def start : ScopeStack where
  nfa := .ofSize 1
  current := StateId.start
  frames := [.root { entry := StateId.start }]

def addSymbol (stack : ScopeStack) (symbol : Symbol) (quantifier : Option Quantifier) :
    Except Fault ScopeStack := do
  let next := stack.nfa.size
  let nfa := stack.nfa.addState
  let nfa ← match quantifier with
    | none => nfa.addLetter stack.current symbol next
    | some .plus => do
      let nfa ← nfa.addLetter stack.current symbol next
      nfa.addLetter next symbol next
    | some .star => do
      let nfa ← nfa.addEpsilon stack.current next
      nfa.addLetter next symbol next
  .ok { stack with nfa, current := next }

def openGroup (stack : ScopeStack) (offset : Nat) : Except Fault ScopeStack := do
  let entry := stack.nfa.size
  let nfa ← stack.nfa.addState.addEpsilon stack.current entry
  .ok { nfa, current := entry, frames := .group ⟨offset, { entry }⟩ :: stack.frames }

def closeGroup (stack : ScopeStack) (offset : Nat) (quantifier : Option Quantifier) :
    Except Interruption ScopeStack :=
  match stack.frames with
  | .group group :: frames => do
    let (nfa, exit) := Builder.exitOf stack.nfa group.scope
    let nfa ← Builder.quantify nfa group.scope.entry exit quantifier
    let nfa ← nfa.addEpsilon stack.current exit
    .ok { nfa, current := exit, frames }
  | .root _ :: _ | [] => .error (.failed (.pattern (.unmatchedClose offset)))

/-- Takes a scope off the stack and puts it back with an exit. -/
def alternate (stack : ScopeStack) : Except Interruption ScopeStack :=
  match stack.frames with
  | [] => .error .rootLost
  | frame :: frames => do
    let (nfa, exit) := Builder.exitOf stack.nfa frame.scope
    let nfa ← nfa.addEpsilon stack.current exit
    .ok { nfa, current := frame.scope.entry, frames := frame.withExit exit :: frames }

def add (stack : ScopeStack) (lexeme : Lexeme) : Except Interruption ScopeStack :=
  match lexeme.token with
  | .symbol symbol quantifier => stack.addSymbol symbol quantifier
  | .opening => stack.openGroup lexeme.offset
  | .closing quantifier => stack.closeGroup lexeme.offset quantifier
  | .bar => stack.alternate
  | .stray quantifier => .error (.failed (.pattern (.strayQuantifier quantifier lexeme.offset)))

def finish (stack : ScopeStack) : Except Interruption Nfa :=
  match stack.frames with
  | .root ⟨_, some exit⟩ :: _ => do
    let nfa ← stack.nfa.addEpsilon stack.current exit
    nfa.setAccepting exit true
  | .root ⟨_, none⟩ :: _ => stack.nfa.setAccepting stack.current true
  | .group group :: _ => .error (.failed (.pattern (.unmatchedOpen group.openedAt)))
  | [] => .error .rootLost

def parse (pattern : String) : Except Interruption Nfa := do
  let stack ← (tokens pattern.toList).foldlM add start
  stack.finish

end ScopeStack

end PatternAutomata.Pattern
