import PatternAutomata.Pattern.ScopeStack
import PatternAutomata.Proofs.Lists

/-! # The scope of the whole pattern is never lost

Building on one stack does what building with a separate scope of the whole pattern does, token by token
(`ScopeStack.add_ofBuilder`): the stack is made of the open groups above that scope. So no bar and no end ever
finds the stack empty (`ScopeStack.parse_eq`).
-/

namespace PatternAutomata.Pattern.ScopeStack

theorem liftM_eq_mapError {α : Type} (result : Except Fault α) :
    (liftM result : Except Interruption α) = result.mapError fun fault => .failed (.fault fault) := rfl

theorem liftM_eq_mapError_fault {α : Type} (result : Except Fault α) :
    (liftM result : Except Error α) = result.mapError .fault := rfl

/-- The open groups on top of the scope of the whole pattern. -/
def ofBuilder (builder : Builder) : ScopeStack where
  nfa := builder.nfa
  current := builder.current
  frames := builder.groups.map Frame.group ++ [.root builder.root]

theorem addSymbol_ofBuilder (builder : Builder) (symbol : Symbol) (quantifier : Option Quantifier) :
    (ofBuilder builder).addSymbol symbol quantifier = (builder.addSymbol symbol quantifier).map ofBuilder := by
  simp only [addSymbol, Builder.addSymbol, ofBuilder, bind, Except.bind]
  rcases quantifier with - | - | -
  · dsimp only
    cases builder.nfa.addState.addLetter builder.current symbol builder.nfa.size <;> rfl
  · dsimp only
    cases builder.nfa.addState.addEpsilon builder.current builder.nfa.size with
    | error fault => rfl
    | ok nfa =>
      dsimp only
      cases nfa.addLetter builder.nfa.size symbol builder.nfa.size <;> rfl
  · dsimp only
    cases builder.nfa.addState.addLetter builder.current symbol builder.nfa.size with
    | error fault => rfl
    | ok nfa =>
      dsimp only
      cases nfa.addLetter builder.nfa.size symbol builder.nfa.size <;> rfl

theorem openGroup_ofBuilder (builder : Builder) (offset : Nat) :
    (ofBuilder builder).openGroup offset = (builder.openGroup offset).map ofBuilder := by
  simp only [openGroup, Builder.openGroup, ofBuilder, bind, Except.bind]
  cases builder.nfa.addState.addEpsilon builder.current builder.nfa.size <;> rfl

theorem closeGroup_ofBuilder (builder : Builder) (offset : Nat) (quantifier : Option Quantifier) :
    (ofBuilder builder).closeGroup offset quantifier =
      ((builder.closeGroup offset quantifier).mapError .failed).map ofBuilder := by
  cases innermost : builder.groups with
  | nil =>
    simp only [closeGroup, Builder.closeGroup, ofBuilder, innermost, List.map_nil, List.nil_append]
    rfl
  | cons group groups =>
    simp only [closeGroup, Builder.closeGroup, ofBuilder, innermost, List.map_cons, List.cons_append]
    rcases Builder.exitOf builder.nfa group.scope with ⟨nfa, exit⟩
    dsimp only
    cases Builder.quantify nfa group.scope.entry exit quantifier with
    | error fault => rfl
    | ok repeated =>
      simp only [bind, Except.bind, liftM_eq_mapError, liftM_eq_mapError_fault, Except.mapError]
      cases repeated.addEpsilon builder.current exit <;> rfl

theorem alternate_ofBuilder (builder : Builder) :
    (ofBuilder builder).alternate =
      ((builder.alternate.mapError Error.fault).mapError .failed).map ofBuilder := by
  cases innermost : builder.groups with
  | nil =>
    simp only [alternate, Builder.alternate, Builder.nextAlternative, ofBuilder, innermost, List.map_nil,
      List.nil_append, Frame.scope]
    rcases Builder.exitOf builder.nfa builder.root with ⟨nfa, exit⟩
    dsimp only
    cases nfa.addEpsilon builder.current exit <;> rfl
  | cons group groups =>
    simp only [alternate, Builder.alternate, Builder.nextAlternative, ofBuilder, innermost, List.map_cons,
      List.cons_append, Frame.scope]
    rcases Builder.exitOf builder.nfa group.scope with ⟨nfa, exit⟩
    dsimp only
    cases nfa.addEpsilon builder.current exit <;> rfl

/-- Every token does to the stack what it does to the builder. -/
theorem add_ofBuilder (builder : Builder) (lexeme : Lexeme) :
    (ofBuilder builder).add lexeme = ((builder.add lexeme).mapError .failed).map ofBuilder := by
  rcases lexeme with ⟨offset, token⟩
  cases token with
  | symbol symbol quantifier =>
    simp only [add, Builder.add, addSymbol_ofBuilder, liftM_eq_mapError, liftM_eq_mapError_fault]
    cases builder.addSymbol symbol quantifier <;> rfl
  | opening =>
    simp only [add, Builder.add, openGroup_ofBuilder, liftM_eq_mapError, liftM_eq_mapError_fault]
    cases builder.openGroup offset <;> rfl
  | closing quantifier => exact closeGroup_ofBuilder builder offset quantifier
  | bar => exact alternate_ofBuilder builder
  | stray quantifier => rfl

theorem finish_ofBuilder (builder : Builder) :
    (ofBuilder builder).finish = builder.finish.mapError .failed := by
  cases innermost : builder.groups with
  | nil =>
    simp only [finish, Builder.finish, ofBuilder, innermost, List.map_nil, List.nil_append]
    rcases builder.root with ⟨entry, - | exit⟩
    · dsimp only
      cases builder.nfa.setAccepting builder.current true <;> rfl
    · simp only [bind, Except.bind]
      cases builder.nfa.addEpsilon builder.current exit with
      | error fault => rfl
      | ok nfa =>
        simp only [liftM_eq_mapError, liftM_eq_mapError_fault, Except.mapError]
        cases nfa.setAccepting exit true <;> rfl
  | cons group groups =>
    simp only [finish, Builder.finish, ofBuilder, innermost, List.map_cons, List.cons_append]
    rfl

/-- A run over tokens does to the stack what it does to the builder. -/
theorem foldlM_add_ofBuilder (lexemes : List Lexeme) (builder : Builder) :
    lexemes.foldlM add (ofBuilder builder) =
      ((lexemes.foldlM Builder.add builder).mapError .failed).map ofBuilder := by
  induction lexemes generalizing builder with
  | nil => rfl
  | cons lexeme rest ih =>
    rw [List.foldlM_cons, List.foldlM_cons, add_ofBuilder]
    cases builder.add lexeme with
    | error cause => rfl
    | ok next => exact ih next

/-- What tokens have made of the stack is what they make of the builder. -/
theorem foldlM_add_start_eq_ok_iff {lexemes : List Lexeme} {stack : ScopeStack} :
    lexemes.foldlM add start = .ok stack ↔
      ∃ builder, lexemes.foldlM Builder.add Builder.start = .ok builder ∧ ofBuilder builder = stack := by
  have run : lexemes.foldlM add start = _ := foldlM_add_ofBuilder lexemes Builder.start
  rw [run]
  cases lexemes.foldlM Builder.add Builder.start with
  | error cause => exact iff_of_false nofun fun ⟨_, absurd, _⟩ => nomatch absurd
  | ok builder =>
    constructor
    · intro made
      exact ⟨builder, rfl, Except.ok.inj made⟩
    · rintro ⟨_, same, rfl⟩
      obtain rfl := Except.ok.inj same
      rfl

/-- The stack is never found empty: building on it gives what building with a separate scope of the whole
pattern gives. -/
theorem parse_eq (pattern : String) : parse pattern = (Nfa.ofPattern pattern).mapError .failed := by
  have whole : (tokens pattern.toList).foldlM add start = _ := foldlM_add_ofBuilder _ Builder.start
  rw [parse, Nfa.ofPattern, whole]
  cases (tokens pattern.toList).foldlM Builder.add Builder.start with
  | error cause => rfl
  | ok builder => exact finish_ofBuilder builder

end PatternAutomata.Pattern.ScopeStack
