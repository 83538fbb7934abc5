import PatternAutomata.Proofs.Nfa.Alphabet
import PatternAutomata.Proofs.Pattern.Shape

/-! # The alphabet of a pattern's automaton

A state lists the letters of its edges and no others, because all that is done to it is adding edges
(`lettersLead_of_ofPattern`). So the alphabet of a pattern's automaton has exactly the characters of the pattern
that stand for themselves (`alphabet_of_ofPattern`).
-/

namespace PatternAutomata.Pattern

namespace Builder

variable {builder next : Builder}

theorem lettersLead_addSymbol (leads : builder.nfa.LettersLead) {c : Symbol} {quantifier : Option Quantifier}
    (success : builder.addSymbol c quantifier = .ok next) : next.nfa.LettersLead := by
  match quantifier with
  | none =>
    obtain ⟨nfa, enters, same⟩ := bind_eq_ok_iff.mp success
    exact Except.ok.inj same ▸ leads.addState.addLetter enters
  | some .plus =>
    obtain ⟨first, enters, success⟩ := bind_eq_ok_iff.mp success
    obtain ⟨nfa, loops, same⟩ := bind_eq_ok_iff.mp success
    exact Except.ok.inj same ▸ (leads.addState.addLetter enters).addLetter loops
  | some .star =>
    obtain ⟨first, enters, success⟩ := bind_eq_ok_iff.mp success
    obtain ⟨nfa, loops, same⟩ := bind_eq_ok_iff.mp success
    exact Except.ok.inj same ▸ (leads.addState.addEpsilon enters).addLetter loops

theorem lettersLead_openGroup (leads : builder.nfa.LettersLead) {offset : Nat}
    (success : builder.openGroup offset = .ok next) : next.nfa.LettersLead := by
  obtain ⟨nfa, step, same⟩ := bind_eq_ok_iff.mp success
  obtain rfl := Except.ok.inj same
  exact leads.addState.addEpsilon step

theorem lettersLead_exitOf {nfa : Nfa} (leads : nfa.LettersLead) (scope : Scope) :
    (exitOf nfa scope).1.LettersLead := by
  unfold exitOf
  split
  · exact leads
  · exact leads.addState

theorem lettersLead_quantify {nfa updated : Nfa} (leads : nfa.LettersLead) {entry exit : StateId}
    {quantifier : Option Quantifier} (success : quantify nfa entry exit quantifier = .ok updated) :
    updated.LettersLead := by
  match quantifier with
  | none => exact Except.ok.inj success ▸ leads
  | some .plus => exact leads.addEpsilon success
  | some .star =>
    obtain ⟨first, back, skip⟩ := bind_eq_ok_iff.mp success
    exact (leads.addEpsilon back).addEpsilon skip

theorem lettersLead_closeGroup (leads : builder.nfa.LettersLead) {offset : Nat} {quantifier : Option Quantifier}
    (success : builder.closeGroup offset quantifier = .ok next) : next.nfa.LettersLead := by
  unfold closeGroup at success
  split at success
  · cases success
  · obtain ⟨first, quantifies, success⟩ := bind_eq_ok_iff.mp success
    obtain ⟨second, joins, same⟩ := bind_eq_ok_iff.mp success
    obtain rfl := Except.ok.inj same
    have quantified := lettersLead_quantify (lettersLead_exitOf leads _) (mapError_eq_ok_iff.mp quantifies)
    exact quantified.addEpsilon (mapError_eq_ok_iff.mp joins)

theorem lettersLead_nextAlternative (leads : builder.nfa.LettersLead) {scope after : Scope} {nfa : Nfa}
    (success : builder.nextAlternative scope = .ok (nfa, after)) : nfa.LettersLead := by
  obtain ⟨joined, joins, same⟩ := bind_eq_ok_iff.mp success
  obtain ⟨rfl, -⟩ := Prod.mk.inj (Except.ok.inj same)
  exact (lettersLead_exitOf leads scope).addEpsilon joins

theorem lettersLead_alternate (leads : builder.nfa.LettersLead) (success : builder.alternate = .ok next) :
    next.nfa.LettersLead := by
  unfold alternate at success
  split at success <;>
    · obtain ⟨⟨nfa, scope⟩, alternates, same⟩ := bind_eq_ok_iff.mp success
      obtain rfl := Except.ok.inj same
      exact lettersLead_nextAlternative leads alternates

/-- A token that is taken adds no letter that leads nowhere. -/
theorem lettersLead_add (leads : builder.nfa.LettersLead) {lexeme : Lexeme}
    (success : builder.add lexeme = .ok next) : next.nfa.LettersLead := by
  obtain ⟨offset, token⟩ := lexeme
  cases token with
  | symbol c quantifier => exact lettersLead_addSymbol leads (mapError_eq_ok_iff.mp success)
  | opening => exact lettersLead_openGroup leads (mapError_eq_ok_iff.mp success)
  | closing quantifier => exact lettersLead_closeGroup leads success
  | bar => exact lettersLead_alternate leads (mapError_eq_ok_iff.mp success)
  | stray quantifier => exact absurd success nofun

theorem lettersLead_finish (leads : builder.nfa.LettersLead) {nfa : Nfa} (success : builder.finish = .ok nfa) :
    nfa.LettersLead := by
  unfold finish at success
  split at success
  · cases success
  · split at success
    · exact leads.setAccepting (mapError_eq_ok_iff.mp success)
    · obtain ⟨joined, joins, success⟩ := bind_eq_ok_iff.mp success
      have joinedLeads := leads.addEpsilon (mapError_eq_ok_iff.mp joins)
      exact joinedLeads.setAccepting (mapError_eq_ok_iff.mp success)

end Builder

variable {pattern : String} {nfa : Nfa}

theorem lettersLead_of_ofPattern (success : Nfa.ofPattern pattern = .ok nfa) : nfa.LettersLead := by
  obtain ⟨builder, run, ends⟩ := bind_eq_ok_iff.mp success
  let holds (here : Builder) : Prop := here.nfa.LettersLead
  have start : holds Builder.start := .ofSize 1
  have leads : holds builder := foldlM_invariant start run fun _ _ _ before step =>
    Builder.lettersLead_add before step
  exact Builder.lettersLead_finish leads ends

theorem alphabet_of_ofPattern (success : Nfa.ofPattern pattern = .ok nfa) :
    nfa.alphabet = .ofList (plainSymbols pattern.toList) := by
  apply SortedSet.ext_mem
  intro symbol
  rw [Nfa.mem_alphabet_iff (lettersLead_of_ofPattern success), SortedSet.mem_ofList]
  exact letter_iff_of_ofPattern success

end PatternAutomata.Pattern
