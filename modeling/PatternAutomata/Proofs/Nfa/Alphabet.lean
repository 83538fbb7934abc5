import PatternAutomata.Proofs.Lists
import PatternAutomata.Proofs.Nfa.Accessible

/-! # The alphabet as the labels of edges

A state lists a symbol among its letters when an edge on the symbol is added, so a letter of a state
that is built by the operations leads somewhere (`Nfa.LettersLead`). The alphabet is then the set of the
symbols of letter edges (`Nfa.mem_alphabet_iff`).
-/

namespace PatternAutomata

def NfaState.LettersLead (state : NfaState) : Prop :=
  ∀ symbol ∈ state.letters.keys, ∃ target, target ∈ state.targets symbol

theorem NfaState.LettersLead.addLetter {state : NfaState} (leads : state.LettersLead) (symbol : Symbol)
    (target : StateId) : (state.addLetter symbol target).LettersLead := by
  intro other listed
  by_cases same : other = symbol
  · exact ⟨target, mem_targets_addLetter.mpr (.inl ⟨same, rfl⟩)⟩
  · have before : other ∈ state.letters.keys := by
      by_contra absent
      rw [← SortedMap.get?_eq_none_iff] at absent
      have stays : (state.addLetter symbol target).letters.get? other = none := by
        simp [NfaState.addLetter, Ne.symm same, absent]
      exact SortedMap.get?_eq_none_iff.mp stays listed
    obtain ⟨old, member⟩ := leads other before
    exact ⟨old, mem_targets_addLetter.mpr (.inr member)⟩

/-- A symbol that leads somewhere is listed with the states that it leads to. -/
theorem NfaState.get?_letters_of_mem {state : NfaState} {symbol : Symbol} {target : StateId}
    (member : target ∈ state.targets symbol) : state.letters.get? symbol = some (state.targets symbol) := by
  cases found : state.letters.get? symbol with
  | none => simp [targets, found] at member
  | some set => simp [targets, found]

/-- A symbol that leads nowhere is not listed. -/
theorem NfaState.LettersLead.get?_letters_eq_none {state : NfaState} (leads : state.LettersLead)
    {symbol : Symbol} (nowhere : ∀ target, target ∉ state.targets symbol) :
    state.letters.get? symbol = none := by
  rw [SortedMap.get?_eq_none_iff]
  intro listed
  obtain ⟨target, member⟩ := leads symbol listed
  exact nowhere target member

namespace Nfa

variable {nfa updated : Nfa}

/-- Every letter of every state leads somewhere. -/
def LettersLead (nfa : Nfa) : Prop := ∀ state ∈ nfa.states, state.LettersLead

/-- The alphabet is the set of the symbols of letter edges. -/
theorem mem_alphabet_iff (leads : nfa.LettersLead) {symbol : Symbol} :
    symbol ∈ nfa.alphabet ↔ ∃ source target, nfa.Edge source (some symbol) target := by
  constructor
  · intro member
    obtain ⟨state, stateMember, listed⟩ := Nfa.mem_alphabet.mp member
    obtain ⟨target, targetMember⟩ := leads state stateMember symbol listed
    obtain ⟨source, read⟩ := Array.mem_iff_getElem?.mp stateMember
    exact ⟨source, target, .letter read targetMember⟩
  · rintro ⟨source, target, edge⟩
    exact edge.mem_alphabet

namespace LettersLead

theorem ofSize (n : Nat) : (Nfa.ofSize n).LettersLead := by
  intro state member
  obtain rfl := Array.eq_of_mem_replicate member
  intro symbol listed
  cases listed

theorem addState (leads : nfa.LettersLead) : nfa.addState.LettersLead := by
  intro state member
  rcases Array.mem_push.mp member with old | rfl
  · exact leads state old
  · intro symbol listed
    cases listed

theorem update {id : StateId} {change : NfaState → NfaState} (leads : nfa.LettersLead)
    (success : nfa.update id change = .ok updated)
    (kept : ∀ state : NfaState, state.LettersLead → (change state).LettersLead) : updated.LettersLead := by
  obtain ⟨owned, same⟩ := StateTable.update_eq_ok_iff.mp (update_eq_ok_iff.mp success)
  intro state member
  rw [same] at member
  rcases Array.mem_or_eq_of_mem_set member with old | rfl
  · exact leads state old
  · exact kept _ (leads _ (Array.getElem_mem owned))

theorem setAccepting (leads : nfa.LettersLead) {id : StateId} {accepting : Bool}
    (success : nfa.setAccepting id accepting = .ok updated) : updated.LettersLead :=
  leads.update success fun _ stateLeads => stateLeads

theorem addEpsilon (leads : nfa.LettersLead) {source target : StateId}
    (success : nfa.addEpsilon source target = .ok updated) : updated.LettersLead := by
  unfold Nfa.addEpsilon at success
  split at success
  · exact leads.update success fun _ stateLeads => stateLeads
  · cases success

theorem addLetter (leads : nfa.LettersLead) {source target : StateId} {symbol : Symbol}
    (success : nfa.addLetter source symbol target = .ok updated) : updated.LettersLead := by
  unfold Nfa.addLetter at success
  split at success
  · exact leads.update success fun _ stateLeads => stateLeads.addLetter symbol target
  · cases success

end LettersLead

end Nfa

end PatternAutomata
