import PatternAutomata.Pattern.Builder
import PatternAutomata.Proofs.Nfa.Edges
import PatternAutomata.Proofs.Pattern.Fragment

/-! # What each token adds

Each token is described by the edges that it adds to the automaton under construction and by what it
does to the open scopes. A builder whose scopes name states of its automaton takes every token but a
stray quantifier and a closing parenthesis without a group, and its scopes do so again.
-/

namespace PatternAutomata.Pattern

/-- The entry and the exit of a scope are numbered below a bound. -/
def Scope.Within (scope : Scope) (bound : Nat) : Prop :=
  scope.entry < bound ∧ ∀ exit, scope.exit? = some exit → exit < bound

theorem Scope.Within.mono {scope : Scope} {bound larger : Nat} (within : scope.Within bound)
    (le : bound ≤ larger) : scope.Within larger :=
  ⟨Nat.lt_of_lt_of_le within.1 le, fun exit present => Nat.lt_of_lt_of_le (within.2 exit present) le⟩

namespace Builder

def scope (builder : Builder) : Scope :=
  match builder.groups with
  | [] => builder.root
  | group :: _ => group.scope

def withScope (builder : Builder) (scope : Scope) : Builder :=
  match builder.groups with
  | [] => { builder with root := scope }
  | group :: groups => { builder with groups := { group with scope } :: groups }

/-- Edges, the current state and the scopes stay inside the automaton, and nothing accepts yet. -/
structure WellFormed (builder : Builder) : Prop where
  inRange : builder.nfa.InRange
  silent : ∀ id, ¬ builder.nfa.Accepting id
  current : builder.current < builder.nfa.size
  root : builder.root.Within builder.nfa.size
  groups : ∀ group ∈ builder.groups, group.scope.Within builder.nfa.size

theorem WellFormed.scope {builder : Builder} (valid : builder.WellFormed) :
    builder.scope.Within builder.nfa.size := by
  unfold Builder.scope
  split
  · exact valid.root
  · rename_i group groups present
    exact valid.groups group (by simp [present])

theorem exitOf_of_none {nfa : Nfa} {scope : Scope} (absent : scope.exit? = none) :
    exitOf nfa scope = (nfa.addState, nfa.size) := by
  simp only [exitOf, absent]

theorem exitOf_of_some {nfa : Nfa} {scope : Scope} {exit : StateId} (present : scope.exit? = some exit) :
    exitOf nfa scope = (nfa, exit) := by
  simp only [exitOf, present]

theorem extends_exitOf (nfa : Nfa) (scope : Scope) : Nfa.Extends nfa (exitOf nfa scope).1 ⊥ := by
  unfold exitOf
  split
  · exact .refl nfa
  · exact Nfa.extends_addState nfa

theorem exitOf_lt {nfa : Nfa} {scope : Scope} (within : scope.Within nfa.size) :
    (exitOf nfa scope).2 < (exitOf nfa scope).1.size := by
  unfold exitOf
  split
  · rename_i exit present
    exact within.2 exit present
  · simp

/-- What an exit that is made when it is missing adds is the exit. -/
theorem eq_exitOf {nfa : Nfa} {scope : Scope} {id : StateId} (owned : id < (exitOf nfa scope).1.size)
    (new : nfa.size ≤ id) : id = (exitOf nfa scope).2 := by
  cases present : scope.exit? with
  | none =>
    rw [exitOf_of_none present, Nfa.size_addState] at owned
    rw [exitOf_of_none present]
    exact Nat.le_antisymm (Nat.le_of_lt_succ owned) new
  | some exit =>
    rw [exitOf_of_some present] at owned
    exact absurd owned (Nat.not_lt_of_le new)

theorem quantify_eq_ok {nfa : Nfa} {entry exit : StateId} (entryOwned : entry < nfa.size)
    (exitOwned : exit < nfa.size) (quantifier : Option Quantifier) :
    ∃ updated, quantify nfa entry exit quantifier = .ok updated ∧ updated.size = nfa.size ∧
      Nfa.Extends nfa updated (quantifierEdges entry exit quantifier) := by
  match quantifier with
  | none => exact ⟨nfa, rfl, rfl, .refl nfa⟩
  | some .plus => exact Nfa.addEpsilon_eq_ok exitOwned entryOwned
  | some .star =>
    obtain ⟨back, backSuccess, backSize, backAdds⟩ := Nfa.addEpsilon_eq_ok exitOwned entryOwned
    rw [← backSize] at entryOwned exitOwned
    obtain ⟨skip, skipSuccess, skipSize, skipAdds⟩ := Nfa.addEpsilon_eq_ok entryOwned exitOwned
    refine ⟨skip, ?_, skipSize.trans backSize, backAdds.trans skipAdds⟩
    simp only [quantify, backSuccess, bind, Except.bind]
    exact skipSuccess

variable {builder : Builder}

/-- A symbol adds a state and the way to it from the current one. -/
theorem add_symbol (current : builder.current < builder.nfa.size) (offset : Nat) (c : Symbol)
    (quantifier : Option Quantifier) :
    ∃ nfa, builder.add ⟨offset, .symbol c quantifier⟩ =
        .ok { builder with nfa, current := builder.nfa.size } ∧
      nfa.size = builder.nfa.size + 1 ∧
      Nfa.Extends builder.nfa nfa (symbolEdges builder.current c builder.nfa.size quantifier) := by
  have grown : builder.nfa.addState.size = builder.nfa.size + 1 := builder.nfa.size_addState
  have source : builder.current < builder.nfa.addState.size := grown ▸ Nat.lt_succ_of_lt current
  have target : builder.nfa.size < builder.nfa.addState.size := by omega
  have added := Nfa.extends_addState builder.nfa
  match quantifier with
  | none =>
    obtain ⟨nfa, success, sameSize, adds⟩ := Nfa.addLetter_eq_ok c source target
    refine ⟨nfa, ?_, sameSize.trans grown, ?_⟩
    · change Except.mapError Error.fault (builder.addSymbol c none) = _
      simp only [addSymbol, success, bind, Except.bind, Except.mapError]
    · simpa [symbolEdges] using added.trans adds
  | some .plus =>
    obtain ⟨first, firstSuccess, firstSize, firstAdds⟩ := Nfa.addLetter_eq_ok c source target
    rw [← firstSize] at target
    obtain ⟨nfa, success, sameSize, adds⟩ := Nfa.addLetter_eq_ok c target target
    refine ⟨nfa, ?_, (sameSize.trans firstSize).trans grown, ?_⟩
    · change Except.mapError Error.fault (builder.addSymbol c (some .plus)) = _
      simp only [addSymbol, firstSuccess, success, bind, Except.bind, Except.mapError]
    · simpa [symbolEdges] using (added.trans firstAdds).trans adds
  | some .star =>
    obtain ⟨first, firstSuccess, firstSize, firstAdds⟩ := Nfa.addEpsilon_eq_ok source target
    rw [← firstSize] at target
    obtain ⟨nfa, success, sameSize, adds⟩ := Nfa.addLetter_eq_ok c target target
    refine ⟨nfa, ?_, (sameSize.trans firstSize).trans grown, ?_⟩
    · change Except.mapError Error.fault (builder.addSymbol c (some .star)) = _
      simp only [addSymbol, firstSuccess, success, bind, Except.bind, Except.mapError]
    · simpa [symbolEdges] using (added.trans firstAdds).trans adds

/-- An opening parenthesis adds the entry of a group. -/
theorem add_opening (current : builder.current < builder.nfa.size) (offset : Nat) :
    ∃ nfa, builder.add ⟨offset, .opening⟩ = .ok { builder with
        nfa, current := builder.nfa.size
        groups := ⟨offset, { entry := builder.nfa.size }⟩ :: builder.groups } ∧
      nfa.size = builder.nfa.size + 1 ∧
      Nfa.Extends builder.nfa nfa (.single builder.current none builder.nfa.size) := by
  have grown : builder.nfa.addState.size = builder.nfa.size + 1 := builder.nfa.size_addState
  have source : builder.current < builder.nfa.addState.size := grown ▸ Nat.lt_succ_of_lt current
  have target : builder.nfa.size < builder.nfa.addState.size := by omega
  obtain ⟨nfa, success, sameSize, adds⟩ := Nfa.addEpsilon_eq_ok source target
  refine ⟨nfa, ?_, sameSize.trans grown, ?_⟩
  · change Except.mapError Error.fault (builder.openGroup offset) = _
    simp only [openGroup, success, bind, Except.bind, Except.mapError]
  · simpa using (Nfa.extends_addState builder.nfa).trans adds

/-- A closing parenthesis joins the last alternative to the exit of the innermost group. -/
theorem add_closing (current : builder.current < builder.nfa.size) (offset : Nat)
    (quantifier : Option Quantifier) {group : OpenGroup} {groups : List OpenGroup}
    (innermost : builder.groups = group :: groups) (within : group.scope.Within builder.nfa.size) :
    let exit := (exitOf builder.nfa group.scope).2
    ∃ nfa, builder.add ⟨offset, .closing quantifier⟩ = .ok { builder with nfa, current := exit, groups } ∧
      nfa.size = (exitOf builder.nfa group.scope).1.size ∧
      Nfa.Extends builder.nfa nfa
        (quantifierEdges group.scope.entry exit quantifier ⊔ .single builder.current none exit) := by
  intro exit
  have added := extends_exitOf builder.nfa group.scope
  have exitOwned : exit < (exitOf builder.nfa group.scope).1.size := exitOf_lt within
  have entryOwned := Nat.lt_of_lt_of_le within.1 added.size_le
  have source := Nat.lt_of_lt_of_le current added.size_le
  obtain ⟨quantified, quantifySuccess, quantifiedSize, quantifies⟩ :=
    quantify_eq_ok entryOwned exitOwned quantifier
  rw [← quantifiedSize] at source exitOwned
  obtain ⟨nfa, success, sameSize, joins⟩ := Nfa.addEpsilon_eq_ok source exitOwned
  refine ⟨nfa, ?_, sameSize.trans quantifiedSize, ?_⟩
  · change builder.closeGroup offset quantifier = _
    unfold closeGroup
    rw [innermost]
    change (do
      let nfa ← Except.mapError Error.fault
        (quantify (exitOf builder.nfa group.scope).1 group.scope.entry exit quantifier)
      let nfa ← Except.mapError Error.fault (nfa.addEpsilon builder.current exit)
      .ok { builder with nfa, current := exit, groups }) = _
    simp only [quantifySuccess, success, bind, Except.bind, Except.mapError]
  · simpa using added.trans (quantifies.trans joins)

/-- The next alternative begins at the entry of its scope, and the one before it is joined to the
exit. -/
theorem add_bar (current : builder.current < builder.nfa.size) (offset : Nat)
    (within : builder.scope.Within builder.nfa.size) :
    let exit := (exitOf builder.nfa builder.scope).2
    ∃ nfa, builder.add ⟨offset, .bar⟩ = .ok { builder.withScope { builder.scope with exit? := some exit } with
        nfa, current := builder.scope.entry } ∧
      nfa.size = (exitOf builder.nfa builder.scope).1.size ∧
      Nfa.Extends builder.nfa nfa (.single builder.current none exit) := by
  intro exit
  have added := extends_exitOf builder.nfa builder.scope
  have exitOwned : exit < (exitOf builder.nfa builder.scope).1.size := exitOf_lt within
  have source := Nat.lt_of_lt_of_le current added.size_le
  obtain ⟨nfa, success, sameSize, joins⟩ := Nfa.addEpsilon_eq_ok source exitOwned
  have next : builder.nextAlternative builder.scope =
      .ok (nfa, { builder.scope with exit? := some exit }) := by
    simp only [nextAlternative, bind, Except.bind]
    rw [success]
  refine ⟨nfa, ?_, sameSize, by simpa using added.trans joins⟩
  change Except.mapError Error.fault builder.alternate = _
  unfold alternate
  cases open_ : builder.groups with
  | nil =>
    simp only [scope, open_] at next
    simp only [scope, withScope, open_, next, bind, Except.bind, Except.mapError]
  | cons group groups =>
    simp only [scope, open_] at next
    simp only [scope, withScope, open_, next, bind, Except.bind, Except.mapError]

end Builder

end PatternAutomata.Pattern
