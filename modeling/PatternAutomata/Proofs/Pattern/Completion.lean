import PatternAutomata.Proofs.Pattern.Nesting

/-! # Every state of a pattern's automaton leads to acceptance

While a pattern is read, every state leads on: to the current state or to the exit of an open scope
(`Builder.Pending`). Every token keeps this up. When the pattern ends, the current state is joined to the
exit that is left, if there is one, and accepts otherwise, so no state of the automaton is dead
(`live_of_ofPattern`).
-/

namespace PatternAutomata.Pattern

namespace Builder

variable {builder next : Builder} {id target : StateId}

/-- A state to which something is still to be attached: the current one, or the exit of an open scope. -/
def Pending (builder : Builder) (id : StateId) : Prop :=
  id = builder.current ∨ builder.root.exit? = some id ∨ ∃ group ∈ builder.groups, group.scope.exit? = some id

/-- The state leads to one to which something is still to be attached. -/
def LeadsOn (builder : Builder) (id : StateId) : Prop :=
  ∃ word target, Trace builder.nfa.Edge id word target ∧ builder.Pending target

theorem Pending.leadsOn (pending : builder.Pending id) : builder.LeadsOn id := ⟨[], id, .nil id, pending⟩

theorem leadsOn_of_edge {label : Option Symbol} (edge : builder.nfa.Edge id label target)
    (pending : builder.Pending target) : builder.LeadsOn id := ⟨_, target, .ofEdge edge, pending⟩

theorem pending_current (builder : Builder) : builder.Pending builder.current := .inl rfl

def AllLeadOn (builder : Builder) : Prop := ∀ id < builder.nfa.size, builder.LeadsOn id

/-- States lead on as before if those lead on that something was still to be attached to, and the new
ones. -/
theorem AllLeadOn.extend {edge : EdgeRelation} (leads : builder.AllLeadOn)
    (adds : Nfa.Extends builder.nfa next.nfa edge) (pending : ∀ id, builder.Pending id → next.LeadsOn id)
    (fresh : ∀ id < next.nfa.size, builder.nfa.size ≤ id → next.LeadsOn id) : next.AllLeadOn := by
  intro id owned
  rcases Nat.lt_or_ge id builder.nfa.size with old | new
  · obtain ⟨word, target, trace, isPending⟩ := leads id old
    obtain ⟨more, last, rest, lastPending⟩ := pending target isPending
    exact ⟨word ++ more, last, (trace.mono adds.old_le).append rest, lastPending⟩
  · exact fresh id owned new

theorem allLeadOn_start : Builder.start.AllLeadOn := by
  intro id owned
  obtain rfl : id = StateId.start := Nat.lt_one_iff.mp owned
  exact start.pending_current.leadsOn

/-- Giving the innermost scope an exit makes it one that something is still to be attached to, and keeps
those that were. -/
theorem pending_withExit (builder : Builder) (nfa : Nfa) (current exit : StateId)
    (same : ∀ old, builder.scope.exit? = some old → old = exit) :
    let after : Builder := { builder.withScope { builder.scope with exit? := some exit } with nfa, current }
    after.Pending exit ∧ ∀ id, builder.Pending id → id = builder.current ∨ after.Pending id := by
  intro after
  cases innermost : builder.groups with
  | nil =>
    have root : after.root.exit? = some exit := by simp [after, withScope, innermost]
    refine ⟨.inr (.inl root), fun id pending => ?_⟩
    rcases pending with current | old | ⟨group, member, -⟩
    · exact .inl current
    · have scope : builder.scope = builder.root := by simp [scope, innermost]
      obtain rfl := same id (scope ▸ old)
      exact .inr (.inr (.inl root))
    · simp [innermost] at member
  | cons group groups =>
    have scope : builder.scope = group.scope := by simp [scope, innermost]
    have opened : after.groups = { group with scope := { group.scope with exit? := some exit } } :: groups := by
      simp [after, withScope, innermost, scope]
    have pending : after.Pending exit := .inr (.inr ⟨_, opened ▸ List.mem_cons_self .., rfl⟩)
    refine ⟨pending, fun id => ?_⟩
    rintro (current | old | ⟨other, member, old⟩)
    · exact .inl current
    · exact .inr (.inr (.inl (by simpa [after, withScope, innermost] using old)))
    · rw [innermost] at member
      rcases List.mem_cons.mp member with rfl | outer
      · obtain rfl := same id (scope ▸ old)
        exact .inr pending
      · exact .inr (.inr (.inr ⟨other, opened ▸ List.mem_cons_of_mem _ outer, old⟩))

/-- Taking a token keeps up that every state leads on. -/
theorem AllLeadOn.takes (leads : builder.AllLeadOn) {lexeme : Lexeme} (takes : builder.Takes lexeme next) :
    next.AllLeadOn := by
  cases takes with
  | @symbol nfa _ c quantifier grown adds =>
    apply leads.extend adds
    · rintro id (rfl | root | group)
      · obtain ⟨label, edge⟩ := exists_symbolEdges_fresh builder.current builder.nfa.size c quantifier
        exact leadsOn_of_edge (adds.added_le _ _ _ edge) (pending_current _)
      · exact Pending.leadsOn (.inr (.inl root))
      · exact Pending.leadsOn (.inr (.inr group))
    · intro id owned new
      obtain rfl := Nat.eq_of_le_of_lt_succ new (grown ▸ owned)
      exact Pending.leadsOn (pending_current _)
  | opening nfa grown adds =>
    apply leads.extend adds
    · rintro id (rfl | root | ⟨group, member, exit⟩)
      · exact leadsOn_of_edge (adds.added_le _ _ _ ⟨rfl, rfl, rfl⟩) (pending_current _)
      · exact Pending.leadsOn (.inr (.inl root))
      · exact Pending.leadsOn (.inr (.inr ⟨group, List.mem_cons_of_mem _ member, exit⟩))
    · intro id owned new
      obtain rfl := Nat.eq_of_le_of_lt_succ new (grown ▸ owned)
      exact Pending.leadsOn (pending_current _)
  | closing nfa group groups innermost within grown adds =>
    apply leads.extend adds
    · rintro id (rfl | root | ⟨open_, member, exit⟩)
      · exact leadsOn_of_edge (adds.added_le _ _ _ (.inr ⟨rfl, rfl, rfl⟩)) (pending_current _)
      · exact Pending.leadsOn (.inr (.inl root))
      · rw [innermost] at member
        rcases List.mem_cons.mp member with rfl | outer
        · exact Pending.leadsOn (.inl (by rw [exitOf_of_some exit]))
        · exact Pending.leadsOn (.inr (.inr ⟨open_, outer, exit⟩))
    · intro id owned new
      exact Pending.leadsOn (.inl (eq_exitOf (grown ▸ owned) new))
  | bar nfa grown adds =>
    obtain ⟨exitPending, kept⟩ := builder.pending_withExit nfa builder.scope.entry
      (exitOf builder.nfa builder.scope).2 fun old present => by rw [exitOf_of_some present]
    apply leads.extend adds
    · intro id pending
      rcases kept id pending with rfl | stays
      · exact leadsOn_of_edge (adds.added_le _ _ _ ⟨rfl, rfl, rfl⟩) exitPending
      · exact stays.leadsOn
    · intro id owned new
      obtain rfl := eq_exitOf (grown ▸ owned) new
      exact exitPending.leadsOn

/-- After a run over tokens without an error every state leads on. -/
theorem AllLeadOn.foldlM {lexemes : List Lexeme} (leads : builder.AllLeadOn) (valid : builder.WellFormed)
    (success : lexemes.foldlM Builder.add builder = .ok next) : next.AllLeadOn :=
  valid.foldlM_takes leads success fun _ _ _ _ takes leads => leads.takes takes

/-- Ending a pattern without open groups leaves one state to which something was still to be attached,
and this accepts. -/
theorem AllLeadOn.live (leads : builder.AllLeadOn) (valid : builder.WellFormed)
    (closed : builder.groups = []) {nfa : Nfa} (success : builder.finish = .ok nfa) :
    0 < nfa.size ∧ ∀ id < nfa.size, nfa.Live id := by
  obtain ⟨built, builds, size, edges, -, accepts⟩ := finish_eq_ok valid closed
  obtain rfl := Except.ok.inj (success.symm.trans builds)
  -- without groups only the current state and the exit of the whole pattern are pending
  have ends (id : StateId) (pending : builder.Pending id) : ∃ word target,
      Trace nfa.Edge id word target ∧ nfa.Accepting target := by
    cases exit : builder.root.exit? with
    | none =>
      have current : id = builder.current := by simpa [Pending, closed, exit] using pending
      exact ⟨[], id, .nil id, (accepts id).mpr (by simp [exit, current])⟩
    | some last =>
      have accepting : nfa.Accepting last := (accepts last).mpr (by simp [exit])
      have joined : nfa.Edge builder.current none last := by
        rw [edges, finalEdges, exit]
        exact .inr ⟨rfl, rfl, rfl⟩
      have cases : id = builder.current ∨ last = id := by simpa [Pending, closed, exit] using pending
      rcases cases with rfl | rfl
      · exact ⟨_, last, .ofEdge joined, accepting⟩
      · exact ⟨[], last, .nil last, accepting⟩
  refine ⟨size ▸ Nat.zero_lt_of_lt valid.current, fun id owned => ?_⟩
  obtain ⟨word, target, trace, pending⟩ := leads id (size ▸ owned)
  obtain ⟨more, last, rest, accepting⟩ := ends target pending
  have whole := (trace.mono (edges ▸ le_sup_left)).append rest
  exact ⟨word ++ more, last, Nfa.path_iff_trace.mpr whole, accepting⟩

end Builder

/-- No state of a pattern's automaton is dead, the start least of all. -/
theorem live_of_ofPattern {pattern : String} {nfa : Nfa} (success : Nfa.ofPattern pattern = .ok nfa) :
    0 < nfa.size ∧ ∀ id < nfa.size, nfa.Live id := by
  obtain ⟨builder, run, closed, ends⟩ := exists_builder_of_ofPattern success
  have valid := Builder.wellFormed_start.foldlM run
  exact (Builder.allLeadOn_start.foldlM Builder.wellFormed_start run).live valid closed ends

end PatternAutomata.Pattern
