import PatternAutomata.Proofs.Pattern.Nesting

/-! # What a spelled part builds

Adding the tokens of a part of a pattern attaches a fragment that spells the words of its tree. Items
and alternatives are attached at the current state and move it on (`Attached`); alternatives with
bars between them fill a scope, whose exit collects all of them but the last (`Filled`). Each rule of
the grammar is a lemma about fragments, and `builds_of_spelled` is the induction over the rules.
-/

namespace PatternAutomata.Pattern

namespace Builder

variable {before middle after : Builder} {edge first second : EdgeRelation} {tree : Tree}

/-- A fragment has been attached at the current state, and leads from there to the new one. -/
structure Attached (before after : Builder) (edge : EdgeRelation) (tree : Tree) : Prop where
  root : after.root = before.root
  groups : after.groups = before.groups
  adds : Nfa.Extends before.nfa after.nfa edge
  confined : Confined edge before.current before.nfa.size after.nfa.size
  current : after.current = before.current ∨ before.nfa.size ≤ after.current
  spells : ∀ word, Trace edge before.current word after.current ↔ tree.Denotes word

/-- The innermost scope has been filled: what its alternatives spell leads to the current state or to
the exit, which nothing leaves. -/
structure Filled (before after : Builder) (exit? : Option StateId) (edge : EdgeRelation) (tree : Tree) :
    Prop where
  root : after.root = (before.withScope { before.scope with exit? }).root
  groups : after.groups = (before.withScope { before.scope with exit? }).groups
  adds : Nfa.Extends before.nfa after.nfa edge
  confined : Confined edge before.scope.entry before.nfa.size after.nfa.size
  current : after.current = before.scope.entry ∨ before.nfa.size ≤ after.current
  exit : ∀ exit, exit? = some exit → before.nfa.size ≤ exit ∧ exit < after.nfa.size ∧
    exit ≠ after.current ∧ ∀ label t, ¬ edge exit label t
  spells : ∀ word, Trace edge before.scope.entry word after.current ∨
    (∃ exit, exit? = some exit ∧ Trace edge before.scope.entry word exit) ↔ tree.Denotes word

theorem scope_eq (root : after.root = before.root) (groups : after.groups = before.groups) :
    after.scope = before.scope := by
  simp only [scope, root, groups]

theorem scope_withScope (builder : Builder) (scope : Scope) : (builder.withScope scope).scope = scope := by
  unfold withScope Builder.scope
  split
  · rename_i none
    split at none
    · rfl
    · cases none
  · rename_i some
    split at some
    · rename_i none
      rw [none] at some
      cases some
    · cases some
      rfl

theorem withScope_scope (builder : Builder) : builder.withScope builder.scope = builder := by
  obtain ⟨nfa, current, root, groups⟩ := builder
  cases groups <;> rfl

/-- The scope that replaces the innermost one is all that is kept of it. -/
theorem withScope_again {scope : Scope} (root : after.root = (before.withScope scope).root)
    (groups : after.groups = (before.withScope scope).groups) (other : Scope) :
    (after.withScope other).root = (before.withScope other).root ∧
      (after.withScope other).groups = (before.withScope other).groups := by
  obtain ⟨nfa, current, afterRoot, afterGroups⟩ := after
  obtain ⟨nfa', current', beforeRoot, beforeGroups⟩ := before
  subst root groups
  cases beforeGroups with
  | nil => exact ⟨rfl, rfl⟩
  | cons group groups => exact ⟨rfl, rfl⟩

theorem Filled.scope {exit? : Option StateId} (filled : Filled before after exit? edge tree) :
    after.scope = { before.scope with exit? } :=
  (scope_eq filled.root filled.groups).trans (scope_withScope _ _)

theorem attached_nothing (builder : Builder) : Attached builder builder ⊥ .nothing where
  root := rfl
  groups := rfl
  adds := .refl builder.nfa
  confined := ⟨nofun, nofun⟩
  current := .inl rfl
  spells word := by
    rw [Tree.denotes_nothing_iff]
    constructor
    · intro trace
      exact (trace.eq_of_sink nofun).1
    · rintro rfl
      exact .nil _

/-- A further item is attached where the ones before it lead. -/
theorem Attached.sequence {other : Tree} (valid : before.WellFormed) (inside : middle.WellFormed)
    (left : Attached before middle first tree) (right : Attached middle after second other)
    (moved : middle.nfa.size ≤ after.current) :
    Attached before after (first ⊔ second) (.sequence tree other) where
  root := right.root.trans left.root
  groups := right.groups.trans left.groups
  adds := left.adds.trans right.adds
  confined := left.confined.sequence right.confined left.current inside.current left.adds.size_le
    right.adds.size_le
  current := .inr (Nat.le_trans left.adds.size_le moved)
  spells word := by
    rw [trace_sequence_iff left.confined right.confined valid.current left.adds.size_le moved,
      Tree.denotes_sequence_iff]
    simp only [left.spells, right.spells]

theorem exists_attached_symbol (valid : before.WellFormed) (offset : Nat) (c : Symbol)
    (quantifier : Option Quantifier) :
    ∃ after edge, before.add ⟨offset, .symbol c quantifier⟩ = .ok after ∧
      Attached before after edge (Tree.quantified (.symbol c) quantifier) ∧
      before.nfa.size ≤ after.current := by
  obtain ⟨nfa, success, grown, adds⟩ := add_symbol valid.current offset c quantifier
  refine ⟨_, _, success, ⟨rfl, rfl, adds, ?_, .inr (Nat.le_refl _), ?_⟩, Nat.le_refl _⟩
  · exact grown ▸ confined_symbolEdges c quantifier
  · exact trace_symbolEdges_iff valid.current c quantifier

/-- The innermost scope is empty so far: nothing has been attached at its entry. -/
structure Fresh (builder : Builder) : Prop where
  current : builder.current = builder.scope.entry
  exit : builder.scope.exit? = none

/-- A single alternative fills a scope without an exit. -/
theorem Attached.filled (fresh : before.Fresh) (attached : Attached before after edge tree) :
    Filled before after none edge tree := by
  have same : before.withScope { before.scope with exit? := none } = before := by
    rw [← fresh.exit]
    exact withScope_scope before
  refine ⟨?_, ?_, attached.adds, ?_, ?_, nofun, fun word => ?_⟩
  · rw [same, attached.root]
  · rw [same, attached.groups]
  · exact fresh.current ▸ attached.confined
  · exact fresh.current ▸ attached.current
  · simp [← fresh.current, attached.spells]

/-- All alternatives of a scope have been joined to its exit, which nothing leaves. -/
structure Joined (edge : EdgeRelation) (entry exit low high : Nat) (tree : Tree) : Prop where
  confined : Confined edge entry low high
  above : low ≤ exit
  below : exit < high
  sink : ∀ label t, ¬ edge exit label t
  spells : ∀ word, Trace edge entry word exit ↔ tree.Denotes word

/-- Joining the last alternative to a state that nothing leaves joins all, if this is the exit that
the others have been joined to. -/
theorem Filled.joined {exit? : Option StateId} {exit high : Nat} (inside : after.WellFormed)
    (filled : Filled before after exit? edge tree) (above : before.nfa.size ≤ exit) (below : exit < high)
    (le : after.nfa.size ≤ high) (apart : exit ≠ after.current) (sink : ∀ label t, ¬ edge exit label t)
    (reaches : ∀ word, Trace edge before.scope.entry word exit ↔
      ∃ x, exit? = some x ∧ Trace edge before.scope.entry word x) :
    Joined (edge ⊔ .single after.current none exit) before.scope.entry exit before.nfa.size high tree where
  confined := by
    constructor
    · rintro s label t (old | ⟨rfl, -, -⟩)
      · exact (filled.confined.leaves s label t old).imp_right fun inside =>
          ⟨inside.1, Nat.lt_of_lt_of_le inside.2 le⟩
      · exact filled.current.imp_right fun above => ⟨above, Nat.lt_of_lt_of_le inside.current le⟩
    · rintro s label t (old | ⟨-, -, rfl⟩)
      · have entered := filled.confined.enters s label t old
        exact ⟨entered.1, Nat.lt_of_lt_of_le entered.2 le⟩
      · exact ⟨above, below⟩
  above := above
  below := below
  sink := by
    rintro label t (old | ⟨same, -, -⟩)
    · exact sink label t old
    · exact apart same
  spells word := by rw [trace_join_iff sink, reaches, filled.spells]

/-- Joining the last alternative to the exit of its scope, which may be a new state, joins all. -/
theorem Filled.join {exit? : Option StateId} (valid : before.WellFormed) (inside : after.WellFormed)
    (filled : Filled before after exit? edge tree) :
    Joined (edge ⊔ .single after.current none (exitOf after.nfa after.scope).2) before.scope.entry
      (exitOf after.nfa after.scope).2 before.nfa.size (exitOf after.nfa after.scope).1.size tree := by
  rw [filled.scope]
  cases exit? with
  | none =>
    rw [exitOf_of_none rfl]
    have larger : before.nfa.size ≤ after.nfa.size := filled.adds.size_le
    have grown : after.nfa.addState.size = after.nfa.size + 1 := after.nfa.size_addState
    have entryBelow := Nat.lt_of_lt_of_le valid.scope.1 larger
    have unentered (s : Nat) (label : Option Symbol) : ¬ edge s label after.nfa.size := fun edge =>
      Nat.lt_irrefl _ (filled.confined.enters s label _ edge).2
    have sink (label : Option Symbol) (t : Nat) : ¬ edge after.nfa.size label t := by
      intro edge
      rcases filled.confined.leaves _ label t edge with same | inside
      · exact Nat.ne_of_gt entryBelow same
      · exact Nat.lt_irrefl _ inside.2
    have unreached (word : List Symbol) : ¬ Trace edge before.scope.entry word after.nfa.size := fun trace =>
      Nat.ne_of_lt entryBelow (trace.eq_of_unentered unentered).2
    exact filled.joined inside larger (grown ▸ Nat.lt_succ_self _) (grown ▸ Nat.le_succ _)
      (Nat.ne_of_gt inside.current) sink (by simpa using unreached)
  | some exit =>
    rw [exitOf_of_some rfl]
    obtain ⟨above, below, apart, sink⟩ := filled.exit exit rfl
    exact filled.joined inside above below (Nat.le_refl _) apart sink (by simp)

/-- A further alternative is attached at the entry, and the ones before it are joined to the exit. -/
theorem Joined.choice {next : Builder} {exit : Nat} {other : Tree} (valid : before.WellFormed)
    (entry : middle.current = before.scope.entry)
    (root : middle.root = (before.withScope { before.scope with exit? := some exit }).root)
    (groups : middle.groups = (before.withScope { before.scope with exit? := some exit }).groups)
    (adds : Nfa.Extends before.nfa middle.nfa first)
    (joined : Joined first before.scope.entry exit before.nfa.size middle.nfa.size tree)
    (attached : Attached middle next second other) :
    Filled before next (some exit) (first ⊔ second) (.choice tree other) := by
  have entryOwned : before.scope.entry < before.nfa.size := valid.scope.1
  have lowMiddle : before.nfa.size ≤ middle.nfa.size := adds.size_le
  have middleHigh : middle.nfa.size ≤ next.nfa.size := attached.adds.size_le
  have entryExit := Nat.lt_of_lt_of_le entryOwned joined.above
  have confined := attached.confined
  have current := attached.current
  have spells := attached.spells
  rw [entry] at confined current spells
  refine ⟨attached.root.trans root, attached.groups.trans groups, adds.trans attached.adds, ?_, ?_, ?_, ?_⟩
  · exact joined.confined.sequence confined (.inl rfl) (Nat.lt_of_lt_of_le entryOwned lowMiddle) lowMiddle
      middleHigh
  · exact current.imp_right (Nat.le_trans lowMiddle)
  · rintro exit' ⟨⟩
    refine ⟨joined.above, Nat.lt_of_lt_of_le joined.below middleHigh, ?_, ?_⟩
    · rcases current with same | later
      · exact same ▸ Nat.ne_of_gt entryExit
      · exact Nat.ne_of_lt (Nat.lt_of_lt_of_le joined.below later)
    · rintro label t (edge | edge)
      · exact joined.sink label t edge
      · rcases confined.leaves exit label t edge with same | inside
        · exact Nat.ne_of_gt entryExit same
        · exact Nat.not_lt_of_le inside.1 joined.below
  · intro word
    rw [Tree.denotes_choice_iff, or_comm,
      trace_alternative_iff joined.confined confined entryOwned lowMiddle current, spells]
    apply or_congr_left
    simp only [Option.some.injEq, exists_eq_left']
    rw [trace_earlier_iff joined.confined confined entryOwned lowMiddle joined.below, joined.spells]

/-- A closed group is reached from where it is attached by an edge to its entry, and quantified by
edges between its entry and its exit. -/
theorem Joined.group {current low high exit : Nat} (joined : Joined edge low exit (low + 1) high tree)
    (below : current < low) (quantifier : Option Quantifier) :
    let whole := EdgeRelation.single current none low ⊔ (edge ⊔ quantifierEdges low exit quantifier)
    Confined whole current low high ∧
      ∀ word, Trace whole current word exit ↔ (tree.quantified quantifier).Denotes word := by
  intro whole
  have above := joined.above
  have exitBelow := joined.below
  have inner (s t : Nat) (label : Option Symbol)
      (added : (edge ⊔ quantifierEdges low exit quantifier) s label t) :
      (low ≤ s ∧ s < high) ∧ low ≤ t ∧ t < high := by
    rcases added with body | around
    · have left := joined.confined.leaves s label t body
      have entered := joined.confined.enters s label t body
      omega
    · have ends := quantifierEdges_ends around
      omega
  have only (label : Option Symbol) (t : Nat) : whole current label t ↔ label = none ∧ t = low := by
    constructor
    · rintro (⟨-, none, same⟩ | added)
      · exact ⟨none, same⟩
      · have left := (inner current t label added).1.1
        omega
    · rintro ⟨rfl, rfl⟩
      exact .inl ⟨rfl, rfl, rfl⟩
  constructor
  · constructor
    · rintro s label t (⟨same, -, -⟩ | added)
      · exact .inl same
      · exact .inr (inner s t label added).1
    · rintro s label t (⟨-, -, rfl⟩ | added)
      · omega
      · exact (inner s t label added).2
  · intro word
    have unentered (s : Nat) (label : Option Symbol) : ¬ edge s label low := fun body =>
      Nat.not_succ_le_self low (joined.confined.enters s label low body).1
    rw [Trace.first_iff only (by omega),
      ← trace_quantified_iff unentered joined.sink quantifier joined.spells]
    simp only [Option.toList_none, List.nil_append, exists_eq_left']
    refine ⟨fun trace => ?_, .mono le_sup_right⟩
    refine trace.restrict (low ≤ ·) ?_ (Nat.le_refl low)
    rintro s label t inside (⟨rfl, -, -⟩ | added)
    · omega
    · exact ⟨added, (inner s t label added).2.1⟩

/-- A run over the tokens of a part goes through and builds what its tree denotes. -/
def Builds : Role → List Token → Tree → Prop
  | .atom, _, _ => True
  | .item, tokens, tree => ∀ (before : Builder) (lexemes : List Lexeme), before.WellFormed →
      lexemes.map Lexeme.token = tokens →
      ∃ after edge, lexemes.foldlM Builder.add before = .ok after ∧ Attached before after edge tree ∧
        before.nfa.size ≤ after.current
  | .alternative, tokens, tree => ∀ (before : Builder) (lexemes : List Lexeme), before.WellFormed →
      lexemes.map Lexeme.token = tokens →
      ∃ after edge, lexemes.foldlM Builder.add before = .ok after ∧ Attached before after edge tree
  | .whole, tokens, tree => ∀ (before : Builder) (lexemes : List Lexeme), before.WellFormed →
      before.Fresh → lexemes.map Lexeme.token = tokens →
      ∃ after exit? edge, lexemes.foldlM Builder.add before = .ok after ∧
        Filled before after exit? edge tree

theorem builds_symbol {c : Char} (quantifier : Option Quantifier) :
    Builds .item [.symbol c quantifier] (Tree.quantified (.symbol c) quantifier) := by
  intro before lexemes valid spelled
  obtain ⟨⟨offset, _⟩, rfl, rfl⟩ := List.map_eq_singleton_iff.mp spelled
  obtain ⟨after, edge, success, attached, moved⟩ := exists_attached_symbol valid offset c quantifier
  exact ⟨after, edge, foldlM_cons_eq_ok_iff.mpr ⟨after, success, rfl⟩, attached, moved⟩

theorem builds_group {tokens : List Token} {tree : Tree} (inner : Builds .whole tokens tree)
    (quantifier : Option Quantifier) :
    Builds .item (.opening :: (tokens ++ [.closing quantifier])) (tree.quantified quantifier) := by
  intro before lexemes valid spelled
  obtain ⟨⟨start, _⟩, lexemes, rfl, rfl, spelledRest⟩ := List.map_eq_cons_iff.mp spelled
  obtain ⟨body, last, rfl, spelledBody, spelledLast⟩ := List.map_eq_append_iff.mp spelledRest
  obtain ⟨⟨stop, _⟩, rfl, rfl⟩ := List.map_eq_singleton_iff.mp spelledLast
  obtain ⟨opened, openSuccess, openedSize, openAdds⟩ := add_opening valid.current start
  have entered := valid.add openSuccess
  obtain ⟨filled, exit?, edge, fillSuccess, fills⟩ := inner _ body entered ⟨rfl, rfl⟩ spelledBody
  have inside := entered.foldlM fillSuccess
  have innermost : filled.groups = ⟨start, filled.scope⟩ :: before.groups := by
    rw [fills.scope]
    exact fills.groups
  obtain ⟨closed, closeSuccess, closedSize, closeAdds⟩ :=
    add_closing inside.current stop quantifier innermost inside.scope
  have joined := fills.join entered inside
  rw [← closedSize] at joined
  change Joined _ before.nfa.size _ opened.size _ _ at joined
  rw [openedSize] at joined
  obtain ⟨confined, spells⟩ := joined.group valid.current quantifier
  have adds := openAdds.trans (fills.adds.trans closeAdds)
  rw [sup_comm (quantifierEdges _ _ _), ← sup_assoc edge] at adds
  have entry : filled.scope.entry = before.nfa.size := by
    rw [fills.scope]
    rfl
  rw [entry] at adds
  have closes : [Lexeme.mk stop (.closing quantifier)].foldlM add filled = .ok _ :=
    foldlM_cons_eq_ok_iff.mpr ⟨_, closeSuccess, rfl⟩
  have fillsAndCloses := foldlM_append_eq_ok_iff.mpr ⟨_, fillSuccess, closes⟩
  have run := foldlM_cons_eq_ok_iff.mpr ⟨_, openSuccess, fillsAndCloses⟩
  refine ⟨_, _, run, ⟨?_, rfl, adds, confined, ?_, spells⟩, ?_⟩
  · exact fills.root
  · exact .inr (Nat.le_of_succ_le joined.above)
  · exact Nat.le_of_succ_le joined.above

theorem builds_choice {front tokens : List Token} {tree other : Tree} (whole : Builds .whole front tree)
    (alternative : Builds .alternative tokens other) :
    Builds .whole (front ++ .bar :: tokens) (.choice tree other) := by
  intro before lexemes valid fresh spelled
  obtain ⟨first, rest, rfl, spelledFirst, spelledRest⟩ := List.map_eq_append_iff.mp spelled
  obtain ⟨⟨offset, _⟩, second, rfl, rfl, spelledSecond⟩ := List.map_eq_cons_iff.mp spelledRest
  obtain ⟨filled, exit?, edge, fillSuccess, fills⟩ := whole before first valid fresh spelledFirst
  have inside := valid.foldlM fillSuccess
  obtain ⟨nfa, barSuccess, barSize, barAdds⟩ := add_bar inside.current offset inside.scope
  have joined := fills.join valid inside
  rw [← barSize] at joined
  obtain ⟨after, added, success, attached⟩ :=
    alternative _ second (inside.add barSuccess) spelledSecond
  have entry : filled.scope.entry = before.scope.entry := by rw [fills.scope]
  have kept : { filled.scope with exit? := some (exitOf filled.nfa filled.scope).2 } =
      { before.scope with exit? := some (exitOf filled.nfa filled.scope).2 } := by
    rw [Scope.mk.injEq]
    exact ⟨entry, rfl⟩
  obtain ⟨root, groups⟩ := withScope_again fills.root fills.groups
    { before.scope with exit? := some (exitOf filled.nfa filled.scope).2 }
  rw [← kept] at root groups
  have later := foldlM_cons_eq_ok_iff.mpr ⟨_, barSuccess, success⟩
  have run := foldlM_append_eq_ok_iff.mpr ⟨_, fillSuccess, later⟩
  refine ⟨after, _, _, run, joined.choice valid entry ?_ ?_ (fills.adds.trans barAdds) attached⟩
  · rw [← kept]
    exact root
  · rw [← kept]
    exact groups

/-- A run over the tokens of a part builds what the part denotes. -/
theorem builds_of_spelled {role : Role} {tokens : List Token} {tree : Tree}
    (spelled : Spelled role tokens tree) : Builds role tokens tree := by
  induction spelled with
  | symbol _ quantifier => exact builds_symbol quantifier
  | group _ quantifier ih => exact builds_group ih quantifier
  | nothing =>
    intro before lexemes _ spelled
    obtain rfl := List.map_eq_nil_iff.mp spelled
    exact ⟨before, _, rfl, attached_nothing before⟩
  | sequence _ _ ihFront ihItem =>
    intro before lexemes valid spelled
    obtain ⟨first, second, rfl, spelledFirst, spelledSecond⟩ := List.map_eq_append_iff.mp spelled
    obtain ⟨middle, edge, left, attached⟩ := ihFront before first valid spelledFirst
    have inside := valid.foldlM left
    obtain ⟨after, added, right, next, moved⟩ := ihItem middle second inside spelledSecond
    have run := foldlM_append_eq_ok_iff.mpr ⟨_, left, right⟩
    exact ⟨after, _, run, attached.sequence valid inside next moved⟩
  | single _ ih =>
    intro before lexemes valid fresh spelled
    obtain ⟨after, edge, success, attached⟩ := ih before lexemes valid spelled
    exact ⟨after, none, edge, success, attached.filled fresh⟩
  | choice _ _ ihFront ih => exact builds_choice ihFront ih

end Builder

end PatternAutomata.Pattern
