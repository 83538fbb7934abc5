import Mathlib.Data.List.Induction
import PatternAutomata.Proofs.Pattern.FirstOffence
import PatternAutomata.Proofs.Pattern.ScopeStack
import PatternAutomata.Proofs.Pattern.Shape

/-! # Open scopes are isolated

While a pattern is read, nothing leads back to the entry of an open scope or out of its exit: only the edge that
opened it enters the entry (`Builder.exists_opener`), and no edge leaves the exit (`Builder.Isolated`). No state is the
entry or the exit of two open scopes, or both of one, so the edges that a token adds spare the scopes that it leaves
open (`Builder.Isolated.spares`). The stack of scopes has one for each parenthesis of the text that is still open, and
what is known of the states that are reached and lead on holds for it too (`ScopeStack.isolated_after_tokens`).
-/

namespace PatternAutomata.Pattern

/-- The entry of a scope and its exit, if it has one. -/
def Scope.anchors (scope : Scope) : List StateId := scope.entry :: scope.exit?.toList

theorem entry_mem_anchors {scopes : List Scope} {scope : Scope} (member : scope ∈ scopes) :
    scope.entry ∈ scopes.flatMap Scope.anchors :=
  List.mem_flatMap.mpr ⟨scope, member, List.mem_cons_self ..⟩

theorem exit_mem_anchors {scopes : List Scope} {scope : Scope} {exit : StateId} (member : scope ∈ scopes)
    (present : scope.exit? = some exit) : exit ∈ scopes.flatMap Scope.anchors :=
  List.mem_flatMap.mpr ⟨scope, member, List.mem_cons_of_mem _ (Option.mem_toList.mpr present)⟩

namespace Builder

variable {builder next : Builder} {id : StateId} {edge : EdgeRelation}

def anchors (builder : Builder) : List StateId := builder.scopes.flatMap Scope.anchors

theorem mem_scopes_iff {scope : Scope} :
    scope ∈ builder.scopes ↔ scope = builder.root ∨ ∃ group ∈ builder.groups, group.scope = scope := by
  rw [scopes, List.mem_append, List.mem_map, List.mem_singleton, or_comm]

theorem WellFormed.within (valid : builder.WellFormed) {scope : Scope} (isOpen : scope ∈ builder.scopes) :
    scope.Within builder.nfa.size := by
  rcases mem_scopes_iff.mp isOpen with rfl | ⟨group, listed, rfl⟩
  · exact valid.root
  · exact valid.groups group listed

theorem WellFormed.anchors_lt (valid : builder.WellFormed) (member : id ∈ builder.anchors) :
    id < builder.nfa.size := by
  obtain ⟨scope, isOpen, member⟩ := List.mem_flatMap.mp member
  rcases List.mem_cons.mp member with rfl | exit
  · exact (valid.within isOpen).1
  · exact (valid.within isOpen).2 id (Option.mem_toList.mp exit)

/-- Something is still to be attached to the current state and to the exits of open scopes. -/
theorem Pending.exists_exit (pending : builder.Pending id) :
    id = builder.current ∨ ∃ scope ∈ builder.scopes, scope.exit? = some id := by
  rcases pending with current | exit | ⟨group, isOpen, exit⟩
  · exact .inl current
  · exact .inr ⟨builder.root, mem_scopes_iff.mpr (.inl rfl), exit⟩
  · exact .inr ⟨group.scope, mem_scopes_iff.mpr (.inr ⟨group, isOpen, rfl⟩), exit⟩

/-- An exit that is made when it is missing is neither the entry of its scope nor an anchor of another one. -/
theorem nodup_exitOf {nfa : Nfa} {scope : Scope} {others : List StateId}
    (distinct : (scope.anchors ++ others).Nodup) (below : ∀ id ∈ scope.anchors ++ others, id < nfa.size) :
    (scope.entry :: (exitOf nfa scope).2 :: others).Nodup := by
  cases present : scope.exit? with
  | none =>
    have anchors : scope.anchors ++ others = scope.entry :: others := by simp [Scope.anchors, present]
    rw [anchors] at distinct below
    have fresh : nfa.size ∉ scope.entry :: others := fun member => Nat.lt_irrefl _ (below _ member)
    rw [exitOf_of_none present]
    exact (List.Perm.swap ..).nodup_iff.mp (List.nodup_cons.mpr ⟨fresh, distinct⟩)
  | some exit =>
    rw [exitOf_of_some present]
    simpa [Scope.anchors, present] using distinct

/-- No edge leaves the state, and nothing is attached to it next. -/
structure Sealed (builder : Builder) (id : StateId) : Prop where
  notCurrent : id ≠ builder.current
  noEdge : ∀ label target, ¬ builder.nfa.Edge id label target

/-- What is not a state yet is sealed. -/
theorem WellFormed.sealed (valid : builder.WellFormed) (fresh : builder.nfa.size ≤ id) : builder.Sealed id where
  notCurrent same := absurd valid.current (Nat.not_lt_of_le (same ▸ fresh))
  noEdge _ _ edge := absurd edge.source_lt (Nat.not_lt_of_le fresh)

/-- Open scopes have no anchor in common, the scope of the whole pattern begins at the start state, which nothing
enters, and the exits of open scopes are sealed. -/
structure Isolated (builder : Builder) : Prop where
  distinct : builder.anchors.Nodup
  root : builder.root.entry = StateId.start
  unentered : ∀ source label, ¬ builder.nfa.Edge source label builder.root.entry
  exits : ∀ scope ∈ builder.scopes, ∀ exit, scope.exit? = some exit → builder.Sealed exit

theorem isolated_start : Builder.start.Isolated where
  distinct := List.nodup_singleton _
  root := rfl
  unentered source label edge := by
    rw [show start.nfa.Edge = ⊥ from Nfa.edge_ofSize 1] at edge
    exact edge
  exits scope isOpen exit present := by
    obtain rfl : scope = { entry := StateId.start } := List.mem_singleton.mp isOpen
    cases present

theorem Isolated.sealed_exitOf (isolated : builder.Isolated) (valid : builder.WellFormed) {scope : Scope}
    (isOpen : scope ∈ builder.scopes) : builder.Sealed (exitOf builder.nfa scope).2 := by
  cases present : scope.exit? with
  | none =>
    rw [exitOf_of_none present]
    exact valid.sealed (Nat.le_refl _)
  | some exit =>
    rw [exitOf_of_some present]
    exact isolated.exits scope isOpen exit present

/-- The edges that are added enter no entry of an open scope that was there and leave no exit, and nothing is attached
to an exit next. -/
structure Spares (builder next : Builder) (edge : EdgeRelation) : Prop where
  adds : Nfa.Extends builder.nfa next.nfa edge
  distinct : next.anchors.Nodup
  entries : ∀ scope ∈ next.scopes, ∀ source label, edge source label scope.entry → builder.nfa.size ≤ scope.entry
  exits : ∀ scope ∈ next.scopes, ∀ exit, scope.exit? = some exit →
    builder.Sealed exit ∧ exit ≠ next.current ∧ ∀ label target, ¬ edge exit label target

namespace Isolated

theorem symbol (isolated : builder.Isolated) (valid : builder.WellFormed) {nfa : Nfa} {c : Symbol}
    {quantifier : Option Quantifier}
    (adds : Nfa.Extends builder.nfa nfa (symbolEdges builder.current c builder.nfa.size quantifier)) :
    Spares builder { builder with nfa, current := builder.nfa.size }
      (symbolEdges builder.current c builder.nfa.size quantifier) where
  adds := adds
  distinct := isolated.distinct
  entries _ _ _ _ added := ((confined_symbolEdges c quantifier).enters _ _ _ added).1
  exits scope isOpen exit present := by
    have pending := isolated.exits scope isOpen exit present
    have old : exit < builder.nfa.size := valid.anchors_lt (exit_mem_anchors isOpen present)
    refine ⟨pending, Nat.ne_of_lt old, fun label target added => ?_⟩
    rcases (confined_symbolEdges c quantifier).leaves _ _ _ added with same | ⟨new, -⟩
    · exact pending.notCurrent same
    · exact absurd old (Nat.not_lt_of_le new)

theorem opening (isolated : builder.Isolated) (valid : builder.WellFormed) {nfa : Nfa} (offset : Nat)
    (adds : Nfa.Extends builder.nfa nfa (.single builder.current none builder.nfa.size)) :
    Spares builder { builder with
      nfa, current := builder.nfa.size
      groups := ⟨offset, { entry := builder.nfa.size }⟩ :: builder.groups }
      (.single builder.current none builder.nfa.size) where
  adds := adds
  distinct := List.nodup_cons.mpr ⟨fun member => Nat.lt_irrefl _ (valid.anchors_lt member), isolated.distinct⟩
  entries _ _ _ _ added := Nat.le_of_eq added.2.2.symm
  exits scope isOpen exit present := by
    rcases List.mem_cons.mp isOpen with rfl | outer
    · cases present
    · have pending := isolated.exits scope outer exit present
      have old : exit < builder.nfa.size := valid.anchors_lt (exit_mem_anchors outer present)
      exact ⟨pending, Nat.ne_of_lt old, fun label target added => pending.notCurrent added.1⟩

theorem closing (isolated : builder.Isolated) (valid : builder.WellFormed) {nfa : Nfa} {group : OpenGroup}
    {groups : List OpenGroup} {quantifier : Option Quantifier} (innermost : builder.groups = group :: groups)
    (adds : Nfa.Extends builder.nfa nfa
      (quantifierEdges group.scope.entry (exitOf builder.nfa group.scope).2 quantifier ⊔
        .single builder.current none (exitOf builder.nfa group.scope).2)) :
    Spares builder { builder with nfa, current := (exitOf builder.nfa group.scope).2, groups }
      (quantifierEdges group.scope.entry (exitOf builder.nfa group.scope).2 quantifier ⊔
        .single builder.current none (exitOf builder.nfa group.scope).2) := by
  let after : Builder := { builder with nfa, current := (exitOf builder.nfa group.scope).2, groups }
  have scopes : builder.scopes = group.scope :: after.scopes := by simp [after, Builder.scopes, innermost]
  have anchors : builder.anchors = group.scope.anchors ++ after.anchors := by
    rw [Builder.anchors, scopes, List.flatMap_cons, Builder.anchors]
  have distinct : (group.scope.entry :: (exitOf builder.nfa group.scope).2 :: after.anchors).Nodup :=
    nodup_exitOf (anchors ▸ isolated.distinct) fun id member => valid.anchors_lt (anchors ▸ member)
  obtain ⟨notEntry, distinct⟩ := List.nodup_cons.mp distinct
  obtain ⟨notExit, distinct⟩ := List.nodup_cons.mp distinct
  have notEntry : group.scope.entry ∉ after.anchors := fun member => notEntry (List.mem_cons_of_mem _ member)
  refine ⟨adds, distinct, fun scope isOpen source label added => ?_, fun scope isOpen exit present => ?_⟩
  · have anchor := entry_mem_anchors isOpen
    rcases added with around | ⟨-, -, same⟩
    · rcases (quantifierEdges_ends around).2 with same | same
      · exact absurd (same ▸ anchor) notEntry
      · exact absurd (same ▸ anchor) notExit
    · exact absurd (same ▸ anchor) notExit
  · have anchor := exit_mem_anchors isOpen present
    have pending := isolated.exits scope (scopes ▸ List.mem_cons_of_mem _ isOpen) exit present
    have notCurrent : exit ≠ (exitOf builder.nfa group.scope).2 := fun same => notExit (same ▸ anchor)
    refine ⟨pending, notCurrent, fun label target added => ?_⟩
    rcases added with around | ⟨same, -, -⟩
    · rcases (quantifierEdges_ends around).1 with same | same
      · exact absurd (same ▸ anchor) notEntry
      · exact absurd (same ▸ anchor) notExit
    · exact pending.notCurrent same

theorem bar (isolated : builder.Isolated) (valid : builder.WellFormed) {nfa : Nfa}
    (adds : Nfa.Extends builder.nfa nfa (.single builder.current none (exitOf builder.nfa builder.scope).2)) :
    Spares builder { builder.withScope
      { builder.scope with exit? := some (exitOf builder.nfa builder.scope).2 } with
      nfa, current := builder.scope.entry }
      (.single builder.current none (exitOf builder.nfa builder.scope).2) := by
  obtain ⟨outer, scopes, replaced⟩ := builder.exists_scopes_eq
  have anchors : builder.anchors = builder.scope.anchors ++ outer.flatMap Scope.anchors := by
    rw [Builder.anchors, scopes, List.flatMap_cons]
  have distinct : (builder.scope.entry :: (exitOf builder.nfa builder.scope).2 ::
      outer.flatMap Scope.anchors).Nodup :=
    nodup_exitOf (anchors ▸ isolated.distinct) fun id member => valid.anchors_lt (anchors ▸ member)
  obtain ⟨notEntry, rest⟩ := List.nodup_cons.mp distinct
  obtain ⟨notExit, -⟩ := List.nodup_cons.mp rest
  have pending := isolated.sealed_exitOf valid (scopes ▸ List.mem_cons_self ..)
  refine ⟨adds, ?_, fun scope isOpen source label added => ?_, fun scope isOpen exit present => ?_⟩
  · change ((builder.withScope _).scopes.flatMap Scope.anchors).Nodup
    rw [replaced]
    exact distinct
  · change scope ∈ (builder.withScope _).scopes at isOpen
    rw [replaced] at isOpen
    have same := added.2.2
    rcases List.mem_cons.mp isOpen with rfl | outer
    · exact absurd (same ▸ List.mem_cons_self ..) notEntry
    · exact absurd (same ▸ entry_mem_anchors outer) notExit
  · change scope ∈ (builder.withScope _).scopes at isOpen
    rw [replaced] at isOpen
    rcases List.mem_cons.mp isOpen with rfl | isOuter
    · obtain rfl := Option.some.inj present
      exact ⟨pending, fun same => notEntry (same ▸ List.mem_cons_self ..), fun label target added =>
        pending.notCurrent added.1⟩
    · have pending := isolated.exits scope (scopes ▸ List.mem_cons_of_mem _ isOuter) exit present
      have anchor := exit_mem_anchors isOuter present
      have notCurrent : exit ≠ builder.scope.entry := fun same =>
        notEntry (same ▸ List.mem_cons_of_mem _ anchor)
      exact ⟨pending, notCurrent, fun label target added => pending.notCurrent added.1⟩

/-- The edges of a token spare the scopes that it leaves open. -/
theorem spares (isolated : builder.Isolated) (valid : builder.WellFormed) {lexeme : Lexeme}
    (takes : builder.Takes lexeme next) : ∃ edge, Spares builder next edge := by
  cases takes with
  | symbol nfa grown adds => exact ⟨_, isolated.symbol valid adds⟩
  | @opening nfa offset grown adds => exact ⟨_, isolated.opening valid offset adds⟩
  | closing nfa group groups innermost within grown adds => exact ⟨_, isolated.closing valid innermost adds⟩
  | bar nfa grown adds => exact ⟨_, isolated.bar valid adds⟩

end Isolated

/-- Taking a token keeps the entry of the scope of the whole pattern. -/
theorem Takes.root_entry {lexeme : Lexeme} (takes : builder.Takes lexeme next) :
    next.root.entry = builder.root.entry := by
  cases takes with
  | symbol | opening | closing => rfl
  | bar =>
    change (builder.withScope _).root.entry = builder.root.entry
    cases innermost : builder.groups <;> simp [withScope, scope, innermost]

/-- A group that is open after a token was open before it, with the same parenthesis and entry, or the token opens it
at a new entry, which the current state leads to. -/
theorem Takes.mem_groups {lexeme : Lexeme} (takes : builder.Takes lexeme next) {group : OpenGroup}
    (isOpen : group ∈ next.groups) :
    (∃ old ∈ builder.groups, old.openedAt = group.openedAt ∧ old.scope.entry = group.scope.entry) ∨
      lexeme = ⟨group.openedAt, .opening⟩ ∧ group.scope.entry = builder.nfa.size ∧
        Nfa.Extends builder.nfa next.nfa (.single builder.current none group.scope.entry) := by
  cases takes with
  | symbol => exact .inl ⟨group, isOpen, rfl, rfl⟩
  | opening nfa grown adds =>
    rcases List.mem_cons.mp isOpen with rfl | outer
    · exact .inr ⟨rfl, rfl, adds⟩
    · exact .inl ⟨group, outer, rfl, rfl⟩
  | closing nfa inner groups innermost =>
    exact .inl ⟨group, innermost ▸ List.mem_cons_of_mem _ isOpen, rfl, rfl⟩
  | bar =>
    change group ∈ (builder.withScope _).groups at isOpen
    left
    cases innermost : builder.groups with
    | nil => simp [withScope, innermost] at isOpen
    | cons inner groups =>
      simp only [withScope, scope, innermost] at isOpen
      rcases List.mem_cons.mp isOpen with rfl | outer
      · exact ⟨inner, List.mem_cons_self .., rfl, rfl⟩
      · exact ⟨group, List.mem_cons_of_mem _ outer, rfl, rfl⟩

/-- What enters the entry of an open scope that was there has entered it before. -/
theorem Spares.edge_entry_iff (spares : Spares builder next edge) {scope : Scope} (isOpen : scope ∈ next.scopes)
    (old : scope.entry < builder.nfa.size) {source : StateId} {label : Option Symbol} :
    next.nfa.Edge source label scope.entry ↔ builder.nfa.Edge source label scope.entry := by
  rw [spares.adds.edges]
  refine ⟨fun either => either.resolve_right fun added => ?_, .inl⟩
  exact absurd old (Nat.not_lt_of_le (spares.entries scope isOpen source label added))

/-- Taking a token keeps open scopes isolated. -/
theorem Isolated.takes (isolated : builder.Isolated) (valid : builder.WellFormed) {lexeme : Lexeme}
    (takes : builder.Takes lexeme next) : next.Isolated := by
  obtain ⟨edge, spares⟩ := isolated.spares valid takes
  refine ⟨spares.distinct, takes.root_entry.trans isolated.root, fun source label entering => ?_,
    fun scope isOpen exit present => ?_⟩
  · have isOpen : next.root ∈ next.scopes := mem_scopes_iff.mpr (.inl rfl)
    have old : next.root.entry < builder.nfa.size := takes.root_entry ▸ valid.root.1
    have before := (spares.edge_entry_iff isOpen old).mp entering
    exact isolated.unentered source label (takes.root_entry ▸ before)
  · obtain ⟨pending, notCurrent, leaves⟩ := spares.exits scope isOpen exit present
    refine ⟨notCurrent, fun label target leaving => ?_⟩
    rw [spares.adds.edges] at leaving
    rcases leaving with before | added
    · exact pending.noEdge label target before
    · exact leaves label target added

/-- Open scopes are isolated after a run over tokens without an error. -/
theorem isolated_of_run {lexemes : List Lexeme} (run : lexemes.foldlM Builder.add Builder.start = .ok builder) :
    builder.Isolated :=
  wellFormed_start.foldlM_takes isolated_start run fun _ _ _ valid takes isolated => isolated.takes valid takes

/-- The entry of an open group is entered only by the epsilon edge from the state where its parenthesis was read. -/
theorem exists_opener {taken : List Lexeme} (run : taken.foldlM Builder.add Builder.start = .ok builder)
    {group : OpenGroup} (isOpen : group ∈ builder.groups) :
    ∃ before after opener, taken = before ++ ⟨group.openedAt, .opening⟩ :: after ∧
      before.foldlM Builder.add Builder.start = .ok opener ∧
      ∀ source label, builder.nfa.Edge source label group.scope.entry ↔ source = opener.current ∧ label = none := by
  induction taken using List.reverseRecOn generalizing builder group with
  | nil =>
    obtain rfl := Except.ok.inj run
    cases isOpen
  | append_singleton front lexeme ih =>
    obtain ⟨middle, runFront, last⟩ := foldlM_append_eq_ok_iff.mp run
    obtain ⟨next, success, same⟩ := foldlM_cons_eq_ok_iff.mp last
    obtain rfl := Except.ok.inj same
    have valid := wellFormed_start.foldlM runFront
    have takes := takes_of_add valid success
    rcases takes.mem_groups isOpen with ⟨old, wasOpen, sameOffset, sameEntry⟩ | ⟨rfl, entry, adds⟩
    · obtain ⟨before, after, opener, cut, runBefore, only⟩ := ih runFront wasOpen
      obtain ⟨edge, spares⟩ := (isolated_of_run runFront).spares valid takes
      have listed : group.scope ∈ next.scopes := mem_scopes_iff.mpr (.inr ⟨group, isOpen, rfl⟩)
      have older : group.scope.entry < middle.nfa.size := sameEntry ▸ (valid.groups old wasOpen).1
      refine ⟨before, after ++ [lexeme], opener, ?_, runBefore, fun source label => ?_⟩
      · rw [cut, sameOffset, List.append_assoc, List.cons_append]
      · rw [spares.edge_entry_iff listed older, ← sameEntry, only]
    · refine ⟨front, [], middle, rfl, runFront, fun source label => ?_⟩
      rw [adds.edges]
      constructor
      · rintro (before | ⟨same, epsilon, -⟩)
        · exact absurd (valid.inRange _ _ _ before) (Nat.not_lt_of_le entry.ge)
        · exact ⟨same, epsilon⟩
      · rintro ⟨rfl, rfl⟩
        exact .inr ⟨rfl, rfl, rfl⟩

end Builder

namespace ScopeStack

/-- The stack after tokens that make up a text. Its frames are that of the whole pattern and, on top of it, those of
the unclosed parentheses of the text, the last one uppermost. The entry of the whole pattern, the start state, is not
entered, and that of a group is entered only by the epsilon edge from the state where its parenthesis was read. No edge
leaves the exit of an open scope, to which nothing is attached next. Every state is reached from the start, and leads
to the current one or to the exit of an open scope. -/
structure Isolated (text : List Char) (taken : List Lexeme) (stack : ScopeStack) (groups : List OpenGroup)
    (root : Scope) : Prop where
  frames : stack.frames = groups.map Frame.group ++ [.root root]
  descending : (groups.map OpenGroup.openedAt).Pairwise (· > ·)
  opened : ∀ position, position ∈ groups.map OpenGroup.openedAt ↔ Unclosed text position
  current : stack.current < stack.nfa.size
  within : ∀ frame ∈ stack.frames, frame.scope.Within stack.nfa.size
  rootEntry : root.entry = StateId.start ∧ ∀ source label, ¬ stack.nfa.Edge source label root.entry
  groupEntry : ∀ group ∈ groups, ∃ before after opener,
    taken = before ++ ⟨group.openedAt, .opening⟩ :: after ∧ before.foldlM add start = .ok opener ∧
      ∀ source label, stack.nfa.Edge source label group.scope.entry ↔ source = opener.current ∧ label = none
  exits : ∀ frame ∈ stack.frames, ∀ exit, frame.scope.exit? = some exit →
    exit ≠ stack.current ∧ ∀ label target, ¬ stack.nfa.Edge exit label target
  reached : ∀ id < stack.nfa.size, ∃ word, stack.nfa.Path StateId.start word id
  leads : ∀ id < stack.nfa.size, ∃ word target, stack.nfa.Path id word target ∧
    (target = stack.current ∨ ∃ frame ∈ stack.frames, frame.scope.exit? = some target)

/-- The frames of a builder's stack hold its open scopes. -/
theorem scope_mem_scopes_iff {builder : Builder} {scope : Scope} :
    (∃ frame ∈ (ofBuilder builder).frames, frame.scope = scope) ↔ scope ∈ builder.scopes := by
  have scopes : (ofBuilder builder).frames.map Frame.scope = builder.scopes := by
    simp only [ofBuilder, Builder.scopes, List.map_append, List.map_map, List.map_cons, List.map_nil]
    rfl
  rw [← scopes, List.mem_map]

/-- After any number of tokens of any pattern that are taken without an error, the open scopes are isolated, and they
are those of the builder that takes the same tokens. -/
theorem isolated_after_tokens {pattern : String} {count : Nat} {stack : ScopeStack}
    (run : ((tokens pattern.toList).take count).foldlM add start = .ok stack) :
    ∃ builder text rest,
      ((tokens pattern.toList).take count).foldlM Builder.add Builder.start = .ok builder ∧
      ofBuilder builder = stack ∧ pattern.toList = text ++ rest ∧
      ((tokens pattern.toList).take count).flatMap (fun lexeme => lexeme.token.text) = text ∧
      Isolated text ((tokens pattern.toList).take count) stack builder.groups builder.root := by
  obtain ⟨builder, built, rfl⟩ := foldlM_add_start_eq_ok_iff.mp run
  obtain ⟨text, rest, cut, texts, read⟩ := ReadUpTo.start.take (fun _ => nofun) built
  rw [List.nil_append] at read
  have isolated := Builder.isolated_of_run built
  have leads := Builder.allLeadOn_start.foldlM Builder.wellFormed_start built
  have reached := Builder.allReached_start.foldlM Builder.wellFormed_start built
  refine ⟨builder, text, rest, built, rfl, cut, texts, rfl, read.opened.pairwise List.suffix_rfl,
    fun position => read.opened.mem_iff read.clean.depth_nonneg, read.valid.current, fun frame isOpen => ?_,
    ⟨isolated.root, isolated.unentered⟩, fun group isOpen => ?_, fun frame isOpen exit present => ?_,
    fun id owned => ?_, fun id owned => ?_⟩
  · exact read.valid.within (scope_mem_scopes_iff.mp ⟨frame, isOpen, rfl⟩)
  · obtain ⟨before, after, opener, split, opens, only⟩ := Builder.exists_opener built isOpen
    exact ⟨before, after, ofBuilder opener, split, foldlM_add_start_eq_ok_iff.mpr ⟨opener, opens, rfl⟩, only⟩
  · obtain ⟨notCurrent, noEdge⟩ := isolated.exits _ (scope_mem_scopes_iff.mp ⟨frame, isOpen, rfl⟩) exit present
    exact ⟨notCurrent, noEdge⟩
  · obtain ⟨word, trace⟩ := reached id owned
    exact ⟨word, Nfa.path_iff_trace.mpr trace⟩
  · obtain ⟨word, target, trace, pending⟩ := leads id owned
    refine ⟨word, target, Nfa.path_iff_trace.mpr trace, pending.exists_exit.imp_right ?_⟩
    rintro ⟨scope, isOpen, exit⟩
    obtain ⟨frame, listed, rfl⟩ := scope_mem_scopes_iff.mpr isOpen
    exact ⟨frame, listed, exit⟩

/-- Two groups are open after the second bar of a pattern, each of which has an exit, and one that repeats has been
closed between them. -/
theorem isolated_after_tokens_of_nested_groups :
    ∃ stack groups root, ((tokens "a(b|(c)*(d|e))".toList).take 10).foldlM add start = .ok stack ∧
      stack.current = 8 ∧
      stack.frames = [.group ⟨8, ⟨8, some 10⟩⟩, .group ⟨1, ⟨2, some 4⟩⟩, .root ⟨0, none⟩] ∧
      Isolated "a(b|(c)*(d|".toList ((tokens "a(b|(c)*(d|e))".toList).take 10) stack groups root := by
  obtain ⟨stack, run⟩ : ∃ stack, ((tokens "a(b|(c)*(d|e))".toList).take 10).foldlM add start = .ok stack :=
    ⟨_, rfl⟩
  obtain ⟨builder, text, rest, -, -, -, texts, isolated⟩ := isolated_after_tokens run
  obtain rfl : "a(b|(c)*(d|".toList = text := texts
  have made : (((tokens "a(b|(c)*(d|e))".toList).take 10).foldlM add start).map
      (fun stack => (stack.current, stack.frames)) =
        .ok (8, [.group ⟨8, ⟨8, some 10⟩⟩, .group ⟨1, ⟨2, some 4⟩⟩, .root ⟨0, none⟩]) := rfl
  rw [run] at made
  obtain ⟨current, frames⟩ := Prod.mk.inj (Except.ok.inj made)
  exact ⟨stack, builder.groups, builder.root, run, current, frames, isolated⟩

end ScopeStack

end PatternAutomata.Pattern
