import PatternAutomata.Proofs.Lists
import PatternAutomata.Proofs.Pattern.Spelling
import PatternAutomata.Proofs.Pattern.Tokens

/-! # What a run over tokens leaves open

What a token does to a builder is said once, by `Takes`, and it keeps the builder well formed (`WellFormed.takes`).
The tokens that a run has taken without an error are those of nested parts: a group that is still open is an opening
parenthesis with alternatives after it (`Nested`). When none is open, ending the pattern makes one state accept
(`finish_eq_ok`).
-/

namespace PatternAutomata.Pattern

/-- Tokens that leave a number of groups open, each with alternatives so far. -/
inductive Nested : Nat → List Token → Prop
  | root {tokens : List Token} {tree : Tree} (whole : Spelled .whole tokens tree) : Nested 0 tokens
  | group {depth : Nat} {front tokens : List Token} {tree : Tree} (outer : Nested depth front)
      (whole : Spelled .whole tokens tree) : Nested (depth + 1) (front ++ .opening :: tokens)

/-- Alternatives with one more item at the end are alternatives. -/
theorem exists_spelled_append_item {tokens item : List Token} {tree last : Tree}
    (whole : Spelled .whole tokens tree) (spelled : Spelled .item item last) :
    ∃ longer, Spelled .whole (tokens ++ item) longer := by
  cases whole with
  | single alternative => exact ⟨_, .single (.sequence alternative spelled)⟩
  | choice before alternative =>
    rw [List.append_assoc, List.cons_append]
    exact ⟨_, .choice before (.sequence alternative spelled)⟩

namespace Nested

variable {depth : Nat} {tokens : List Token}

theorem item {added : List Token} {tree : Tree} (nested : Nested depth tokens)
    (spelled : Spelled .item added tree) : Nested depth (tokens ++ added) := by
  cases nested with
  | root whole =>
    obtain ⟨_, longer⟩ := exists_spelled_append_item whole spelled
    exact .root longer
  | group outer whole =>
    obtain ⟨_, longer⟩ := exists_spelled_append_item whole spelled
    rw [List.append_assoc, List.cons_append]
    exact .group outer longer

theorem opening (nested : Nested depth tokens) : Nested (depth + 1) (tokens ++ [.opening]) :=
  .group nested (.single .nothing)

theorem closing (nested : Nested (depth + 1) tokens) (quantifier : Option Quantifier) :
    Nested depth (tokens ++ [.closing quantifier]) := by
  cases nested with
  | group outer whole =>
    rw [List.append_assoc, List.cons_append]
    exact outer.item (.group whole quantifier)

theorem bar (nested : Nested depth tokens) : Nested depth (tokens ++ [.bar]) := by
  cases nested with
  | root whole => exact .root (.choice whole .nothing)
  | group outer whole =>
    rw [List.append_assoc, List.cons_append]
    exact .group outer (.choice whole .nothing)

end Nested

namespace Builder

variable {builder next : Builder}

/-- Adding edges into the automaton keeps a builder's automaton in range and silent. -/
theorem WellFormed.extend {nfa : Nfa} {edge : EdgeRelation} (valid : builder.WellFormed)
    (adds : Nfa.Extends builder.nfa nfa edge) (inside : ∀ s label t, edge s label t → t < nfa.size) :
    nfa.InRange ∧ ∀ id, ¬ nfa.Accepting id := by
  constructor
  · intro source label target edge
    rw [adds.edges] at edge
    rcases edge with old | new
    · exact Nat.lt_of_lt_of_le (valid.inRange source label target old) adds.size_le
    · exact inside source label target new
  · intro id accepting
    exact valid.silent id ((adds.accepting id).mp accepting)

/-- Replacing the innermost scope by one inside the automaton keeps all scopes inside. -/
theorem WellFormed.withScope {scope : Scope} {bound : Nat} (valid : builder.WellFormed)
    (le : builder.nfa.size ≤ bound) (within : scope.Within bound) :
    (builder.withScope scope).root.Within bound ∧
      ∀ group ∈ (builder.withScope scope).groups, group.scope.Within bound := by
  unfold Builder.withScope
  split
  · exact ⟨within, fun group member => (valid.groups group member).mono le⟩
  · rename_i innermost
    refine ⟨valid.root.mono le, fun group member => ?_⟩
    rcases List.mem_cons.mp member with rfl | outer
    · exact within
    · have kept := innermost ▸ List.mem_cons_of_mem _ outer
      exact (valid.groups group kept).mono le

theorem openedAt_withScope (builder : Builder) (scope : Scope) :
    (builder.withScope scope).groups.map OpenGroup.openedAt = builder.groups.map OpenGroup.openedAt := by
  unfold withScope
  split
  · rfl
  · rename_i innermost
    simp only [innermost, List.map_cons]

theorem length_groups_withScope (builder : Builder) (scope : Scope) :
    (builder.withScope scope).groups.length = builder.groups.length := by
  simpa only [List.length_map] using congrArg List.length (builder.openedAt_withScope scope)

theorem add_closing_of_nil (closed : builder.groups = []) (offset : Nat) (quantifier : Option Quantifier) :
    builder.add ⟨offset, .closing quantifier⟩ = .error (.pattern (.unmatchedClose offset)) := by
  simp only [add, closeGroup, closed]

/-- A closing parenthesis is taken only if a group is open. -/
theorem exists_group_of_add_closing {offset : Nat} {quantifier : Option Quantifier}
    (success : builder.add ⟨offset, .closing quantifier⟩ = .ok next) :
    ∃ group groups, builder.groups = group :: groups := by
  cases innermost : builder.groups with
  | nil => exact absurd ((add_closing_of_nil innermost offset quantifier).symm.trans success) nofun
  | cons group groups => exact ⟨group, groups, rfl⟩

/-- The builder takes the lexeme and becomes another one, whose automaton has the edges of the token besides. -/
inductive Takes (builder : Builder) : Lexeme → Builder → Prop
  | symbol (nfa : Nfa) {offset : Nat} {c : Symbol} {quantifier : Option Quantifier}
      (grown : nfa.size = builder.nfa.size + 1)
      (adds : Nfa.Extends builder.nfa nfa (symbolEdges builder.current c builder.nfa.size quantifier)) :
      Takes builder ⟨offset, .symbol c quantifier⟩ { builder with nfa, current := builder.nfa.size }
  | opening (nfa : Nfa) {offset : Nat} (grown : nfa.size = builder.nfa.size + 1)
      (adds : Nfa.Extends builder.nfa nfa (.single builder.current none builder.nfa.size)) :
      Takes builder ⟨offset, .opening⟩ { builder with
        nfa, current := builder.nfa.size
        groups := ⟨offset, { entry := builder.nfa.size }⟩ :: builder.groups }
  | closing (nfa : Nfa) (group : OpenGroup) (groups : List OpenGroup) {offset : Nat}
      {quantifier : Option Quantifier} (innermost : builder.groups = group :: groups)
      (within : group.scope.Within builder.nfa.size)
      (grown : nfa.size = (exitOf builder.nfa group.scope).1.size)
      (adds : Nfa.Extends builder.nfa nfa
        (quantifierEdges group.scope.entry (exitOf builder.nfa group.scope).2 quantifier ⊔
          .single builder.current none (exitOf builder.nfa group.scope).2)) :
      Takes builder ⟨offset, .closing quantifier⟩
        { builder with nfa, current := (exitOf builder.nfa group.scope).2, groups }
  | bar (nfa : Nfa) {offset : Nat} (grown : nfa.size = (exitOf builder.nfa builder.scope).1.size)
      (adds : Nfa.Extends builder.nfa nfa
        (.single builder.current none (exitOf builder.nfa builder.scope).2)) :
      Takes builder ⟨offset, .bar⟩ { builder.withScope
        { builder.scope with exit? := some (exitOf builder.nfa builder.scope).2 } with
        nfa, current := builder.scope.entry }

/-- A token that is not refused is taken. -/
theorem takes_of_add (valid : builder.WellFormed) {lexeme : Lexeme} (success : builder.add lexeme = .ok next) :
    builder.Takes lexeme next := by
  obtain ⟨offset, token⟩ := lexeme
  cases token with
  | symbol c quantifier =>
    obtain ⟨nfa, added, grown, adds⟩ := add_symbol valid.current offset c quantifier
    obtain rfl := Except.ok.inj (added.symm.trans success)
    exact .symbol nfa grown adds
  | opening =>
    obtain ⟨nfa, added, grown, adds⟩ := add_opening valid.current offset
    obtain rfl := Except.ok.inj (added.symm.trans success)
    exact .opening nfa grown adds
  | closing quantifier =>
    obtain ⟨group, groups, innermost⟩ := exists_group_of_add_closing success
    have within := valid.groups group (innermost ▸ List.mem_cons_self ..)
    obtain ⟨nfa, added, grown, adds⟩ := add_closing valid.current offset quantifier innermost within
    obtain rfl := Except.ok.inj (added.symm.trans success)
    exact .closing nfa group groups innermost within grown adds
  | bar =>
    obtain ⟨nfa, added, grown, adds⟩ := add_bar valid.current offset valid.scope
    obtain rfl := Except.ok.inj (added.symm.trans success)
    exact .bar nfa grown adds
  | stray quantifier => exact absurd success nofun

/-- Taking a token keeps the builder well formed. -/
theorem WellFormed.takes (valid : builder.WellFormed) {lexeme : Lexeme} (takes : builder.Takes lexeme next) :
    next.WellFormed := by
  cases takes with
  | @symbol nfa _ c quantifier grown adds =>
    have fresh : builder.nfa.size < nfa.size := by omega
    obtain ⟨inRange, silent⟩ := valid.extend adds fun s label t edge =>
      grown ▸ ((confined_symbolEdges c quantifier).enters s label t edge).2
    exact ⟨inRange, silent, fresh, valid.root.mono adds.size_le,
      fun group member => (valid.groups group member).mono adds.size_le⟩
  | opening nfa grown adds =>
    have fresh : builder.nfa.size < nfa.size := by omega
    obtain ⟨inRange, silent⟩ := valid.extend adds fun s label t edge => edge.2.2 ▸ fresh
    refine ⟨inRange, silent, fresh, valid.root.mono adds.size_le, fun group member => ?_⟩
    rcases List.mem_cons.mp member with rfl | outer
    · exact ⟨fresh, nofun⟩
    · exact (valid.groups group outer).mono adds.size_le
  | @closing nfa group groups _ quantifier innermost within grown adds =>
    have exitOwned : (exitOf builder.nfa group.scope).2 < nfa.size := grown ▸ exitOf_lt within
    have entryOwned : group.scope.entry < nfa.size := Nat.lt_of_lt_of_le within.1 adds.size_le
    have inside (s : Nat) (label : Option Symbol) (t : Nat)
        (edge : (quantifierEdges group.scope.entry (exitOf builder.nfa group.scope).2 quantifier ⊔
          .single builder.current none (exitOf builder.nfa group.scope).2) s label t) : t < nfa.size := by
      rcases edge with around | ⟨-, -, rfl⟩
      · rcases (quantifierEdges_ends around).2 with rfl | rfl
        · exact entryOwned
        · exact exitOwned
      · exact exitOwned
    obtain ⟨inRange, silent⟩ := valid.extend adds inside
    refine ⟨inRange, silent, exitOwned, valid.root.mono adds.size_le, fun other member => ?_⟩
    have kept := innermost ▸ List.mem_cons_of_mem _ member
    exact (valid.groups other kept).mono adds.size_le
  | bar nfa grown adds =>
    have exitOwned : (exitOf builder.nfa builder.scope).2 < nfa.size := grown ▸ exitOf_lt valid.scope
    have entryOwned : builder.scope.entry < nfa.size := Nat.lt_of_lt_of_le valid.scope.1 adds.size_le
    obtain ⟨inRange, silent⟩ := valid.extend adds fun s label t edge => edge.2.2 ▸ exitOwned
    have within :
        Scope.Within { builder.scope with exit? := some (exitOf builder.nfa builder.scope).2 } nfa.size :=
      ⟨entryOwned, fun exit present => Option.some.inj present ▸ exitOwned⟩
    obtain ⟨root, groups⟩ := valid.withScope adds.size_le within
    exact ⟨inRange, silent, entryOwned, root, groups⟩

theorem WellFormed.add (valid : builder.WellFormed) {lexeme : Lexeme}
    (success : builder.add lexeme = .ok next) : next.WellFormed := valid.takes (takes_of_add valid success)

/-- Every token that is taken continues the nesting of those before it. -/
theorem nested_add (valid : builder.WellFormed) {lexeme : Lexeme} {tokens : List Token}
    (plain : ∀ c quantifier, lexeme.token = .symbol c quantifier → IsPlain c)
    (nested : Nested builder.groups.length tokens) (success : builder.add lexeme = .ok next) :
    Nested next.groups.length (tokens ++ [lexeme.token]) := by
  cases takes_of_add valid success with
  | @symbol _ _ c quantifier => exact nested.item (.symbol (plain c quantifier rfl) quantifier)
  | opening => exact nested.opening
  | @closing _ _ _ _ quantifier innermost =>
    rw [innermost] at nested
    exact nested.closing quantifier
  | bar =>
    change Nested (builder.withScope _).groups.length _
    rw [length_groups_withScope]
    exact nested.bar

theorem WellFormed.foldlM {lexemes : List Lexeme} (valid : builder.WellFormed)
    (success : lexemes.foldlM Builder.add builder = .ok next) : next.WellFormed :=
  foldlM_invariant valid success fun _ _ _ here step => here.add step

/-- What every token that is taken keeps up, a run over tokens without an error keeps up. -/
theorem WellFormed.foldlM_takes {holds : Builder → Prop} {lexemes : List Lexeme} (valid : builder.WellFormed)
    (start : holds builder) (success : lexemes.foldlM Builder.add builder = .ok next)
    (step : ∀ lexeme here after, here.WellFormed → here.Takes lexeme after → holds here → holds after) :
    holds next := by
  have both (lexeme : Lexeme) (here after : Builder) (held : here.WellFormed ∧ holds here)
      (success : here.add lexeme = .ok after) : after.WellFormed ∧ holds after :=
    ⟨held.1.add success, step lexeme here after held.1 (takes_of_add held.1 success) held.2⟩
  exact (foldlM_invariant ⟨valid, start⟩ success both).2

/-- A run over tokens without an error continues the nesting. -/
theorem nested_foldlM {lexemes : List Lexeme} {tokens : List Token} (valid : builder.WellFormed)
    (plain : ∀ lexeme ∈ lexemes, ∀ c quantifier, lexeme.token = .symbol c quantifier → IsPlain c)
    (nested : Nested builder.groups.length tokens) (success : lexemes.foldlM add builder = .ok next) :
    Nested next.groups.length (tokens ++ lexemes.map Lexeme.token) := by
  induction lexemes generalizing builder tokens with
  | nil =>
    obtain rfl := Except.ok.inj success
    rw [List.map_nil, List.append_nil]
    exact nested
  | cons lexeme rest ih =>
    obtain ⟨middle, step, success⟩ := foldlM_cons_eq_ok_iff.mp success
    have longer := nested_add valid (plain lexeme (List.mem_cons_self ..)) nested step
    have later (other : Lexeme) (member : other ∈ rest) := plain other (List.mem_cons_of_mem _ member)
    have whole := ih (valid.add step) later longer success
    simpa using whole

theorem wellFormed_start : Builder.start.WellFormed where
  inRange source label target edge := by
    rw [show start.nfa.Edge = ⊥ from Nfa.edge_ofSize 1] at edge
    exact edge.elim
  silent := Nfa.not_accepting_ofSize 1
  current := Nat.zero_lt_one
  root := ⟨Nat.zero_lt_one, nofun⟩
  groups := nofun

/-- The edge that joins the last of several alternatives to the exit of the pattern. -/
def finalEdges (builder : Builder) : EdgeRelation :=
  match builder.root.exit? with
  | none => ⊥
  | some exit => .single builder.current none exit

/-- Ending a pattern without open groups makes a single state accept: the exit, or what the only
alternative led to. -/
theorem finish_eq_ok (valid : builder.WellFormed) (closed : builder.groups = []) :
    ∃ nfa, builder.finish = .ok nfa ∧ nfa.size = builder.nfa.size ∧
      nfa.Edge = builder.nfa.Edge ⊔ builder.finalEdges ∧ nfa.InRange ∧
      ∀ id, nfa.Accepting id ↔ id = builder.root.exit?.getD builder.current := by
  unfold finish finalEdges
  rw [closed]
  cases present : builder.root.exit? with
  | none =>
    obtain ⟨nfa, success, sameSize, sameEdges, accepts⟩ := Nfa.setAccepting_eq_ok valid.current true
    refine ⟨nfa, ?_, sameSize, by simp [sameEdges], ?_, fun id => by simp [accepts, valid.silent]⟩
    · change Except.mapError Error.fault (builder.nfa.setAccepting builder.current true) = _
      rw [success]
      rfl
    · intro source label target edge
      rw [sameEdges] at edge
      exact sameSize ▸ valid.inRange source label target edge
  | some exit =>
    have exitOwned := valid.root.2 exit present
    obtain ⟨joined, joinSuccess, joinedSize, adds⟩ := Nfa.addEpsilon_eq_ok valid.current exitOwned
    obtain ⟨inRange, silent⟩ := valid.extend adds fun s label t edge =>
      edge.2.2 ▸ joinedSize.symm ▸ exitOwned
    rw [← joinedSize] at exitOwned
    obtain ⟨nfa, success, sameSize, sameEdges, accepts⟩ := Nfa.setAccepting_eq_ok exitOwned true
    refine ⟨nfa, ?_, sameSize.trans joinedSize, by rw [sameEdges, adds.edges], ?_,
      fun id => by simp [accepts, silent]⟩
    · change (do
        let nfa ← Except.mapError Error.fault (builder.nfa.addEpsilon builder.current exit)
        Except.mapError Error.fault (nfa.setAccepting exit true)) = _
      simp only [joinSuccess, success, bind, Except.bind, Except.mapError]
    · intro source label target edge
      rw [sameEdges] at edge
      exact sameSize ▸ inRange source label target edge

end Builder

/-- The tokens of a pattern that has an automaton are attached without an error and leave no group open. -/
theorem exists_builder_of_ofPattern {pattern : String} {nfa : Nfa} (success : Nfa.ofPattern pattern = .ok nfa) :
    ∃ builder, (tokens pattern.toList).foldlM Builder.add Builder.start = .ok builder ∧
      builder.groups = [] ∧ builder.finish = .ok nfa := by
  obtain ⟨builder, run, success⟩ := bind_eq_ok_iff.mp success
  refine ⟨builder, run, ?_, success⟩
  cases open_ : builder.groups with
  | nil => rfl
  | cons group groups => simp [Builder.finish, open_] at success

end PatternAutomata.Pattern
