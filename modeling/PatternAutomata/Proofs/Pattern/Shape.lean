import PatternAutomata.Proofs.Pattern.Census
import PatternAutomata.Proofs.Pattern.Completion
import PatternAutomata.Proofs.Pattern.Recognition

/-! # The shape of a pattern's automaton

While a pattern is read, every group accounts for two states, its entry and its exit, except that the exit of an
open group is missing until a bar needs it (`Counted`). With what every token keeps up (`Charted`) the text of a
pattern says how many states its automaton has. One of them accepts, which all others lead to, and all are reached
from the start, which nothing enters (`ofPattern_well_shaped`).
-/

namespace PatternAutomata.Pattern

variable {front text : List Char} {c : Char}

namespace Builder

variable {builder next : Builder} {token : Token}

/-- The open scopes, the innermost in front. -/
def scopes (builder : Builder) : List Scope := builder.groups.map OpenGroup.scope ++ [builder.root]

/-- The number of open scopes that have an exit already. -/
def exits (builder : Builder) : Nat := builder.scopes.countP fun scope => scope.exit?.isSome

/-- Replacing the innermost scope keeps the outer ones. -/
theorem exists_scopes_eq (builder : Builder) :
    ∃ outer, builder.scopes = builder.scope :: outer ∧
      ∀ scope, (builder.withScope scope).scopes = scope :: outer := by
  obtain ⟨nfa, current, root, groups⟩ := builder
  cases groups with
  | nil => exact ⟨[], rfl, fun _ => rfl⟩
  | cons group groups => exact ⟨groups.map OpenGroup.scope ++ [root], rfl, fun _ => rfl⟩

theorem size_exitOf (nfa : Nfa) (scope : Scope) :
    (exitOf nfa scope).1.size + [scope].countP (fun scope => scope.exit?.isSome) = nfa.size + 1 := by
  cases present : scope.exit? with
  | none => simp [exitOf_of_none present, present]
  | some exit => simp [exitOf_of_some present, present]

/-- The text that has been read says how many groups are open, whether the whole pattern has an exit, and how many
states there are: two for each group, less one while it is open, and those exits that have been made. -/
structure Counted (front : List Char) (builder : Builder) : Prop where
  level : Pattern.level front = builder.groups.length
  outer : builder.root.exit?.isSome ↔ HasOuterBar front
  size : builder.nfa.size + builder.groups.length =
    1 + (plainSymbols front).length + 2 * groupCount front + builder.exits

namespace Counted

theorem start : Counted [] Builder.start where
  level := rfl
  outer := by decide
  size := rfl

/-- A token keeps the counts if it changes them as its characters say. -/
theorem extend (counted : Counted front builder)
    (level : Pattern.level token.text = next.groups.length - builder.groups.length)
    (outer : next.root.exit?.isSome ↔ HasOuterBar (front ++ token.text))
    (size : next.nfa.size + next.groups.length + builder.exits = builder.nfa.size + builder.groups.length +
      next.exits + (plainSymbols token.text).length + 2 * groupCount token.text) :
    Counted (front ++ token.text) next where
  level := by
    rw [level_append, counted.level, level]
    omega
  outer := outer
  size := by
    have before := counted.size
    rw [plainSymbols_append, groupCount_append, List.length_append]
    omega

theorem symbol (counted : Counted front builder) (plain : IsPlain c) {nfa : Nfa}
    (grown : nfa.size = builder.nfa.size + 1) (quantifier : Option Quantifier) :
    Counted (front ++ (Token.symbol c quantifier).text) { builder with nfa, current := builder.nfa.size } := by
  obtain ⟨sameLevel, sameGroups, bar⟩ := counts_cons_quantifierText c quantifier
  have one : plainSymbols (Token.symbol c quantifier).text = [c] := plainSymbols_text (by simpa [Token.symbol?])
  have noGroup : groupCount [c] = 0 := by simp [groupCount, plain.1]
  apply counted.extend
  · rw [Token.text, sameLevel, level_other plain.1 plain.2.1, Int.sub_self]
  · rw [Token.text, hasOuterBar_append_of_not_mem (bar.not.mpr plain.2.2.1)]
    exact counted.outer
  · rw [one, Token.text, sameGroups, noGroup, List.length_singleton]
    change nfa.size + builder.groups.length + builder.exits =
      builder.nfa.size + builder.groups.length + builder.exits + 1 + 2 * 0
    omega

theorem opening (counted : Counted front builder) {nfa : Nfa} (grown : nfa.size = builder.nfa.size + 1)
    (offset : Nat) : Counted (front ++ Token.opening.text) { builder with
      nfa, current := builder.nfa.size
      groups := ⟨offset, { entry := builder.nfa.size }⟩ :: builder.groups } := by
  have same : Builder.exits { builder with
      nfa, current := builder.nfa.size
      groups := ⟨offset, { entry := builder.nfa.size }⟩ :: builder.groups } = builder.exits := by
    simp [exits, scopes]
  apply counted.extend
  · rw [List.length_cons, Int.natCast_succ]
    change (1 : Int) = _
    omega
  · exact counted.outer.trans (hasOuterBar_append_of_not_mem (by decide)).symm
  · rw [same, List.length_cons]
    change nfa.size + _ + _ = _ + _ + _ + 0 + 2 * 1
    omega

theorem closing (counted : Counted front builder) {nfa : Nfa} {group : OpenGroup} {groups : List OpenGroup}
    (innermost : builder.groups = group :: groups) (grown : nfa.size = (exitOf builder.nfa group.scope).1.size)
    (quantifier : Option Quantifier) : Counted (front ++ (Token.closing quantifier).text)
      { builder with nfa, current := (exitOf builder.nfa group.scope).2, groups } := by
  obtain ⟨sameLevel, sameGroups, bar⟩ := counts_cons_quantifierText ')' quantifier
  have none : plainSymbols (Token.closing quantifier).text = [] := plainSymbols_text nofun
  -- the exit of the group is counted as an exit until the group is closed
  have fewer : builder.exits =
      [group.scope].countP (fun scope => scope.exit?.isSome) +
        Builder.exits { builder with nfa, current := (exitOf builder.nfa group.scope).2, groups } := by
    simp only [exits, scopes, innermost, List.map_cons, List.cons_append]
    rw [← List.singleton_append, List.countP_append]
  have exitSize := size_exitOf builder.nfa group.scope
  apply counted.extend
  · rw [Token.text, sameLevel, innermost, List.length_cons, Int.natCast_succ]
    change (-1 : Int) = groups.length - (groups.length + 1)
    omega
  · rw [Token.text, hasOuterBar_append_of_not_mem (bar.not.mpr (by decide))]
    exact counted.outer
  · rw [none, Token.text, sameGroups, innermost, fewer, List.length_cons]
    change nfa.size + groups.length + _ = _ + _ + _ + 0 + 2 * 0
    omega

theorem bar (counted : Counted front builder) {nfa : Nfa}
    (grown : nfa.size = (exitOf builder.nfa builder.scope).1.size) : Counted (front ++ Token.bar.text)
      { builder.withScope { builder.scope with exit? := some (exitOf builder.nfa builder.scope).2 } with
        nfa, current := builder.scope.entry } := by
  obtain ⟨outer, scopes, replaced⟩ := builder.exists_scopes_eq
  have exitSize := size_exitOf builder.nfa builder.scope
  have before : builder.exits =
      [builder.scope].countP (fun scope => scope.exit?.isSome) + outer.countP fun scope => scope.exit?.isSome := by
    rw [exits, scopes, ← List.singleton_append, List.countP_append]
  apply counted.extend
  · change (0 : Int) = (builder.withScope _).groups.length - _
    rw [length_groups_withScope, Int.sub_self]
  · change (builder.withScope _).root.exit?.isSome ↔ HasOuterBar (front ++ ['|'])
    rw [hasOuterBar_append_bar, counted.level, ← counted.outer]
    cases innermost : builder.groups with
    | nil => simp [withScope, innermost]
    | cons group groups =>
      have isOpen : ((group :: groups).length : Int) ≠ 0 := by
        rw [List.length_cons]
        omega
      simp only [withScope, innermost, isOpen, or_false]
  · change nfa.size + (builder.withScope _).groups.length + _ =
      _ + _ + (builder.withScope _).scopes.countP (fun scope => scope.exit?.isSome) + 0 + 2 * 0
    rw [length_groups_withScope, replaced, List.countP_cons_of_pos rfl]
    omega

theorem takes (counted : Counted front builder) {lexeme : Lexeme}
    (plain : ∀ x ∈ lexeme.token.symbol?, IsPlain x) (takes : builder.Takes lexeme next) :
    Counted (front ++ lexeme.token.text) next := by
  cases takes with
  | @symbol _ _ c quantifier grown => exact counted.symbol (plain c rfl) grown quantifier
  | @opening _ offset grown => exact counted.opening grown offset
  | @closing _ _ _ _ quantifier innermost _ grown => exact counted.closing innermost grown quantifier
  | bar _ grown => exact counted.bar grown

end Counted

/-- The builder is what the tokens of a text make: every state is reached, letters are those of the text, and the
counts are right. -/
structure Charted (front : List Char) (builder : Builder) : Prop extends Counted front builder where
  valid : builder.WellFormed
  reached : builder.AllReached
  letters : ∀ x, (∃ source target, builder.nfa.Edge source (some x) target) ↔ x ∈ plainSymbols front

theorem charted_start : Charted [] Builder.start where
  toCounted := .start
  valid := wellFormed_start
  reached := allReached_start
  letters x := by
    rw [show start.nfa.Edge = ⊥ from Nfa.edge_ofSize 1]
    exact iff_of_false (fun ⟨_, _, edge⟩ => edge) List.not_mem_nil

theorem Charted.add (charted : Charted front builder) {lexeme : Lexeme}
    (plain : ∀ x ∈ lexeme.token.symbol?, IsPlain x) (success : builder.add lexeme = .ok next) :
    Charted (front ++ lexeme.token.text) next := by
  have takes := takes_of_add charted.valid success
  obtain ⟨edge, grows⟩ := takes.exists_grows
  refine ⟨charted.toCounted.takes plain takes, charted.valid.takes takes,
    charted.reached.grows charted.valid.current grows, fun x => ?_⟩
  have split : (∃ source target, next.nfa.Edge source (some x) target) ↔
      (∃ source target, builder.nfa.Edge source (some x) target) ∨
        ∃ source target, edge source (some x) target := by
    simp only [grows.adds.edges, ← exists_or]
    rfl
  rw [split, charted.letters, grows.letters, plainSymbols_append, List.mem_append, plainSymbols_text plain,
    Option.mem_toList]

end Builder

open Builder

/-- What the tokens of a text make, if they are all taken. -/
theorem charted_of_foldlM {builder : Builder}
    (run : (tokens text).foldlM Builder.add Builder.start = .ok builder) : Charted text builder := by
  have plain (lexeme : Lexeme) (member : lexeme ∈ tokens text) (x : Symbol) (isSymbol : x ∈ lexeme.token.symbol?) :
      IsPlain x := by
    cases same : lexeme.token with
    | symbol y quantifier =>
      rw [same] at isSymbol
      obtain rfl := Option.some.inj isSymbol
      exact isPlain_of_mem_tokenList (List.mem_map.mpr ⟨lexeme, member, same⟩)
    | opening | closing _ | bar | stray _ =>
      rw [same] at isSymbol
      cases isSymbol
  have whole : Charted ([] ++ (tokens text).flatMap fun lexeme => lexeme.token.text) builder :=
    foldlM_text_invariant charted_start run fun lexeme member _ _ _ charted success =>
      charted.add (plain lexeme member) success
  have cut := flatMap_text_tokenList text
  rw [tokenList, List.flatMap_map] at cut
  rwa [tokens, cut] at whole

variable {pattern : String} {nfa : Nfa}

theorem reached_of_ofPattern (success : Nfa.ofPattern pattern = .ok nfa) :
    ∀ id < nfa.size, ∃ word, nfa.Path StateId.start word id := by
  obtain ⟨builder, run, closed, ends⟩ := exists_builder_of_ofPattern success
  have charted := charted_of_foldlM run
  obtain ⟨built, builds, size, edges, -⟩ := finish_eq_ok charted.valid closed
  obtain rfl := Except.ok.inj (ends.symm.trans builds)
  intro id owned
  obtain ⟨word, trace⟩ := charted.reached id (size ▸ owned)
  exact ⟨word, Nfa.path_iff_trace.mpr (trace.mono (edges ▸ le_sup_left))⟩

/-- Ending a pattern adds no letter, so its letters are those of its text. -/
theorem letter_iff_of_ofPattern (success : Nfa.ofPattern pattern = .ok nfa) {symbol : Symbol} :
    (∃ source target, nfa.Edge source (some symbol) target) ↔ symbol ∈ plainSymbols pattern.toList := by
  obtain ⟨builder, run, closed, ends⟩ := exists_builder_of_ofPattern success
  have charted := charted_of_foldlM run
  obtain ⟨built, builds, -, edges, -⟩ := finish_eq_ok charted.valid closed
  obtain rfl := Except.ok.inj (ends.symm.trans builds)
  have silent (source target : StateId) : ¬ builder.finalEdges source (some symbol) target := by
    unfold finalEdges
    cases builder.root.exit? with
    | none => exact id
    | some exit => exact fun joined => absurd joined.2.1 nofun
  rw [← charted.letters, edges]
  constructor
  · rintro ⟨source, target, old | joined⟩
    · exact ⟨source, target, old⟩
    · exact absurd joined (silent source target)
  · rintro ⟨source, target, edge⟩
    exact ⟨source, target, .inl edge⟩

/-- No edge leads back to the start, although a scope whose entry is the start is filled. -/
theorem not_edge_start_of_ofPattern (success : Nfa.ofPattern pattern = .ok nfa)
    (source : StateId) (label : Option Symbol) : ¬ nfa.Edge source label StateId.start := by
  obtain ⟨builder, run, closed, ends⟩ := exists_builder_of_ofPattern success
  obtain ⟨tree, written⟩ := exists_written_of_ofPattern success
  obtain ⟨same, exit?, edge, sameRun, filled⟩ :=
    builds_of_spelled (spelled_of_written written) start (tokens pattern.toList) wellFormed_start ⟨rfl, rfl⟩ rfl
  obtain rfl := Except.ok.inj (sameRun.symm.trans run)
  obtain ⟨built, builds, -, edges, -⟩ := finish_eq_ok (wellFormed_start.foldlM run) closed
  obtain rfl := Except.ok.inj (ends.symm.trans builds)
  have root : same.root.exit? = exit? := congrArg Scope.exit? filled.root
  rw [edges, filled.adds.edges, show start.nfa.Edge = ⊥ from Nfa.edge_ofSize 1, bot_sup_eq]
  rintro (body | joined)
  · exact absurd (filled.confined.enters _ _ _ body).1 (Nat.not_succ_le_zero 0)
  · rw [finalEdges, root] at joined
    cases exit? with
    | none => exact joined.elim
    | some exit =>
      obtain ⟨-, -, rfl⟩ := joined
      exact absurd (filled.exit _ rfl).1 (Nat.not_succ_le_zero 0)

/-- The automaton of a pattern has one accepting state. All states are reached from the start and lead to that one,
and nothing leads back to the start. Their number is one for the start, one for each plain symbol, two for each
group, and one more if a bar stands outside all groups. -/
theorem ofPattern_well_shaped (success : Nfa.ofPattern pattern = .ok nfa) :
    (∃ last < nfa.size, (∀ id, nfa.Accepting id ↔ id = last) ∧
      ∀ id < nfa.size, (∃ word, nfa.Path StateId.start word id) ∧ ∃ word, nfa.Path id word last) ∧
    (∀ source label, ¬ nfa.Edge source label StateId.start) ∧
    nfa.size = 1 + (plainSymbols pattern.toList).length + 2 * groupCount pattern.toList +
      (if HasOuterBar pattern.toList then 1 else 0) ∧
    nfa.size ≤ pattern.length + 1 := by
  obtain ⟨builder, run, closed, ends⟩ := exists_builder_of_ofPattern success
  have charted := charted_of_foldlM run
  obtain ⟨built, builds, size, -, -, accepts⟩ := finish_eq_ok charted.valid closed
  obtain rfl := Except.ok.inj (ends.symm.trans builds)
  obtain ⟨-, live⟩ := live_of_ofPattern success
  have exits : builder.exits = if HasOuterBar pattern.toList then 1 else 0 := by
    simp [Builder.exits, scopes, closed, charted.outer]
  have states := charted.size
  rw [closed, List.length_nil, Nat.add_zero, ← size, exits] at states
  refine ⟨⟨_, ((accepts _).mpr rfl).lt, accepts, fun id owned => ⟨reached_of_ofPattern success id owned, ?_⟩⟩,
    not_edge_start_of_ofPattern success, states, ?_⟩
  · obtain ⟨word, target, path, accepting⟩ := live id owned
    exact ⟨word, (accepts target).mp accepting ▸ path⟩
  · have balanced : groupCount pattern.toList = pattern.toList.count ')' := by
      have level := charted.level
      rw [closed, Pattern.level] at level
      exact Int.ofNat.inj (Int.sub_eq_zero.mp level)
    have bars : (if HasOuterBar pattern.toList then 1 else 0) ≤ pattern.toList.count '|' := by
      split
      · rename_i outer
        exact outer.count_pos
      · exact Nat.zero_le _
    have enough := length_plainSymbols_add_le pattern.toList
    rw [String.length_toList] at enough
    omega

/-- A group in a repeated group, with alternatives that are empty and bars inside and outside of the groups. -/
theorem ofPattern_well_shaped_of_nested_bars :
    ∃ nfa, Nfa.ofPattern "a|((b+|)c|)*|d" = .ok nfa ∧ nfa.size = 10 ∧ groupCount "a|((b+|)c|)*|d".toList = 2 ∧
      HasOuterBar "a|((b+|)c|)*|d".toList ∧ ∃ last, ∀ id < nfa.size, ∃ word, nfa.Path id word last := by
  obtain ⟨nfa, success⟩ : ∃ nfa, Nfa.ofPattern "a|((b+|)c|)*|d" = .ok nfa := ⟨_, rfl⟩
  obtain ⟨⟨last, -, -, connected⟩, -, size, -⟩ := ofPattern_well_shaped success
  have bar : HasOuterBar "a|((b+|)c|)*|d".toList := by decide
  rw [if_pos bar] at size
  exact ⟨nfa, success, size, rfl, bar, last, fun id owned => (connected id owned).2⟩

end PatternAutomata.Pattern
