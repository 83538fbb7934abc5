import PatternAutomata.Proofs.Pattern.Language
import PatternAutomata.Proofs.Trace

/-! # Fragments of an automaton and the words they spell

Attaching a piece of a pattern at a state adds edges that leave this state or new states, and enter
new states only: they are confined. Traces over confined edges therefore decompose. Fragments that
follow one another spell concatenations (`trace_sequence_iff`), a fragment is not disturbed by one
that is attached later (`trace_earlier_iff`), an exit joins what reaches it (`trace_join_iff`), and a
way back from the exit to the entry repeats (`trace_back_iff`).
-/

namespace PatternAutomata.Pattern

/-- Edges leave the attaching state or states numbered from `low` up to `high`, and enter the
latter. -/
structure Confined (edge : EdgeRelation) (source low high : Nat) : Prop where
  leaves : ∀ s label t, edge s label t → s = source ∨ low ≤ s ∧ s < high
  enters : ∀ s label t, edge s label t → low ≤ t ∧ t < high

variable {first second edge : EdgeRelation} {source attach low middle high target entry exit : Nat}

/-- Fragments that are attached one after the other make up one. -/
theorem Confined.sequence (left : Confined first source low middle)
    (right : Confined second attach middle high) (attached : attach = source ∨ low ≤ attach)
    (below : attach < middle) (lowMiddle : low ≤ middle) (middleHigh : middle ≤ high) :
    Confined (first ⊔ second) source low high := by
  constructor
  · rintro s label t (edge | edge)
    · rcases left.leaves s label t edge with same | ⟨above, under⟩
      · exact .inl same
      · exact .inr ⟨above, by omega⟩
    · rcases right.leaves s label t edge with rfl | ⟨above, under⟩
      · rcases attached with same | above
        · exact .inl same
        · exact .inr ⟨above, by omega⟩
      · exact .inr ⟨by omega, under⟩
  · rintro s label t (edge | edge)
    · have inside := left.enters s label t edge
      omega
    · have inside := right.enters s label t edge
      omega

/-- A trace that starts in the later fragment stays there. -/
theorem trace_later (left : Confined first source low middle) (right : Confined second attach middle high)
    (sourceLow : source < low) (lowMiddle : low ≤ middle) {start : Nat} {word : List Symbol}
    (above : middle ≤ start) (trace : Trace (first ⊔ second) start word target) :
    Trace second start word target := by
  refine trace.restrict (middle ≤ ·) ?_ above
  rintro s label t inside (edge | edge)
  · have outside := left.leaves s label t edge
    omega
  · exact ⟨edge, (right.enters s label t edge).1⟩

/-- A trace that ends before the later fragment has not been there. -/
theorem trace_earlier_iff (left : Confined first source low middle)
    (right : Confined second attach middle high) (sourceLow : source < low) (lowMiddle : low ≤ middle)
    (targetBelow : target < middle) {start : Nat} {word : List Symbol} :
    Trace (first ⊔ second) start word target ↔ Trace first start word target := by
  constructor
  · intro trace
    induction trace with
    | nil id => exact .nil id
    | @step s next _ label _ edge rest ih =>
      rcases edge with edge | edge
      · exact .step edge (ih targetBelow)
      · have entered := (right.enters s label next edge).1
        have ends : middle ≤ _ := (trace_later left right sourceLow lowMiddle entered rest).stays
          (middle ≤ ·) (fun s label t _ edge => (right.enters s label t edge).1) entered
        omega
  · exact .mono le_sup_left

/-- A trace from before the later fragment into it passes the state where that is attached. -/
theorem exists_split_of_trace (left : Confined first source low middle)
    (right : Confined second attach middle high) (sourceLow : source < low) (lowMiddle : low ≤ middle)
    (targetAbove : middle ≤ target) {start : Nat} {word : List Symbol} (below : start < middle)
    (trace : Trace (first ⊔ second) start word target) :
    ∃ u v, word = u ++ v ∧ Trace first start u attach ∧ Trace second attach v target := by
  induction trace with
  | nil id => omega
  | @step s next _ label word edge rest ih =>
    rcases edge with edge | edge
    · obtain ⟨u, v, rfl, before, after⟩ := ih targetAbove (left.enters s label next edge).2
      exact ⟨label.toList ++ u, v, by rw [List.append_assoc], .step edge before, after⟩
    · have entered := (right.enters s label next edge).1
      have here : s = attach := (right.leaves s label next edge).resolve_right (by omega)
      subst here
      exact ⟨[], label.toList ++ word, rfl, .nil s,
        .step edge (trace_later left right sourceLow lowMiddle entered rest)⟩

/-- Fragments that follow one another spell what the first one spells and then the second one. -/
theorem trace_sequence_iff (left : Confined first source low middle)
    (right : Confined second attach middle high) (sourceLow : source < low) (lowMiddle : low ≤ middle)
    (targetAbove : middle ≤ target) {word : List Symbol} :
    Trace (first ⊔ second) source word target ↔
      ∃ u v, word = u ++ v ∧ Trace first source u attach ∧ Trace second attach v target := by
  constructor
  · exact exists_split_of_trace left right sourceLow lowMiddle targetAbove (by omega)
  · rintro ⟨u, v, rfl, before, after⟩
    exact (before.mono le_sup_left).append (after.mono le_sup_right)

/-- A fragment that is attached at the same state as an earlier one is not disturbed by it. -/
theorem trace_alternative_iff (left : Confined first source low middle)
    (right : Confined second source middle high) (sourceLow : source < low) (lowMiddle : low ≤ middle)
    (targetAbove : target = source ∨ middle ≤ target) {word : List Symbol} :
    Trace (first ⊔ second) source word target ↔ Trace second source word target := by
  have unentered (s : Nat) (label : Option Symbol) : ¬ first s label source := by
    intro edge
    have inside := (left.enters s label source edge).1
    omega
  refine ⟨fun trace => ?_, .mono le_sup_right⟩
  rcases targetAbove with rfl | above
  · obtain ⟨rfl, -⟩ := trace.eq_of_unentered (by
      rintro s label (edge | edge)
      · exact unentered s label edge
      · have inside := (right.enters s label target edge).1
        omega)
    exact .nil target
  · obtain ⟨u, v, rfl, before, after⟩ :=
      (trace_sequence_iff left right sourceLow lowMiddle above).mp trace
    obtain ⟨rfl, -⟩ := before.eq_of_unentered unentered
    exact after

/-- An edge to a state that nothing leaves adds to what reaches it what reaches the edge. -/
theorem trace_join_iff (sink : ∀ label t, ¬ edge exit label t) {start : Nat} {word : List Symbol} :
    Trace (edge ⊔ .single attach none exit) start word exit ↔
      Trace edge start word attach ∨ Trace edge start word exit := by
  constructor
  · have split {last : Nat} (trace : Trace (edge ⊔ .single attach none exit) start word last)
        (ends : last = exit) : Trace edge start word attach ∨ Trace edge start word last := by
      induction trace with
      | nil id => exact .inr (.nil id)
      | step first rest ih =>
        rcases first with first | ⟨rfl, rfl, rfl⟩
        · exact (ih ends).imp (.step first) (.step first)
        · rcases ih ends with left | right
          · obtain ⟨rfl, rfl⟩ := left.eq_of_sink sink
            exact .inl (.nil _)
          · obtain ⟨rfl, -⟩ := right.eq_of_sink sink
            exact .inl (.nil _)
    exact fun trace => split trace rfl
  · rintro (left | right)
    · have last : (edge ⊔ .single attach none exit) attach none exit := .inr ⟨rfl, rfl, rfl⟩
      have joined := (left.mono le_sup_left).append (.ofEdge last)
      rwa [Option.toList_none, List.append_nil] at joined
    · exact right.mono le_sup_left

/-- A way back from the exit to the entry spells one or more words. -/
theorem trace_back_iff {word : List Symbol} :
    Trace (edge ⊔ .single exit none entry) entry word exit ↔
      Iterated (fun u => Trace edge entry u exit) word := by
  constructor
  · have split {start last : Nat} {word : List Symbol}
        (trace : Trace (edge ⊔ .single exit none entry) start word last) (ends : last = exit) :
        ∃ u v, word = u ++ v ∧ Trace edge start u exit ∧
          (v = [] ∨ Iterated (fun u => Trace edge entry u exit) v) := by
      induction trace with
      | nil id => exact ⟨[], [], rfl, ends ▸ .nil id, .inl rfl⟩
      | @step s next _ label word first rest ih =>
        obtain ⟨u, v, rfl, before, after⟩ := ih ends
        rcases first with first | ⟨rfl, rfl, rfl⟩
        · exact ⟨label.toList ++ u, v, by rw [List.append_assoc], .step first before, after⟩
        · refine ⟨[], u ++ v, rfl, .nil _, .inr ?_⟩
          rcases after with rfl | later
          · rw [List.append_nil]
            exact .once before
          · exact .again before later
    intro trace
    obtain ⟨u, v, rfl, before, rfl | later⟩ := split trace rfl
    · rw [List.append_nil]
      exact .once before
    · exact .again before later
  · intro iterated
    induction iterated with
    | once first => exact first.mono le_sup_left
    | again first _ ih =>
      have back : (edge ⊔ .single exit none entry) exit none entry := .inr ⟨rfl, rfl, rfl⟩
      exact (first.mono le_sup_left).append (.step back ih)

/-- The edges by which a quantifier repeats or skips what lies between an entry and an exit. -/
def quantifierEdges (entry exit : Nat) : Option Quantifier → EdgeRelation
  | none => ⊥
  | some .plus => .single exit none entry
  | some .star => .single exit none entry ⊔ .single entry none exit

theorem quantifierEdges_ends {s t : Nat} {label : Option Symbol} {quantifier : Option Quantifier}
    (added : quantifierEdges entry exit quantifier s label t) :
    (s = entry ∨ s = exit) ∧ (t = entry ∨ t = exit) := by
  match quantifier with
  | none => exact added.elim
  | some .plus => exact ⟨.inr added.1, .inl added.2.2⟩
  | some .star =>
    rcases added with ⟨same, -, back⟩ | ⟨same, -, skip⟩
    · exact ⟨.inr same, .inl back⟩
    · exact ⟨.inl same, .inr skip⟩

theorem quantifierEdges_label {s t : Nat} {label : Option Symbol} {quantifier : Option Quantifier}
    (added : quantifierEdges entry exit quantifier s label t) : label = none := by
  match quantifier with
  | none => exact added.elim
  | some .plus => exact added.2.1
  | some .star => exact added.elim (fun back => back.2.1) fun skip => skip.2.1

/-- The edges of a quantifier make the words between entry and exit those of the quantified tree. -/
theorem trace_quantified_iff (unentered : ∀ s label, ¬ edge s label entry)
    (sink : ∀ label t, ¬ edge exit label t) {tree : Tree} (quantifier : Option Quantifier)
    (spells : ∀ word, Trace edge entry word exit ↔ tree.Denotes word) (word : List Symbol) :
    Trace (edge ⊔ quantifierEdges entry exit quantifier) entry word exit ↔
      (tree.quantified quantifier).Denotes word := by
  match quantifier with
  | none => rw [quantifierEdges, sup_bot_eq, spells, Tree.quantified]
  | some .plus =>
    simp only [quantifierEdges, trace_back_iff, spells, Tree.quantified, denotes_plus_iff]
  | some .star =>
    have skips (u : List Symbol) :
        Trace (edge ⊔ .single entry none exit) entry u exit ↔ u = [] ∨ tree.Denotes u := by
      rw [trace_join_iff sink, spells]
      refine or_congr_left ⟨fun trace => (trace.eq_of_unentered unentered).1, ?_⟩
      rintro rfl
      exact .nil entry
    rw [quantifierEdges, sup_comm (EdgeRelation.single exit none entry), ← sup_assoc, trace_back_iff,
      Tree.quantified, denotes_star_iff]
    simp only [skips]

def symbolEdges (current : Nat) (symbol : Symbol) (next : Nat) : Option Quantifier → EdgeRelation
  | none => .single current (some symbol) next
  | some .plus => .single current (some symbol) next ⊔ .single next (some symbol) next
  | some .star => .single current none next ⊔ .single next (some symbol) next

theorem confined_symbolEdges {current next : Nat} (c : Symbol) (quantifier : Option Quantifier) :
    Confined (symbolEdges current c next quantifier) current next (next + 1) := by
  match quantifier with
  | none =>
    constructor
    · rintro s label t ⟨rfl, rfl, rfl⟩
      exact .inl rfl
    · rintro s label t ⟨rfl, rfl, rfl⟩
      omega
  | some .plus | some .star =>
    constructor
    · rintro s label t (⟨rfl, rfl, rfl⟩ | ⟨rfl, rfl, rfl⟩)
      · exact .inl rfl
      · exact .inr (by omega)
    · rintro s label t (⟨rfl, rfl, rfl⟩ | ⟨rfl, rfl, rfl⟩) <;> omega

theorem exists_symbolEdges_fresh (current fresh : Nat) (c : Symbol) (quantifier : Option Quantifier) :
    ∃ label, symbolEdges current c fresh quantifier current label fresh := by
  match quantifier with
  | none => exact ⟨_, rfl, rfl, rfl⟩
  | some .plus | some .star => exact ⟨_, .inl ⟨rfl, rfl, rfl⟩⟩

/-- The symbol is the only letter of its edges. -/
theorem exists_symbolEdges_letter_iff {current fresh : Nat} {c x : Symbol} {quantifier : Option Quantifier} :
    (∃ source target, symbolEdges current c fresh quantifier source (some x) target) ↔ x = c := by
  constructor
  · rintro ⟨source, target, added⟩
    match quantifier with
    | none => exact Option.some.inj added.2.1
    | some .plus => exact added.elim (fun first => Option.some.inj first.2.1) fun loop => Option.some.inj loop.2.1
    | some .star => exact added.elim (fun first => absurd first.2.1 nofun) fun loop => Option.some.inj loop.2.1
  · rintro rfl
    match quantifier with
    | none => exact ⟨current, fresh, rfl, rfl, rfl⟩
    | some .plus | some .star => exact ⟨fresh, fresh, .inr ⟨rfl, rfl, rfl⟩⟩

/-- The edges of a symbol spell the words of the symbol under its quantifier. -/
theorem trace_symbolEdges_iff {current next : Nat} (below : current < next) (c : Symbol)
    (quantifier : Option Quantifier) (word : List Symbol) :
    Trace (symbolEdges current c next quantifier) current word next ↔
      (Tree.quantified (.symbol c) quantifier).Denotes word := by
  have apart : current ≠ next := by omega
  match quantifier with
  | none =>
    have first (l : Option Symbol) (t : Nat) :
        symbolEdges current c next none current l t ↔ l = some c ∧ t = next := by
      simp [symbolEdges, EdgeRelation.single]
    have sink (l : Option Symbol) (t : Nat) : ¬ symbolEdges current c next none next l t := by
      simp [symbolEdges, EdgeRelation.single, apart.symm]
    rw [Trace.first_iff first apart, Tree.quantified, Tree.denotes_symbol_iff]
    constructor
    · rintro ⟨rest, rfl, trace⟩
      obtain ⟨rfl, -⟩ := trace.eq_of_sink sink
      rfl
    · rintro rfl
      exact ⟨[], rfl, .nil next⟩
  | some .plus =>
    have first (l : Option Symbol) (t : Nat) :
        symbolEdges current c next (some .plus) current l t ↔ l = some c ∧ t = next := by
      simp [symbolEdges, EdgeRelation.single, apart]
    have loop (l : Option Symbol) (t : Nat) :
        symbolEdges current c next (some .plus) next l t ↔ l = some c ∧ t = next := by
      simp [symbolEdges, EdgeRelation.single, apart.symm]
    rw [Trace.first_iff first apart, Tree.quantified, denotes_plus_symbol_iff]
    simp only [Trace.loop_iff loop, Option.toList_some, List.singleton_append]
  | some .star =>
    have first (l : Option Symbol) (t : Nat) :
        symbolEdges current c next (some .star) current l t ↔ l = none ∧ t = next := by
      simp [symbolEdges, EdgeRelation.single, apart]
    have loop (l : Option Symbol) (t : Nat) :
        symbolEdges current c next (some .star) next l t ↔ l = some c ∧ t = next := by
      simp [symbolEdges, EdgeRelation.single, apart.symm]
    rw [Trace.first_iff first apart, Tree.quantified, denotes_star_symbol_iff]
    simp only [Trace.loop_iff loop, Option.toList_none, List.nil_append, exists_eq_left']

end PatternAutomata.Pattern
