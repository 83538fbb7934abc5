import PatternAutomata.Proofs.Pattern.Nesting

/-! # What all tokens have in common

Whatever a token is, it adds edges, every state that it adds is entered from the current one, and it adds letters
only if it is a symbol (`Takes.exists_grows`). A run over the tokens of a text is a run over the text: what every token
keeps up about the text before it and the builder holds of the whole text in the end (`foldlM_text_invariant`).
-/

namespace PatternAutomata.Pattern

def Token.symbol? : Token → Option Symbol
  | .symbol c _ => some c
  | .opening | .closing _ | .bar | .stray _ => none

namespace Builder

variable {builder next : Builder} {edge : EdgeRelation} {token : Token}

/-- A token has added edges: to every new state from the current one, and with letters if it is a symbol. -/
structure Grows (builder next : Builder) (token : Token) (edge : EdgeRelation) : Prop where
  adds : Nfa.Extends builder.nfa next.nfa edge
  arrives : ∀ id < next.nfa.size, builder.nfa.size ≤ id → ∃ label, edge builder.current label id
  letters : ∀ c, (∃ source target, edge source (some c) target) ↔ token.symbol? = some c

/-- A token that is not a symbol grows the automaton if the edges that it adds consume nothing. -/
theorem Grows.ofSilent (adds : Nfa.Extends builder.nfa next.nfa edge)
    (arrives : ∀ id < next.nfa.size, builder.nfa.size ≤ id → ∃ label, edge builder.current label id)
    (silent : ∀ source label target, edge source label target → label = none)
    (other : token.symbol? = none) : Grows builder next token edge := by
  refine ⟨adds, arrives, fun c => iff_of_false ?_ ?_⟩
  · rintro ⟨source, target, added⟩
    exact absurd (silent _ _ _ added) nofun
  · rw [other]
    nofun

theorem Takes.exists_grows {lexeme : Lexeme} (takes : builder.Takes lexeme next) :
    ∃ edge, Grows builder next lexeme.token edge := by
  cases takes with
  | @symbol nfa _ c quantifier grown adds =>
    refine ⟨_, adds, fun id owned new => ?_, fun x => exists_symbolEdges_letter_iff.trans ?_⟩
    · obtain rfl := Nat.eq_of_le_of_lt_succ new (grown ▸ owned)
      exact exists_symbolEdges_fresh _ _ c quantifier
    · rw [Token.symbol?, Option.some.injEq, eq_comm]
  | opening nfa grown adds =>
    refine ⟨_, .ofSilent adds (fun id owned new => ?_) (fun _ _ _ edge => edge.2.1) rfl⟩
    obtain rfl := Nat.eq_of_le_of_lt_succ new (grown ▸ owned)
    exact ⟨none, rfl, rfl, rfl⟩
  | closing nfa group groups innermost within grown adds =>
    refine ⟨_, .ofSilent adds (fun id owned new => ?_) ?_ rfl⟩
    · obtain rfl := eq_exitOf (grown ▸ owned) new
      exact ⟨none, .inr ⟨rfl, rfl, rfl⟩⟩
    · rintro source label target (around | joined)
      · exact quantifierEdges_label around
      · exact joined.2.1
  | bar nfa grown adds =>
    refine ⟨_, .ofSilent adds (fun id owned new => ?_) (fun _ _ _ edge => edge.2.1) rfl⟩
    obtain rfl := eq_exitOf (grown ▸ owned) new
    exact ⟨none, rfl, rfl, rfl⟩

/-- What every token keeps up about the text before it and the builder, a run over tokens keeps up. -/
theorem foldlM_text_invariant {holds : List Char → Builder → Prop} {front : List Char} {lexemes : List Lexeme}
    (start : holds front builder) (success : lexemes.foldlM Builder.add builder = .ok next)
    (step : ∀ lexeme ∈ lexemes, ∀ text here after, holds text here → here.add lexeme = .ok after →
      holds (text ++ lexeme.token.text) after) :
    holds (front ++ lexemes.flatMap fun lexeme => lexeme.token.text) next := by
  induction lexemes generalizing front builder with
  | nil =>
    obtain rfl := Except.ok.inj success
    rw [List.flatMap_nil, List.append_nil]
    exact start
  | cons lexeme rest ih =>
    obtain ⟨middle, first, success⟩ := foldlM_cons_eq_ok_iff.mp success
    have here := step lexeme (List.mem_cons_self ..) front builder middle start first
    have whole := ih here success fun other member => step other (List.mem_cons_of_mem _ member)
    rwa [List.flatMap_cons, ← List.append_assoc]

def AllReached (builder : Builder) : Prop :=
  ∀ id < builder.nfa.size, ∃ word, Trace builder.nfa.Edge StateId.start word id

theorem allReached_start : Builder.start.AllReached := by
  intro id owned
  obtain rfl : id = StateId.start := Nat.lt_one_iff.mp owned
  exact ⟨[], .nil _⟩

/-- Growth keeps up that every state is reached, since what is new is entered from the current state. -/
theorem AllReached.grows (reached : builder.AllReached) (current : builder.current < builder.nfa.size)
    (grows : Grows builder next token edge) : next.AllReached := by
  have kept {id : StateId} {word : List Symbol} (trace : Trace builder.nfa.Edge StateId.start word id) :
      Trace next.nfa.Edge StateId.start word id := trace.mono grows.adds.old_le
  intro id owned
  rcases Nat.lt_or_ge id builder.nfa.size with old | new
  · obtain ⟨word, trace⟩ := reached id old
    exact ⟨word, kept trace⟩
  · obtain ⟨word, trace⟩ := reached builder.current current
    obtain ⟨label, arrival⟩ := grows.arrives id owned new
    have last := Trace.ofEdge (grows.adds.added_le _ _ _ arrival)
    exact ⟨word ++ label.toList, (kept trace).append last⟩

theorem AllReached.foldlM {lexemes : List Lexeme} (reached : builder.AllReached) (valid : builder.WellFormed)
    (success : lexemes.foldlM Builder.add builder = .ok next) : next.AllReached := by
  refine valid.foldlM_takes reached success fun _ _ _ valid takes reached => ?_
  obtain ⟨edge, grows⟩ := takes.exists_grows
  exact reached.grows valid.current grows

end Builder

end PatternAutomata.Pattern
