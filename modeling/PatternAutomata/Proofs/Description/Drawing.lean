import PatternAutomata.Description.Writer
import PatternAutomata.Proofs.Description.Reading
import PatternAutomata.Proofs.Description.Renumbering
import PatternAutomata.Proofs.Dfa.Running

/-! # The graph that a description of an automaton draws

The description of a deterministic automaton is the text of a listing (`Dfa.listing`). The graph that
this listing draws has the transitions of the automaton and an epsilon loop at every state
(`draws_listing_iff`), the flag of a state tells whether it accepts (`flag?_listing_iff`), and all states
are mentioned (`mem_stateNumbers_listing_iff`), so the graph recognizes what the automaton does.
-/

namespace PatternAutomata.Dfa

open Description (Header EdgeLine Listing)

variable {dfa : Dfa} {epsilon : Symbol}

/-- The lines of a state: an epsilon loop, and its transitions to each target. -/
def edgeLinesOf (epsilon : Symbol) (state : DfaState) (id : StateId) : List EdgeLine :=
  { accepting := state.accepting, source := id, destination := id, symbols := [epsilon] } ::
    (symbolsByTarget state).entries.map fun (target, symbols) =>
      { accepting := state.accepting, source := id, destination := target, symbols }

/-- What the description of an automaton says. -/
def listing (dfa : Dfa) (epsilon : Symbol) : Listing where
  header := { count := dfa.size, epsilon, declared := dfa.alphabet.toList }
  edgeLines := dfa.states.toList.zipIdx.flatMap fun (state, id) => edgeLinesOf epsilon state id

theorem descriptionFields_eq_listing : dfa.descriptionFields epsilon =
    (dfa.listing epsilon).header.toFields :: (dfa.listing epsilon).edgeLines.map EdgeLine.toFields := by
  have edgeFields_eq (state : DfaState) (id : StateId) :
      stateFields epsilon state id = (edgeLinesOf epsilon state id).map EdgeLine.toFields := by
    simp only [stateFields, edgeLinesOf, List.map_cons, List.map_map]
    rfl
  simp only [descriptionFields, edgeFields_eq, listing, List.map_flatMap]
  rfl

theorem toDescription_eq_ok_iff {text : String} :
    dfa.toDescription epsilon = .ok text ↔
      epsilon ∉ dfa.alphabet ∧ text = .ofList (dfa.listing epsilon).toText := by
  unfold toDescription Listing.toText
  rw [descriptionFields_eq_listing]
  split
  · rename_i isLetter
    simp [isLetter]
  · rename_i notLetter
    simp [notLetter, eq_comm]

/-- Describing an automaton fails only with the letter that was to mark epsilon edges. -/
theorem toDescription_eq_error_iff {cause : DescriptionError} :
    dfa.toDescription epsilon = .error cause ↔ epsilon ∈ dfa.alphabet ∧ cause = .epsilonIsLetter epsilon := by
  unfold toDescription
  split
  · rename_i isLetter
    simp [isLetter, eq_comm]
  · rename_i notLetter
    simp [notLetter]

theorem foldl_symbolsByTarget (entries : List (Symbol × StateId)) (grouped : SortedMap StateId (List Symbol))
    (inhabited : ∀ target symbols, grouped.get? target = some symbols → symbols ≠ []) :
    let result := entries.foldl (fun grouped (symbol, target) =>
      grouped.insert target (((grouped.get? target).getD []) ++ [symbol])) grouped
    (∀ target symbols, result.get? target = some symbols → symbols ≠ []) ∧
      ∀ target symbol, symbol ∈ (result.get? target).getD [] ↔
        symbol ∈ (grouped.get? target).getD [] ∨ (symbol, target) ∈ entries := by
  induction entries generalizing grouped with
  | nil => exact ⟨inhabited, by simp⟩
  | cons entry rest ih =>
    obtain ⟨symbol, target⟩ := entry
    obtain ⟨inhabitedAfter, symbols⟩ := ih
      (grouped.insert target (((grouped.get? target).getD []) ++ [symbol])) (by
        intro other listed found
        rw [SortedMap.get?_insert] at found
        split at found
        · cases found
          simp
        · exact inhabited other listed found)
    refine ⟨inhabitedAfter, fun other letter => ?_⟩
    rw [List.foldl_cons, symbols, SortedMap.get?_insert, List.mem_cons, Prod.mk.injEq]
    by_cases same : target = other
    · subst same
      simp [or_assoc]
    · simp [same, Ne.symm same]

theorem mem_symbolsByTarget_iff (state : DfaState) (target : StateId) (symbol : Symbol) :
    symbol ∈ ((symbolsByTarget state).get? target).getD [] ↔ state.transitions.get? symbol = some target := by
  have members := (foldl_symbolsByTarget state.transitions.entries ∅ (by simp)).2 target symbol
  rw [SortedMap.get?_eq_some_iff]
  simpa [symbolsByTarget] using members

/-- Every target is listed with the symbols that lead there, of which there is at least one. -/
theorem symbols_of_mem_symbolsByTarget {state : DfaState} {target : StateId} {symbols : List Symbol}
    (entry : (target, symbols) ∈ (symbolsByTarget state).entries) :
    symbols ≠ [] ∧ ∀ symbol, symbol ∈ symbols ↔ state.transitions.get? symbol = some target := by
  have found : (symbolsByTarget state).get? target = some symbols := SortedMap.get?_eq_some_iff.mpr entry
  have inhabited := (foldl_symbolsByTarget state.transitions.entries ∅ (by simp)).1 target symbols found
  refine ⟨inhabited, fun symbol => ?_⟩
  rw [← mem_symbolsByTarget_iff, found, Option.getD_some]

theorem exists_mem_symbolsByTarget {state : DfaState} {target : StateId} {symbol : Symbol}
    (leads : state.transitions.get? symbol = some target) :
    ∃ symbols, (target, symbols) ∈ (symbolsByTarget state).entries ∧ symbol ∈ symbols := by
  have member := (mem_symbolsByTarget_iff state target symbol).mpr leads
  cases found : (symbolsByTarget state).get? target with
  | none => simp [found] at member
  | some symbols => exact ⟨symbols, SortedMap.get?_eq_some_iff.mp found, by simpa [found] using member⟩

theorem mem_edgeLines_listing_iff {edge : EdgeLine} :
    edge ∈ (dfa.listing epsilon).edgeLines ↔
      ∃ id state, dfa.states[id]? = some state ∧ edge ∈ edgeLinesOf epsilon state id := by
  simp only [listing, List.mem_flatMap, Prod.exists, List.mem_zipIdx_iff_getElem?, Array.getElem?_toList]
  exact exists_comm

/-- An edge line is the loop of a state, or has the symbols that lead from a state to a target. -/
theorem edgeLine_cases {edge : EdgeLine} (member : edge ∈ (dfa.listing epsilon).edgeLines) :
    (∃ state, dfa.states[edge.source]? = some state ∧ edge.accepting = state.accepting) ∧
      (edge.destination = edge.source ∧ edge.symbols = [epsilon] ∨
        edge.symbols ≠ [] ∧
          ∀ symbol, symbol ∈ edge.symbols ↔ dfa.next? edge.source symbol = some edge.destination) := by
  obtain ⟨id, state, read, lineMember⟩ := mem_edgeLines_listing_iff.mp member
  rcases List.mem_cons.mp lineMember with rfl | listed
  · exact ⟨⟨state, read, rfl⟩, .inl ⟨rfl, rfl⟩⟩
  · obtain ⟨⟨target, symbols⟩, entry, rfl⟩ := List.mem_map.mp listed
    obtain ⟨inhabited, leads⟩ := symbols_of_mem_symbolsByTarget entry
    exact ⟨⟨state, read, rfl⟩, .inr ⟨inhabited, fun symbol => by simp [leads, next?, read]⟩⟩

theorem loop_mem_edgeLines (epsilon : Symbol) {id : StateId} (owned : id < dfa.size) :
    { accepting := dfa.states[id].accepting, source := id, destination := id, symbols := [epsilon] } ∈
      (dfa.listing epsilon).edgeLines :=
  mem_edgeLines_listing_iff.mpr ⟨id, _, getElem?_of_lt owned, List.mem_cons_self ..⟩

theorem letters_mem_edgeLines (epsilon : Symbol) {id target : StateId} {state : DfaState}
    {symbols : List Symbol}
    (read : dfa.states[id]? = some state) (entry : (target, symbols) ∈ (symbolsByTarget state).entries) :
    { accepting := state.accepting, source := id, destination := target, symbols } ∈
      (dfa.listing epsilon).edgeLines :=
  mem_edgeLines_listing_iff.mpr ⟨id, state, read, List.mem_cons_of_mem _ (List.mem_map_of_mem entry)⟩

/-- The graph has the transitions of the automaton, and an epsilon loop at every state. -/
theorem draws_listing_iff (notLetter : epsilon ∉ dfa.alphabet) {source target : Nat}
    {label : Option Symbol} :
    (dfa.listing epsilon).Draws source label target ↔
      (label = none ∧ source = target ∧ source < dfa.size) ∨
        ∃ symbol, label = some symbol ∧ dfa.next? source symbol = some target := by
  constructor
  · rintro ⟨edge, member, rfl, rfl, symbol, symbolMember, same⟩
    obtain ⟨⟨state, read, -⟩, ⟨loop, only⟩ | ⟨-, leads⟩⟩ := edgeLine_cases member
    · obtain rfl : symbol = epsilon := by simpa [only] using symbolMember
      exact .inl ⟨same.trans (if_pos rfl), loop.symm, lt_of_getElem? read⟩
    · have next := (leads symbol).mp symbolMember
      have isLetter : symbol ≠ epsilon := by
        rintro rfl
        exact notLetter (mem_alphabet_iff_next?.mpr ⟨_, _, next⟩)
      exact .inr ⟨symbol, same.trans (if_neg isLetter), next⟩
  · rintro (⟨rfl, rfl, owned⟩ | ⟨symbol, rfl, next⟩)
    · exact ⟨_, loop_mem_edgeLines epsilon owned, rfl, rfl, epsilon, List.mem_cons_self .., (if_pos rfl).symm⟩
    · obtain ⟨state, read, leads⟩ := Option.bind_eq_some_iff.mp next
      obtain ⟨symbols, entry, symbolMember⟩ := exists_mem_symbolsByTarget leads
      have isLetter : symbol ≠ epsilon := by
        rintro rfl
        exact notLetter (mem_alphabet_iff_next?.mpr ⟨_, _, next⟩)
      exact ⟨_, letters_mem_edgeLines epsilon read entry, rfl, rfl, symbol, symbolMember,
        (if_neg isLetter).symm⟩

/-- The flag of a state tells whether it accepts. -/
theorem flag?_listing_iff (id : StateId) :
    (dfa.listing epsilon).flag? id = some true ↔ dfa.Accepting id := by
  constructor
  · intro flagged
    obtain ⟨edge, last, accepts⟩ := Option.map_eq_some_iff.mp flagged
    obtain ⟨member, here⟩ := List.mem_filter.mp (List.mem_of_getLast? last)
    obtain ⟨⟨state, read, same⟩, -⟩ := edgeLine_cases member
    obtain rfl := of_decide_eq_true here
    exact ⟨state, read, same.symm.trans accepts⟩
  · rintro ⟨state, read, accepting⟩
    have here : _ ∈ (dfa.listing epsilon).edgeLines.filter fun edge => edge.source = id :=
      List.mem_filter.mpr ⟨loop_mem_edgeLines epsilon (lt_of_getElem? read), decide_eq_true rfl⟩
    obtain ⟨edge, last⟩ :=
      Option.ne_none_iff_exists'.mp (mt List.getLast?_eq_none_iff.mp (List.ne_nil_of_mem here))
    obtain ⟨member, same⟩ := List.mem_filter.mp (List.mem_of_getLast? last)
    obtain ⟨⟨other, otherRead, flag⟩, -⟩ := edgeLine_cases member
    obtain rfl := of_decide_eq_true same
    obtain rfl := Option.some.inj (read.symm.trans otherRead)
    exact Option.map_eq_some_iff.mpr ⟨edge, last, flag.trans accepting⟩

theorem mem_stateNumbers_listing_iff (inRange : dfa.InRange) {number : Nat} :
    number ∈ (dfa.listing epsilon).stateNumbers ↔ number < dfa.size := by
  rw [Listing.mem_stateNumbers_iff]
  constructor
  · rintro ⟨edge, member, rfl | rfl⟩
    · obtain ⟨⟨state, read, -⟩, -⟩ := edgeLine_cases member
      exact lt_of_getElem? read
    · obtain ⟨⟨state, read, -⟩, ⟨loop, -⟩ | ⟨inhabited, leads⟩⟩ := edgeLine_cases member
      · exact loop ▸ lt_of_getElem? read
      · obtain ⟨symbol, symbolMember⟩ := List.exists_mem_of_ne_nil _ inhabited
        exact inRange _ symbol _ ((leads symbol).mp symbolMember)
  · intro owned
    exact ⟨_, loop_mem_edgeLines epsilon owned, .inl rfl⟩

theorem length_stateNumbers_listing (inRange : dfa.InRange) :
    (dfa.listing epsilon).stateNumbers.length = dfa.size := by
  have same : (dfa.listing epsilon).stateNumbers.Perm (List.range dfa.size) := by
    apply (List.perm_ext_iff_of_nodup (Listing.nodup_stateNumbers _) List.nodup_range).mpr
    intro number
    rw [mem_stateNumbers_listing_iff inRange, List.mem_range]
  rw [same.length_eq, List.length_range]

/-- The first edge line is the loop of the start. -/
theorem head?_edgeLines_listing (epsilon : Symbol) (inhabited : 0 < dfa.size) :
    ∃ first, (dfa.listing epsilon).edgeLines.head? = some first ∧ first.source = StateId.start := by
  obtain ⟨state, rest, states⟩ := List.exists_cons_of_length_pos (Array.length_toList.trans_gt inhabited)
  refine ⟨{ accepting := state.accepting, source := 0, destination := 0, symbols := [epsilon] }, ?_, rfl⟩
  simp [listing, states, edgeLinesOf]

/-- Runs along drawn edges are walks of the automaton. -/
theorem path_listing_iff (notLetter : epsilon ∉ dfa.alphabet) {source target : Nat} {word : List Symbol} :
    (dfa.listing epsilon).Path source word target ↔ dfa.walk? source word = some target := by
  constructor
  · intro path
    induction path with
    | nil number => rfl
    | epsilon edge _ ih =>
      rcases (draws_listing_iff notLetter).mp edge with ⟨-, rfl, -⟩ | ⟨symbol, absurdLabel, -⟩
      · exact ih
      · cases absurdLabel
    | letter edge _ ih =>
      rcases (draws_listing_iff notLetter).mp edge with ⟨absurdLabel, -⟩ | ⟨symbol, same, next⟩
      · cases absurdLabel
      · cases same
        rw [walk?_cons, next, Option.bind_some]
        exact ih
  · intro walk
    induction word generalizing source with
    | nil =>
      obtain rfl := Option.some.inj walk
      exact .nil source
    | cons symbol rest ih =>
      obtain ⟨middle, next, later⟩ := Option.bind_eq_some_iff.mp walk
      exact .letter ((draws_listing_iff notLetter).mpr (.inr ⟨symbol, rfl, next⟩)) (ih later)

theorem recognizes_listing_iff (inhabited : 0 < dfa.size) (notLetter : epsilon ∉ dfa.alphabet)
    (word : List Symbol) : (dfa.listing epsilon).Recognizes word ↔ dfa.Recognizes word := by
  obtain ⟨first, head, start⟩ := head?_edgeLines_listing epsilon inhabited
  simp only [Listing.Recognizes, head, Option.mem_some_iff, exists_eq_left', start,
    path_listing_iff notLetter, flag?_listing_iff, Recognizes]

theorem letters_listing (notLetter : epsilon ∉ dfa.alphabet) :
    (dfa.listing epsilon).letters = dfa.alphabet := by
  apply SortedSet.ext_mem
  intro symbol
  rw [Listing.mem_letters_iff, mem_alphabet_iff_next?]
  simp [draws_listing_iff notLetter]

/-- The header is legible if the epsilon symbol and the letters are not blank. -/
theorem legible_header_listing (few : dfa.size < Text.numeralBound)
    (visibleEpsilon : Text.isBlank epsilon = false)
    (visible : ∀ symbol ∈ dfa.alphabet, Text.isBlank symbol = false) :
    (dfa.listing epsilon).header.Legible where
  count := few
  epsilon := visibleEpsilon
  declared symbol member := visible symbol (SortedSet.mem_def.mpr member)

/-- Under the same conditions every edge line is legible. -/
theorem legible_edgeLine_listing (inRange : dfa.InRange) (few : dfa.size < Text.numeralBound)
    (visibleEpsilon : Text.isBlank epsilon = false)
    (visible : ∀ symbol ∈ dfa.alphabet, Text.isBlank symbol = false)
    {edge : EdgeLine} (member : edge ∈ (dfa.listing epsilon).edgeLines) : edge.Legible := by
  have below {number : Nat} (mentioned : number = edge.source ∨ number = edge.destination) :
      number < Text.numeralBound :=
    have listed := Listing.mem_stateNumbers_iff.mpr ⟨edge, member, mentioned⟩
    Nat.lt_trans ((mem_stateNumbers_listing_iff inRange).mp listed) few
  refine ⟨below (.inl rfl), below (.inr rfl), ?_, fun symbol symbolMember => ?_⟩
  · obtain ⟨-, ⟨-, only⟩ | ⟨inhabited, -⟩⟩ := edgeLine_cases member
    · exact only ▸ List.cons_ne_nil _ _
    · exact inhabited
  · obtain ⟨-, ⟨-, only⟩ | ⟨-, leads⟩⟩ := edgeLine_cases member
    · obtain rfl : symbol = epsilon := by simpa [only] using symbolMember
      exact visibleEpsilon
    · exact visible symbol (mem_alphabet_iff_next?.mpr ⟨_, _, (leads symbol).mp symbolMember⟩)

end PatternAutomata.Dfa
