import PatternAutomata.Description.Basic
import PatternAutomata.Description.Listing
import PatternAutomata.Proofs.Lists
import PatternAutomata.Proofs.Nfa.Edges

/-! # The automaton of a listing is the graph that it draws

Every number that an edge line mentions becomes a state, numbered by its first mention. The edges of the
automaton are the drawn edges between these states, and a state accepts as the last flag of its number
says (`ofListing_eq_ok`), so the automaton recognizes the words that the graph does
(`Renumbered.recognizes_iff`).
-/

namespace PatternAutomata.Description

variable {listing : Listing} {nfa : Nfa}

namespace Listing

/-- The state that a number becomes. -/
def stateOf (listing : Listing) (number : Nat) : StateId := listing.stateNumbers.idxOf number

theorem nodup_stateNumbers (listing : Listing) : listing.stateNumbers.Nodup := nodup_eraseDups _

theorem mem_stateNumbers_iff {number : Nat} :
    number ∈ listing.stateNumbers ↔
      ∃ edge ∈ listing.edgeLines, number = edge.source ∨ number = edge.destination := by
  simp [stateNumbers, List.mem_eraseDups]

theorem stateOf_lt {number : Nat} (mentioned : number ∈ listing.stateNumbers) :
    listing.stateOf number < listing.stateNumbers.length :=
  List.idxOf_lt_length_of_mem mentioned

theorem stateOf_inj {first second : Nat} (mentioned : first ∈ listing.stateNumbers) :
    listing.stateOf first = listing.stateOf second ↔ first = second :=
  List.idxOf_inj mentioned

theorem stateOf_source {first : EdgeLine} {rest : List EdgeLine} (lines : listing.edgeLines = first :: rest) :
    listing.stateOf first.source = StateId.start := by
  rw [stateOf, stateNumbers, lines, List.flatMap_cons, List.cons_append, List.eraseDups_cons]
  exact List.idxOf_cons_self

theorem Draws.mem {source target : Nat} {label : Option Symbol} (draws : listing.Draws source label target) :
    source ∈ listing.stateNumbers ∧ target ∈ listing.stateNumbers := by
  obtain ⟨edge, member, rfl, rfl, -⟩ := draws
  constructor
  · exact mem_stateNumbers_iff.mpr ⟨edge, member, .inl rfl⟩
  · exact mem_stateNumbers_iff.mpr ⟨edge, member, .inr rfl⟩

/-- The letters of a listing are the symbols of the letter edges that it draws. -/
theorem mem_letters_iff {symbol : Symbol} :
    symbol ∈ listing.letters ↔ ∃ source target, listing.Draws source (some symbol) target := by
  simp only [letters, SortedSet.mem_ofList, List.mem_filter, List.mem_flatMap, decide_eq_true_eq]
  constructor
  · rintro ⟨⟨edge, member, symbolMember⟩, isLetter⟩
    refine ⟨edge.source, edge.destination, edge, member, rfl, rfl, symbol, symbolMember, ?_⟩
    rw [if_neg isLetter]
  · rintro ⟨_, _, edge, member, rfl, rfl, other, otherMember, same⟩
    split at same
    · cases same
    · rename_i isLetter
      cases same
      exact ⟨⟨edge, member, otherMember⟩, isLetter⟩

end Listing

def lineEdges (epsilon : Symbol) (source target : StateId) (symbols : List Symbol) : EdgeRelation :=
  fun s label t => s = source ∧ t = target ∧
    ∃ symbol ∈ symbols, label = if symbol = epsilon then none else some symbol

theorem addEdge_eq_ok (epsilon symbol : Symbol) {source target : StateId} (sourceOwned : source < nfa.size)
    (targetOwned : target < nfa.size) :
    ∃ updated, addEdge epsilon source target nfa symbol = .ok updated ∧ updated.size = nfa.size ∧
      Nfa.Extends nfa updated (.single source (if symbol = epsilon then none else some symbol) target) := by
  unfold addEdge
  split
  · exact Nfa.addEpsilon_eq_ok sourceOwned targetOwned
  · exact Nfa.addLetter_eq_ok symbol sourceOwned targetOwned

theorem foldlM_addEdge_eq_ok (epsilon : Symbol) {source target : StateId} (symbols : List Symbol)
    (sourceOwned : source < nfa.size) (targetOwned : target < nfa.size) :
    ∃ updated, symbols.foldlM (addEdge epsilon source target) nfa = .ok updated ∧ updated.size = nfa.size ∧
      Nfa.Extends nfa updated (lineEdges epsilon source target symbols) := by
  induction symbols generalizing nfa with
  | nil =>
    have none : lineEdges epsilon source target [] = ⊥ := by
      funext s label t
      simp [lineEdges]
    exact ⟨nfa, rfl, rfl, none ▸ .refl nfa⟩
  | cons symbol rest ih =>
    obtain ⟨middle, success, sameSize, first⟩ := addEdge_eq_ok epsilon symbol sourceOwned targetOwned
    obtain ⟨updated, restSuccess, restSize, later⟩ := ih (sameSize ▸ sourceOwned) (sameSize ▸ targetOwned)
    have both : lineEdges epsilon source target (symbol :: rest) =
        .single source (if symbol = epsilon then none else some symbol) target ⊔
          lineEdges epsilon source target rest := by
      funext s label t
      rw [eq_iff_iff]
      change _ ↔ EdgeRelation.single _ _ _ s label t ∨ lineEdges epsilon source target rest s label t
      simp only [lineEdges, EdgeRelation.single, List.mem_cons, exists_eq_or_imp]
      constructor
      · rintro ⟨rfl, rfl, same | others⟩
        · exact .inl ⟨rfl, same, rfl⟩
        · exact .inr ⟨rfl, rfl, others⟩
      · rintro (⟨rfl, same, rfl⟩ | ⟨rfl, rfl, others⟩)
        · exact ⟨rfl, rfl, .inl same⟩
        · exact ⟨rfl, rfl, .inr others⟩
    have run := foldlM_cons_eq_ok_iff.mpr ⟨middle, success, restSuccess⟩
    exact ⟨updated, run, restSize.trans sameSize, both ▸ first.trans later⟩

/-- A line sets the acceptance of its source and adds its edges. -/
theorem addEdgeLine_eq_ok (epsilon : Symbol) {numbers : List Nat} {edge : EdgeLine}
    (size : nfa.size = numbers.length) (sourceMember : edge.source ∈ numbers)
    (destinationMember : edge.destination ∈ numbers) :
    ∃ updated, addEdgeLine epsilon numbers nfa edge = .ok updated ∧ updated.size = nfa.size ∧
      updated.Edge = nfa.Edge ⊔
        lineEdges epsilon (numbers.idxOf edge.source) (numbers.idxOf edge.destination) edge.symbols ∧
      ∀ id, updated.Accepting id ↔
        if id = numbers.idxOf edge.source then edge.accepting = true else nfa.Accepting id := by
  have sourceOwned : numbers.idxOf edge.source < nfa.size := size ▸ List.idxOf_lt_length_of_mem sourceMember
  have targetOwned : numbers.idxOf edge.destination < nfa.size :=
    size ▸ List.idxOf_lt_length_of_mem destinationMember
  obtain ⟨flagged, flagSuccess, flagSize, sameEdges, accepts⟩ :=
    Nfa.setAccepting_eq_ok sourceOwned edge.accepting
  obtain ⟨updated, success, sameSize, adds⟩ :=
    foldlM_addEdge_eq_ok epsilon edge.symbols (flagSize ▸ sourceOwned) (flagSize ▸ targetOwned)
  refine ⟨updated, ?_, sameSize.trans flagSize, by rw [adds.edges, sameEdges], fun id => ?_⟩
  · simp only [addEdgeLine, flagSuccess, success, bind, Except.bind]
  · rw [adds.accepting, accepts]

/-- The flag of the last of some lines that has a number as its source. -/
def lastFlag? (edges : List EdgeLine) (number : Nat) : Option Bool :=
  ((edges.filter fun edge => edge.source = number).getLast?).map EdgeLine.accepting

theorem lastFlag?_cons (edge : EdgeLine) (rest : List EdgeLine) (number : Nat) :
    lastFlag? (edge :: rest) number =
      (lastFlag? rest number).or (if edge.source = number then some edge.accepting else none) := by
  unfold lastFlag?
  by_cases same : edge.source = number
  · rw [List.filter_cons_of_pos (by simpa using same), List.getLast?_cons, if_pos same]
    cases (rest.filter fun edge => edge.source = number).getLast? with
    | none => simp
    | some _ => simp
  · rw [List.filter_cons_of_neg (by simpa using same), if_neg same, Option.or_none]

/-- Lines set acceptance, the last one for each source for good, and add all their edges. -/
theorem foldlM_addEdgeLine_eq_ok (epsilon : Symbol) {numbers : List Nat} (edges : List EdgeLine)
    (size : nfa.size = numbers.length)
    (mentioned : ∀ edge ∈ edges, edge.source ∈ numbers ∧ edge.destination ∈ numbers) :
    ∃ updated, edges.foldlM (addEdgeLine epsilon numbers) nfa = .ok updated ∧ updated.size = nfa.size ∧
      (∀ s label t, updated.Edge s label t ↔ nfa.Edge s label t ∨ ∃ edge ∈ edges,
        lineEdges epsilon (numbers.idxOf edge.source) (numbers.idxOf edge.destination) edge.symbols
          s label t) ∧
      ∀ number ∈ numbers, (updated.Accepting (numbers.idxOf number) ↔ lastFlag? edges number = some true ∨
        lastFlag? edges number = none ∧ nfa.Accepting (numbers.idxOf number)) := by
  induction edges generalizing nfa with
  | nil => exact ⟨nfa, rfl, rfl, by simp, by simp [lastFlag?]⟩
  | cons edge rest ih =>
    obtain ⟨sourceMember, destinationMember⟩ := mentioned edge (List.mem_cons_self ..)
    obtain ⟨middle, success, sameSize, sameEdges, accepts⟩ :=
      addEdgeLine_eq_ok epsilon size sourceMember destinationMember
    obtain ⟨updated, restSuccess, restSize, edges, flags⟩ :=
      ih (sameSize.trans size) fun other member => mentioned other (List.mem_cons_of_mem _ member)
    have run := foldlM_cons_eq_ok_iff.mpr ⟨middle, success, restSuccess⟩
    refine ⟨updated, run, restSize.trans sameSize, fun s label t => ?_, fun number member => ?_⟩
    · have here : middle.Edge s label t ↔ nfa.Edge s label t ∨ lineEdges epsilon (numbers.idxOf edge.source)
          (numbers.idxOf edge.destination) edge.symbols s label t := by
        rw [sameEdges]
        rfl
      simp only [edges, here, List.mem_cons, exists_eq_or_imp, or_assoc]
    · simp only [flags number member, accepts, List.idxOf_inj member, lastFlag?_cons]
      cases last : lastFlag? rest number with
      | some flag => simp
      | none =>
        by_cases same : number = edge.source
        · simp [same]
        · simp [same, Ne.symm same]

/-- The automaton is the graph that the listing draws, with numbers as states. -/
structure Renumbered (listing : Listing) (nfa : Nfa) : Prop where
  size : nfa.size = listing.stateNumbers.length
  edge_iff : ∀ s label t, nfa.Edge s label t ↔
    ∃ source target, listing.Draws source label target ∧
      s = listing.stateOf source ∧ t = listing.stateOf target
  accepting_iff : ∀ number ∈ listing.stateNumbers,
    (nfa.Accepting (listing.stateOf number) ↔ listing.flag? number = some true)

theorem ofListing_eq_ok (listing : Listing) :
    ∃ nfa, Renumbered listing nfa ∧ ofListing listing = .ok
      { nfa
        epsilon := listing.header.epsilon
        count := listing.header.count
        declared := listing.header.declared
        alphabet := listing.letters } := by
  have size : (Nfa.ofSize listing.stateNumbers.length).size = listing.stateNumbers.length := by
    simp [Nfa.ofSize, Nfa.size]
  obtain ⟨nfa, success, sameSize, edges, flags⟩ :=
    foldlM_addEdgeLine_eq_ok listing.header.epsilon listing.edgeLines size fun edge member =>
      ⟨Listing.mem_stateNumbers_iff.mpr ⟨edge, member, .inl rfl⟩,
        Listing.mem_stateNumbers_iff.mpr ⟨edge, member, .inr rfl⟩⟩
  refine ⟨nfa, ⟨sameSize.trans size, fun s label t => ?_, fun number member => ?_⟩, ?_⟩
  · rw [edges, show (Nfa.ofSize listing.stateNumbers.length).Edge = ⊥ from Nfa.edge_ofSize _]
    constructor
    · rintro (none | ⟨edge, member, rfl, rfl, symbol, symbolMember, same⟩)
      · exact none.elim
      · exact ⟨edge.source, edge.destination, ⟨edge, member, rfl, rfl, symbol, symbolMember, same⟩, rfl, rfl⟩
    · rintro ⟨_, _, ⟨edge, member, rfl, rfl, symbol, symbolMember, same⟩, rfl, rfl⟩
      exact .inr ⟨edge, member, rfl, rfl, symbol, symbolMember, same⟩
  · have silent := Nfa.not_accepting_ofSize listing.stateNumbers.length (listing.stateNumbers.idxOf number)
    have flagged := flags number member
    simp only [silent, and_false, or_false] at flagged
    exact flagged
  · simp only [ofListing, success, bind, Except.bind]

theorem ofText_eq_ok_iff {text : String} {read : Description} : ofText text = .ok read ↔
    ∃ listing, Listing.ofText text.toList = .ok listing ∧ ofListing listing = .ok read := by
  change ((Listing.ofText text.toList).mapError Error.description).bind (fun listing =>
    (ofListing listing).mapError Error.fault) = .ok read ↔ _
  cases Listing.ofText text.toList with
  | error cause => simp [Except.mapError, Except.bind]
  | ok listing => cases built : ofListing listing <;> simp [Except.mapError, Except.bind, built]

namespace Renumbered

theorem inRange (renumbered : Renumbered listing nfa) : nfa.InRange := by
  intro s label t edge
  obtain ⟨source, target, draws, rfl, rfl⟩ := (renumbered.edge_iff s label t).mp edge
  rw [renumbered.size]
  exact Listing.stateOf_lt draws.mem.2

/-- A path of the automaton goes along drawn edges. -/
theorem exists_path_of_path (renumbered : Renumbered listing nfa) {source : Nat} {word : List Symbol}
    {t : StateId} (mentioned : source ∈ listing.stateNumbers)
    (path : nfa.Path (listing.stateOf source) word t) :
    ∃ target ∈ listing.stateNumbers, t = listing.stateOf target ∧ listing.Path source word target := by
  generalize begins : listing.stateOf source = s at path
  induction path generalizing source with
  | nil _ => exact ⟨source, mentioned, begins.symm, .nil source⟩
  | epsilon edge _ ih =>
    obtain ⟨here, next, draws, same, rfl⟩ := (renumbered.edge_iff _ _ _).mp edge
    obtain rfl := (Listing.stateOf_inj mentioned).mp (begins.trans same)
    obtain ⟨target, member, ends, rest⟩ := ih draws.mem.2 rfl
    exact ⟨target, member, ends, .epsilon draws rest⟩
  | letter edge _ ih =>
    obtain ⟨here, next, draws, same, rfl⟩ := (renumbered.edge_iff _ _ _).mp edge
    obtain rfl := (Listing.stateOf_inj mentioned).mp (begins.trans same)
    obtain ⟨target, member, ends, rest⟩ := ih draws.mem.2 rfl
    exact ⟨target, member, ends, .letter draws rest⟩

theorem path_of_path (renumbered : Renumbered listing nfa) {source target : Nat} {word : List Symbol}
    (path : listing.Path source word target) :
    nfa.Path (listing.stateOf source) word (listing.stateOf target) := by
  induction path with
  | nil _ => exact .nil _
  | epsilon draws _ ih => exact .epsilon ((renumbered.edge_iff _ _ _).mpr ⟨_, _, draws, rfl, rfl⟩) ih
  | letter draws _ ih => exact .letter ((renumbered.edge_iff _ _ _).mpr ⟨_, _, draws, rfl, rfl⟩) ih

/-- A number with a flag is mentioned. -/
theorem mem_of_flag? {number : Nat} {flag : Bool} (flagged : listing.flag? number = some flag) :
    number ∈ listing.stateNumbers := by
  obtain ⟨edge, last, -⟩ := Option.map_eq_some_iff.mp flagged
  have member := List.mem_filter.mp (List.mem_of_getLast? last)
  exact Listing.mem_stateNumbers_iff.mpr ⟨edge, member.1, .inl (of_decide_eq_true member.2).symm⟩

/-- The automaton recognizes the words that the graph does. -/
theorem recognizes_iff (renumbered : Renumbered listing nfa) (word : List Symbol) :
    nfa.Recognizes word ↔ listing.Recognizes word := by
  cases lines : listing.edgeLines with
  | nil =>
    have empty : nfa.size = 0 := by simp [renumbered.size, Listing.stateNumbers, lines]
    exact iff_of_false (Nfa.not_recognizes_of_size_eq_zero empty word)
      (Listing.not_recognizes_of_edgeLines_eq_nil lines word)
  | cons first rest =>
    have start := Listing.stateOf_source lines
    have mentioned : first.source ∈ listing.stateNumbers :=
      Listing.mem_stateNumbers_iff.mpr ⟨first, lines ▸ List.mem_cons_self .., .inl rfl⟩
    constructor
    · rintro ⟨t, path, accepting⟩
      rw [← start] at path
      obtain ⟨target, member, rfl, run⟩ := renumbered.exists_path_of_path mentioned path
      exact ⟨first, by simp [lines], target, run, (renumbered.accepting_iff target member).mp accepting⟩
    · rintro ⟨other, head, target, run, flagged⟩
      obtain rfl : first = other := by simpa [lines] using head
      refine ⟨listing.stateOf target, start ▸ renumbered.path_of_path run, ?_⟩
      exact (renumbered.accepting_iff target (mem_of_flag? flagged)).mpr flagged

end Renumbered

end PatternAutomata.Description
