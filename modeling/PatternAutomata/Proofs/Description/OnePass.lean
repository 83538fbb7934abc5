import Mathlib.Data.List.Induction
import PatternAutomata.Description.OnePass
import PatternAutomata.Proofs.Description.Renumbering

/-! # Reading in one pass reads the same

A line whose numbers become states while it is read is read as the edge line that it spells, and its numbers become
states then (`StateLine.ofLine_eq`): where the line is refused, nothing is left of the states. The numbers that have
been met are those of the edge lines so far, and a state keeps its place when others are met
(`foldl_enter`), so `ofTextInOnePass` is `ofText`.
-/

namespace PatternAutomata.Description

/-- The numbers that have been met when one is met. -/
def mention (numbers : List Nat) (number : Nat) : List Nat :=
  if number ∈ numbers then numbers else numbers ++ [number]

theorem mem_mention (numbers : List Nat) (number : Nat) : number ∈ mention numbers number := by
  unfold mention
  split
  · assumption
  · exact List.mem_append_right _ (List.mem_cons_self ..)

theorem mem_mention_of_mem {numbers : List Nat} {number : Nat} (member : number ∈ numbers) (other : Nat) :
    number ∈ mention numbers other := by
  unfold mention
  split
  · exact member
  · exact List.mem_append_left _ member

theorem idxOf_mention {numbers : List Nat} {number : Nat} (member : number ∈ numbers) (other : Nat) :
    (mention numbers other).idxOf number = numbers.idxOf number := by
  unfold mention
  split
  · rfl
  · exact List.idxOf_append_of_mem member

theorem renumber_eq (numbers : List Nat) (number : Nat) :
    renumber numbers number = ((mention numbers number).idxOf number, mention numbers number) := by
  by_cases member : number ∈ numbers
  · rw [renumber, idxOf?_eq_some_idxOf member, mention, if_pos member]
  · rw [renumber, List.idxOf?_eq_none_iff.mpr member, mention, if_neg member,
      List.idxOf_append_of_notMem member, List.idxOf_cons_self, Nat.add_zero]

theorem eraseDups_concat (items : List Nat) (item : Nat) :
    (items ++ [item]).eraseDups = mention items.eraseDups item := by
  rw [List.eraseDups_append]
  by_cases member : item ∈ items
  · simp [mention, List.mem_eraseDups, member, List.removeAll]
  · simp [mention, List.mem_eraseDups, member, List.removeAll, List.eraseDups_cons]

/-- What becomes of an edge line, and the numbers that have been met then. -/
def EdgeLine.enter (numbers : List Nat) (edge : EdgeLine) : StateLine × List Nat :=
  let (source, numbers) := renumber numbers edge.source
  let (target, numbers) := renumber numbers edge.destination
  ({ accepting := edge.accepting, source, target, symbols := edge.symbols }, numbers)

/-- An edge line between the states at the places of its numbers. -/
def EdgeLine.placed (numbers : List Nat) (edge : EdgeLine) : StateLine where
  accepting := edge.accepting
  source := numbers.idxOf edge.source
  target := numbers.idxOf edge.destination
  symbols := edge.symbols

theorem EdgeLine.enter_eq (numbers : List Nat) (edge : EdgeLine) : edge.enter numbers =
    (edge.placed (mention (mention numbers edge.source) edge.destination),
      mention (mention numbers edge.source) edge.destination) := by
  simp only [enter, renumber_eq, placed, idxOf_mention (mem_mention numbers edge.source)]

/-- A line is read as an edge line, and its numbers are entered when it has been read. -/
theorem StateLine.ofLine_eq (numbers : List Nat) (line : NumberedLine) :
    StateLine.ofLine numbers line = (EdgeLine.ofLine line).map (EdgeLine.enter numbers) := by
  unfold StateLine.ofLine EdgeLine.ofLine
  cases line.fields with
  | nil => rfl
  | cons flag rest =>
    rw [map_bind_eq]
    refine bind_congr fun accepting => ?_
    rcases rest with _ | ⟨source, _ | ⟨destination, symbols⟩⟩
    · rfl
    · rfl
    · rw [map_bind_eq]
      refine bind_congr fun n => ?_
      rw [map_bind_eq]
      refine bind_congr fun m => ?_
      rw [map_bind_eq]
      refine bind_congr fun symbols => ?_
      split
      · rfl
      · rfl

def LinesRead.enter (read : LinesRead) (edge : EdgeLine) : LinesRead where
  numbers := (edge.enter read.numbers).2
  lines := read.lines ++ [(edge.enter read.numbers).1]

theorem LinesRead.add_eq (read : LinesRead) (line : NumberedLine) :
    read.add line = (EdgeLine.ofLine line).map read.enter := by
  rw [LinesRead.add, StateLine.ofLine_eq]
  cases EdgeLine.ofLine line with
  | error cause => rfl
  | ok edge => rfl

def Listing.linesRead (listing : Listing) : LinesRead where
  numbers := listing.stateNumbers
  lines := listing.edgeLines.map (EdgeLine.placed listing.stateNumbers)

/-- Entering edge lines one by one collects the numbers on them and puts each line between the places of its
numbers, which stay where they are. -/
theorem foldl_enter (header : Header) (edges : List EdgeLine) :
    edges.foldl LinesRead.enter {} = Listing.linesRead ⟨header, edges⟩ := by
  induction edges using List.reverseRecOn with
  | nil => rfl
  | append_singleton edges edge ih =>
    have numbers : Listing.stateNumbers ⟨header, edges ++ [edge]⟩ =
        mention (mention (Listing.stateNumbers ⟨header, edges⟩) edge.source) edge.destination := by
      rw [Listing.stateNumbers, Listing.stateNumbers, List.flatMap_append, ← eraseDups_concat, ← eraseDups_concat]
      simp
    have earlier : edges.map (EdgeLine.placed (Listing.stateNumbers ⟨header, edges ++ [edge]⟩)) =
        edges.map (EdgeLine.placed (Listing.stateNumbers ⟨header, edges⟩)) := by
      refine List.map_congr_left fun other member => ?_
      have source : other.source ∈ Listing.stateNumbers ⟨header, edges⟩ :=
        Listing.mem_stateNumbers_iff.mpr ⟨other, member, .inl rfl⟩
      have destination : other.destination ∈ Listing.stateNumbers ⟨header, edges⟩ :=
        Listing.mem_stateNumbers_iff.mpr ⟨other, member, .inr rfl⟩
      rw [numbers, EdgeLine.placed, EdgeLine.placed, idxOf_mention (mem_mention_of_mem source _),
        idxOf_mention source, idxOf_mention (mem_mention_of_mem destination _), idxOf_mention destination]
    rw [List.foldl_append, ih, List.foldl_cons, List.foldl_nil, LinesRead.enter, EdgeLine.enter_eq,
      Listing.linesRead, Listing.linesRead, List.map_append, earlier, numbers]
    rfl

theorem foldlM_addSymbol_eq (epsilon : Symbol) (source target : StateId) (symbols : List Symbol) (nfa : Nfa)
    (alphabet : Alphabet) : symbols.foldlM (addSymbol epsilon source target) (nfa, alphabet) =
      (symbols.foldlM (addEdge epsilon source target) nfa).map
        (·, alphabet.insertAll (symbols.filter (· ≠ epsilon))) := by
  induction symbols generalizing nfa alphabet with
  | nil => rfl
  | cons symbol rest ih =>
    rw [List.foldlM_cons, List.foldlM_cons, addSymbol, addEdge]
    by_cases same : symbol = epsilon
    · simp only [if_pos same, bind, Except.bind]
      cases nfa.addEpsilon source target with
      | error fault => rfl
      | ok updated => simp [ih, same]
    · simp only [if_neg same, bind, Except.bind]
      cases nfa.addLetter source symbol target with
      | error fault => rfl
      | ok updated => simp [ih, same, SortedSet.insertAll]

theorem foldlM_addStateLine_eq (epsilon : Symbol) (numbers : List Nat) (edges : List EdgeLine) (nfa : Nfa)
    (alphabet : Alphabet) :
    (edges.map (EdgeLine.placed numbers)).foldlM (addStateLine epsilon) (nfa, alphabet) =
      (edges.foldlM (addEdgeLine epsilon numbers) nfa).map
        (·, alphabet.insertAll ((edges.flatMap EdgeLine.symbols).filter (· ≠ epsilon))) := by
  induction edges generalizing nfa alphabet with
  | nil => rfl
  | cons edge rest ih =>
    rw [List.map_cons, List.foldlM_cons, List.foldlM_cons, addStateLine, addEdgeLine]
    simp only [EdgeLine.placed, bind, Except.bind, foldlM_addSymbol_eq]
    cases nfa.setAccepting (numbers.idxOf edge.source) edge.accepting with
    | error fault => rfl
    | ok flagged =>
      dsimp only
      cases edge.symbols.foldlM (addEdge epsilon (numbers.idxOf edge.source) (numbers.idxOf edge.destination))
          flagged with
      | error fault => rfl
      | ok updated => simp [ih, SortedSet.insertAll, Except.map]

theorem readLines_eq (text : List Char) :
    readLines text = (Listing.ofText text).map fun listing => (listing.header, listing.linesRead) := by
  unfold readLines Listing.ofText
  cases contentLines text with
  | nil => rfl
  | cons first rest =>
    have read : rest.foldlM LinesRead.add {} =
        (rest.mapM EdgeLine.ofLine).map fun edges => edges.foldl LinesRead.enter {} := by
      rw [← foldlM_map_eq, funext₂ LinesRead.add_eq]
    simp only [read, bind, Except.bind]
    cases Header.ofLine first with
    | error cause => rfl
    | ok header =>
      dsimp only
      cases rest.mapM EdgeLine.ofLine with
      | error cause => rfl
      | ok edges =>
        have found : (Listing.linesRead ⟨header, edges⟩).numbers = Listing.stateNumbers ⟨header, edges⟩ := rfl
        simp only [Except.map, foldl_enter header, found]
        by_cases few : header.count < (Listing.stateNumbers ⟨header, edges⟩).length
        · rw [if_pos few, if_pos few]
        · rw [if_neg few, if_neg few]

theorem ofStateLines_eq (listing : Listing) :
    ofStateLines listing.header listing.linesRead = ofListing listing := by
  simp only [ofStateLines, ofListing, Listing.linesRead, foldlM_addStateLine_eq, bind, Except.bind]
  cases listing.edgeLines.foldlM (addEdgeLine listing.header.epsilon listing.stateNumbers)
      (.ofSize listing.stateNumbers.length) with
  | error fault => rfl
  | ok nfa => rfl

/-- It makes no difference that the numbers of a line become states before the rest of it is read. -/
theorem ofTextInOnePass_eq (text : String) : ofTextInOnePass text = ofText text := by
  simp only [ofTextInOnePass, ofText, readLines_eq]
  cases Listing.ofText text.toList with
  | error cause => rfl
  | ok listing =>
    simp only [Except.map, ← ofStateLines_eq]
    rfl

end PatternAutomata.Description
