import Mathlib.Order.Bounds.Basic
import PatternAutomata.Dfa.Occurrence
import PatternAutomata.Dfa.Separation
import PatternAutomata.Proofs.Dfa.Searching

/-! # Searches find the longest and the leftmost

The accepted beginnings of `symbol :: rest` are the empty one, if the state accepts, and the symbol with the
accepted beginnings of `rest` from where the symbol leads (`mem_prefixSizes_cons_iff`). A search walks along them
once: what it has when it stops is the longest one, and stopping in a dead state loses nothing, because nothing is
accepted from there (`extendPrefix_eq_longest`). The accepted parts of `symbol :: rest` are its accepted beginnings
and the accepted parts of `rest` (`mem_partSpans_cons_iff`), so trying one place after the other finds the leftmost
of them (`findFrom_eq_leftmost`).
-/

namespace PatternAutomata.Dfa

variable {dfa : Dfa} {id : StateId} {live : StateSet} {symbol : Symbol} {word rest : List Symbol}

theorem isMatch_eq_true_iff (inhabited : 0 < dfa.size) (inRange : dfa.InRange) {input : String} :
    dfa.isMatch input = .ok true ↔ dfa.AcceptsFrom StateId.start input.toList := by
  obtain ⟨matched, success, recognized⟩ := isMatch_eq_ok inhabited inRange input
  rw [success, Except.ok.injEq]
  exact recognized

theorem isMatch_eq_false_iff (inhabited : 0 < dfa.size) (inRange : dfa.InRange) {input : String} :
    dfa.isMatch input = .ok false ↔ ¬ dfa.isMatch input = .ok true := by
  obtain ⟨matched, success, -⟩ := isMatch_eq_ok inhabited inRange input
  rw [success]
  cases matched <;> simp

/-- How many bytes the beginnings of a word have that lead from a state to an accepting one. -/
def prefixSizes (dfa : Dfa) (id : StateId) (word : List Symbol) : Set Nat :=
  {bytes | ∃ front rest, word = front ++ rest ∧ dfa.AcceptsFrom id front ∧ Text.byteSize front = bytes}

/-- The largest number of a set, or none where there is no number. -/
def IsLargest (sizes : Set Nat) : Option Nat → Prop
  | some size => IsGreatest sizes size
  | none => sizes = ∅

theorem IsLargest.unique {sizes : Set Nat} {first second : Option Nat} (left : IsLargest sizes first)
    (right : IsLargest sizes second) : first = second := by
  cases first with
  | none =>
    cases second with
    | none => rfl
    | some size => exact absurd (left ▸ right.1) (Set.notMem_empty size)
  | some size =>
    cases second with
    | none => exact absurd (right ▸ left.1) (Set.notMem_empty size)
    | some other => rw [IsGreatest.unique left right]

theorem IsLargest.eq_some_iff {sizes : Set Nat} {largest : Option Nat} (isLargest : IsLargest sizes largest)
    (size : Nat) : largest = some size ↔ IsGreatest sizes size :=
  ⟨fun same => by rwa [same] at isLargest,
    fun greatest => isLargest.unique (show IsLargest sizes (some size) from greatest)⟩

theorem IsLargest.eq_none_iff {sizes : Set Nat} {largest : Option Nat} (isLargest : IsLargest sizes largest) :
    largest = none ↔ sizes = ∅ :=
  ⟨fun same => by rwa [same] at isLargest, fun empty => isLargest.unique (show IsLargest sizes none from empty)⟩

theorem mem_prefixSizes_nil_iff {bytes : Nat} :
    bytes ∈ dfa.prefixSizes id [] ↔ bytes = 0 ∧ dfa.Accepting id := by
  constructor
  · rintro ⟨front, rest, whole, accepts, rfl⟩
    obtain ⟨rfl, rfl⟩ := List.nil_eq_append_iff.mp whole
    exact ⟨rfl, acceptsFrom_nil_iff.mp accepts⟩
  · rintro ⟨rfl, accepting⟩
    exact ⟨[], [], rfl, acceptsFrom_nil_iff.mpr accepting, rfl⟩

/-- An accepted beginning is empty, or it goes on after the first symbol. -/
theorem mem_prefixSizes_cons_iff {bytes : Nat} : bytes ∈ dfa.prefixSizes id (symbol :: rest) ↔
    (bytes = 0 ∧ dfa.Accepting id) ∨ ∃ target, dfa.next? id symbol = some target ∧
      ∃ more ∈ dfa.prefixSizes target rest, symbol.utf8Size + more = bytes := by
  constructor
  · rintro ⟨front, after, whole, accepts, rfl⟩
    cases front with
    | nil => exact .inl ⟨rfl, acceptsFrom_nil_iff.mp accepts⟩
    | cons first front =>
      obtain ⟨rfl, rfl⟩ := List.cons.inj whole
      obtain ⟨target, step, later⟩ := acceptsFrom_cons_iff.mp accepts
      exact .inr ⟨target, step, _, ⟨front, after, rfl, later, rfl⟩, rfl⟩
  · rintro (⟨rfl, accepting⟩ | ⟨target, step, more, ⟨front, after, rfl, later, rfl⟩, rfl⟩)
    · exact ⟨[], symbol :: rest, rfl, acceptsFrom_nil_iff.mpr accepting, rfl⟩
    · exact ⟨symbol :: front, after, rfl, acceptsFrom_cons_iff.mpr ⟨target, step, later⟩, rfl⟩

/-- Where no symbol is taken, only the empty beginning can be accepted. -/
theorem isLargest_of_mem_iff {sizes : Set Nat} {accepting : Bool}
    (only : ∀ bytes, bytes ∈ sizes ↔ bytes = 0 ∧ accepting = true) :
    IsLargest sizes (if accepting then some 0 else none) := by
  cases accepting with
  | true => exact ⟨(only 0).mpr ⟨rfl, rfl⟩, fun bytes member => Nat.le_of_eq ((only bytes).mp member).1⟩
  | false => exact Set.eq_empty_of_forall_notMem fun bytes member => Bool.false_ne_true ((only bytes).mp member).2

/-- The longest accepted beginning goes on after the first symbol if there is one that does. -/
theorem isLargest_prefixSizes_cons {target : StateId} {accepting : Bool} {longest : Option Nat}
    (accepts : accepting = true ↔ dfa.Accepting id) (step : dfa.next? id symbol = some target)
    (isLargest : IsLargest (dfa.prefixSizes target rest) longest) :
    IsLargest (dfa.prefixSizes id (symbol :: rest))
      ((longest.map (symbol.utf8Size + ·)).or (if accepting then some 0 else none)) := by
  have mem_iff (bytes : Nat) : bytes ∈ dfa.prefixSizes id (symbol :: rest) ↔
      (bytes = 0 ∧ accepting = true) ∨ ∃ more ∈ dfa.prefixSizes target rest, symbol.utf8Size + more = bytes := by
    rw [mem_prefixSizes_cons_iff, accepts, step]
    simp only [Option.some.injEq, exists_eq_left']
  cases longest with
  | none =>
    have empty : dfa.prefixSizes target rest = ∅ := isLargest
    apply isLargest_of_mem_iff
    simp [mem_iff, empty]
  | some longest =>
    refine ⟨(mem_iff _).mpr (.inr ⟨longest, isLargest.1, rfl⟩), fun bytes member => ?_⟩
    rcases (mem_iff bytes).mp member with ⟨rfl, -⟩ | ⟨more, moreMember, rfl⟩
    · exact Nat.zero_le _
    · exact Nat.add_le_add_left (isLargest.2 moreMember) _

/-- Nothing is accepted from a state that is not live. -/
theorem prefixSizes_eq_empty (dead : ¬ dfa.Live id) (word : List Symbol) : dfa.prefixSizes id word = ∅ := by
  apply Set.eq_empty_of_forall_notMem
  rintro bytes ⟨front, rest, -, ⟨target, walk, accepting⟩, -⟩
  exact dead ⟨front, target, walk, accepting⟩

/-- A search that has come to a state goes on to the longest accepted beginning from there, and keeps what it had
before if there is none. All that the set of states has to do is to contain the live ones. -/
theorem extendPrefix_eq_longest (inRange : dfa.InRange) (covers : ∀ id, dfa.Live id → id ∈ live)
    (owned : id < dfa.size) {accepting : Bool} (accepts : accepting = true ↔ dfa.Accepting id) (read : Nat)
    (earlier : Option Nat) (word : List Symbol) :
    ∃ longest, IsLargest (dfa.prefixSizes id word) longest ∧
      dfa.extendPrefix live id read (if accepting then some read else earlier) word =
        .ok ((longest.map (read + ·)).or earlier) := by
  -- where the search stops, it has what the state itself gives
  have stopped : (if accepting then some read else earlier) =
      ((if accepting then some 0 else none : Option Nat).map (read + ·)).or earlier := by
    cases accepting <;> rfl
  induction word generalizing id accepting read earlier with
  | nil =>
    refine ⟨_, isLargest_of_mem_iff fun bytes => ?_, by rw [extendPrefix, stopped]⟩
    rw [mem_prefixSizes_nil_iff, accepts]
  | cons symbol rest ih =>
    by_cases alive : id ∈ live
    · simp only [extendPrefix, alive, not_true_eq_false, ↓reduceIte, transition_eq_ok dfa owned, bind, Except.bind]
      cases step : dfa.next? id symbol with
      | none =>
        refine ⟨_, isLargest_of_mem_iff fun bytes => ?_, congrArg Except.ok stopped⟩
        rw [mem_prefixSizes_cons_iff, accepts, step]
        simp
      | some target =>
        have targetOwned := inRange id symbol target step
        obtain ⟨targetAccepting, success, targetAccepts⟩ := isAccepting_eq_ok targetOwned
        obtain ⟨longest, isLargest, found⟩ := ih targetOwned targetAccepts (read + symbol.utf8Size)
          (if accepting then some read else earlier) (by cases targetAccepting <;> rfl)
        refine ⟨_, isLargest_prefixSizes_cons accepts step isLargest, ?_⟩
        simp only [success]
        rw [found, stopped]
        cases longest with
        | none => rfl
        | some longest => simp [Nat.add_assoc]
    · have empty := prefixSizes_eq_empty (mt (covers id) alive) (symbol :: rest)
      have rejecting : accepting = false := by
        rw [Bool.eq_false_iff]
        intro accepting
        exact alive (covers id ⟨[], id, rfl, accepts.mp accepting⟩)
      refine ⟨none, empty, ?_⟩
      simp [extendPrefix, alive, rejecting]

theorem longestPrefixWith_eq_longest (inhabited : 0 < dfa.size) (inRange : dfa.InRange)
    (covers : ∀ id, dfa.Live id → id ∈ live) (word : List Symbol) :
    ∃ longest, IsLargest (dfa.prefixSizes StateId.start word) longest ∧
      dfa.longestPrefixWith live word = .ok longest := by
  have owned : StateId.start < dfa.size := inhabited
  obtain ⟨accepting, success, accepts⟩ := isAccepting_eq_ok owned
  obtain ⟨longest, isLargest, found⟩ := extendPrefix_eq_longest inRange covers owned accepts 0 none word
  refine ⟨longest, isLargest, ?_⟩
  simp only [longestPrefixWith, success, bind, Except.bind]
  rw [found]
  cases longest <;> simp

theorem matchesPrefix_iff (inhabited : 0 < dfa.size) (inRange : dfa.InRange) {input : String} {length : Nat} :
    dfa.MatchesPrefix input length ↔ length ∈ dfa.prefixSizes StateId.start input.toList := by
  constructor
  · rintro ⟨front, rest, rfl, matched, rfl⟩
    exact ⟨front.toList, rest.toList, String.toList_append, (isMatch_eq_true_iff inhabited inRange).mp matched,
      Text.byteSize_toList front⟩
  · rintro ⟨front, rest, whole, accepts, rfl⟩
    refine ⟨.ofList front, .ofList rest, ?_, ?_, Text.utf8ByteSize_ofList front⟩
    · rw [← String.ofList_append, ← whole, String.ofList_toList]
    · rwa [isMatch_eq_true_iff inhabited inRange, String.toList_ofList]

/-- The search for the longest accepted prefix answers the length in bytes of the longest beginning of the input
that is matched as a whole, and nothing exactly if every beginning is rejected, the empty one included. In which
dead states it stops makes no difference. -/
theorem longestPrefix_measures_longest_accepted (inhabited : 0 < dfa.size) (inRange : dfa.InRange)
    (input : String) :
    ∃ answer, dfa.longestPrefix? input = .ok answer ∧
      (∀ length, answer = some length ↔ IsGreatest {bytes | dfa.MatchesPrefix input bytes} length) ∧
      (answer = none ↔ ∀ front rest, input = front ++ rest → dfa.isMatch front = .ok false) ∧
      ∀ states : StateSet, (∀ id, dfa.Live id → id ∈ states) →
        dfa.longestPrefixWith states input.toList = .ok answer := by
  have sizes : dfa.prefixSizes StateId.start input.toList = {bytes | dfa.MatchesPrefix input bytes} :=
    Set.ext fun bytes => (matchesPrefix_iff inhabited inRange).symm
  obtain ⟨live, liveSuccess, lives⟩ := liveStates_eq_ok inRange
  obtain ⟨answer, isLargest, success⟩ := longestPrefixWith_eq_longest inhabited inRange
    (fun id alive => (lives id).mpr alive) input.toList
  refine ⟨answer, ?_, fun length => ?_, ?_, fun states covers => ?_⟩
  · simp only [longestPrefix?, liveSuccess, bind, Except.bind]
    exact success
  · rw [isLargest.eq_some_iff, sizes]
  · rw [isLargest.eq_none_iff, sizes, Set.eq_empty_iff_forall_notMem]
    constructor
    · rintro none front rest rfl
      exact (isMatch_eq_false_iff inhabited inRange).mpr fun matched => none _ ⟨front, rest, rfl, matched, rfl⟩
    · rintro none bytes ⟨front, rest, whole, matched, -⟩
      exact (isMatch_eq_false_iff inhabited inRange).mp (none front rest whole) matched
  · obtain ⟨other, otherLargest, otherSuccess⟩ := longestPrefixWith_eq_longest inhabited inRange covers input.toList
    rw [otherSuccess, otherLargest.unique isLargest]

/-- An automaton for `a` and `aéb`, with a dead state behind the latter. -/
def shorterAndLonger : Dfa where
  states := #[{ transitions := .insert 'a' 1 ∅ },
    { accepting := true, transitions := .insert 'é' 2 ∅ },
    { transitions := .insert 'b' 3 ∅ },
    { accepting := true, transitions := .insert 'c' 4 ∅ },
    { transitions := .insert 'c' 4 ∅ }]

/-- The longer prefix counts, in bytes, and from the dead state on nothing does. -/
theorem longestPrefix_measures_longest_accepted_past_shorter :
    0 < shorterAndLonger.size ∧ shorterAndLonger.InRange ∧ shorterAndLonger.deadStates = .ok [4] ∧
      IsGreatest {bytes | shorterAndLonger.MatchesPrefix "aébcca" bytes} 4 ∧
      ∀ front rest, "éab" = front ++ rest → shorterAndLonger.isMatch front = .ok false := by
  have inhabited : 0 < shorterAndLonger.size := by decide
  have inRange : shorterAndLonger.InRange := by decide
  obtain ⟨answer, success, longest, -⟩ := longestPrefix_measures_longest_accepted inhabited inRange "aébcca"
  obtain ⟨other, otherSuccess, -, rejected, -⟩ := longestPrefix_measures_longest_accepted inhabited inRange "éab"
  have found : shorterAndLonger.longestPrefix? "aébcca" = .ok (some 4) := rfl
  have missing : shorterAndLonger.longestPrefix? "éab" = .ok none := rfl
  obtain rfl := Except.ok.inj (success.symm.trans found)
  obtain rfl := Except.ok.inj (otherSuccess.symm.trans missing)
  exact ⟨inhabited, inRange, rfl, (longest 4).mp rfl, rejected.mp rfl⟩

/-- Where the accepted parts of a word stand whose first byte has a given number. -/
def partSpans (dfa : Dfa) (first : Nat) (word : List Symbol) : Set Span :=
  {span | ∃ before part after, word = before ++ part ++ after ∧ dfa.AcceptsFrom StateId.start part ∧
    first + Text.byteSize before = span.start ∧ first + Text.byteSize (before ++ part) = span.stop}

/-- The span that begins first and, among those that begin there, ends last, or none where there is no span. -/
def IsLeftmost (spans : Set Span) : Option Span → Prop
  | some span => span ∈ spans ∧
      ∀ other ∈ spans, span.start ≤ other.start ∧ (other.start = span.start → other.stop ≤ span.stop)
  | none => spans = ∅

theorem IsLeftmost.unique {spans : Set Span} {first second : Option Span} (left : IsLeftmost spans first)
    (right : IsLeftmost spans second) : first = second := by
  cases first with
  | none =>
    cases second with
    | none => rfl
    | some span => exact absurd (left ▸ right.1) (Set.notMem_empty span)
  | some span =>
    cases second with
    | none => exact absurd (right ▸ left.1) (Set.notMem_empty span)
    | some other =>
      obtain ⟨before, ends⟩ := left.2 other right.1
      obtain ⟨otherBefore, otherEnds⟩ := right.2 span left.1
      have sameStart : span.start = other.start := Nat.le_antisymm before otherBefore
      have sameStop : span.stop = other.stop := Nat.le_antisymm (otherEnds sameStart) (ends sameStart.symm)
      obtain ⟨start, stop⟩ := span
      obtain rfl : start = other.start := sameStart
      obtain rfl : stop = other.stop := sameStop
      rfl

theorem start_le_of_mem_partSpans {first : Nat} {span : Span} (member : span ∈ dfa.partSpans first word) :
    first ≤ span.start := by
  obtain ⟨before, part, after, -, -, start, -⟩ := member
  omega

/-- The accepted parts of the empty word are its accepted beginnings. -/
theorem mem_partSpans_nil_iff {first : Nat} {span : Span} : span ∈ dfa.partSpans first [] ↔
    span.start = first ∧ ∃ bytes ∈ dfa.prefixSizes StateId.start [], first + bytes = span.stop := by
  constructor
  · rintro ⟨before, part, after, whole, accepts, start, stop⟩
    obtain ⟨front, rfl⟩ := List.nil_eq_append_iff.mp whole
    obtain ⟨rfl, rfl⟩ := List.append_eq_nil_iff.mp front
    exact ⟨start.symm, _, ⟨[], [], rfl, accepts, rfl⟩, stop⟩
  · rintro ⟨start, bytes, ⟨front, rest, whole, accepts, rfl⟩, stop⟩
    exact ⟨[], front, rest, whole, accepts, start.symm, stop⟩

/-- An accepted part begins right away, or it is a part of what follows the first symbol. -/
theorem mem_partSpans_cons_iff {first : Nat} {span : Span} : span ∈ dfa.partSpans first (symbol :: rest) ↔
    (span.start = first ∧ ∃ bytes ∈ dfa.prefixSizes StateId.start (symbol :: rest), first + bytes = span.stop) ∨
      span ∈ dfa.partSpans (first + symbol.utf8Size) rest := by
  constructor
  · rintro ⟨before, part, after, whole, accepts, start, stop⟩
    cases before with
    | nil => exact .inl ⟨start.symm, _, ⟨part, after, whole, accepts, rfl⟩, stop⟩
    | cons other before =>
      obtain ⟨rfl, rfl⟩ := List.cons.inj whole
      simp only [List.cons_append, Text.byteSize, ← Nat.add_assoc] at start stop
      exact .inr ⟨before, part, after, rfl, accepts, start, stop⟩
  · rintro (⟨start, bytes, ⟨front, after, whole, accepts, rfl⟩, stop⟩ |
      ⟨before, part, after, rfl, accepts, start, stop⟩)
    · exact ⟨[], front, after, whole, accepts, start.symm, stop⟩
    · refine ⟨symbol :: before, part, after, rfl, accepts, ?_, ?_⟩
      · rwa [Text.byteSize, ← Nat.add_assoc]
      · rwa [List.cons_append, Text.byteSize, ← Nat.add_assoc]

/-- A longest accepted beginning is leftmost. -/
theorem isLeftmost_of_isGreatest {spans : Set Span} {first longest : Nat} {sizes : Set Nat}
    (here : ∀ span ∈ spans, span.start = first → ∃ bytes ∈ sizes, first + bytes = span.stop)
    (later : ∀ span ∈ spans, first ≤ span.start) (member : (⟨first, first + longest⟩ : Span) ∈ spans)
    (greatest : IsGreatest sizes longest) : IsLeftmost spans (some ⟨first, first + longest⟩) := by
  refine ⟨member, fun other otherMember => ⟨later other otherMember, fun same => ?_⟩⟩
  obtain ⟨bytes, size, stop⟩ := here other otherMember same
  have bounded := greatest.2 size
  change other.stop ≤ first + longest
  omega

/-- Trying one place after the other finds the leftmost accepted part, and the longest one there. -/
theorem findFrom_eq_leftmost (inhabited : 0 < dfa.size) (inRange : dfa.InRange)
    (covers : ∀ id, dfa.Live id → id ∈ live) (first : Nat) (word : List Symbol) :
    ∃ found, IsLeftmost (dfa.partSpans first word) found ∧ dfa.findFrom live first word = .ok found := by
  induction word generalizing first with
  | nil =>
    obtain ⟨longest, isLargest, success⟩ := longestPrefixWith_eq_longest inhabited inRange covers []
    cases longest with
    | none =>
      refine ⟨none, ?_, by simp only [findFrom, success, bind, Except.bind]⟩
      refine Set.eq_empty_of_forall_notMem fun span member => ?_
      obtain ⟨-, bytes, size, -⟩ := mem_partSpans_nil_iff.mp member
      exact Set.notMem_empty bytes (isLargest ▸ size)
    | some longest =>
      refine ⟨some ⟨first, first + longest⟩, ?_, by simp only [findFrom, success, bind, Except.bind]⟩
      exact isLeftmost_of_isGreatest (fun span member _ => (mem_partSpans_nil_iff.mp member).2)
        (fun span => start_le_of_mem_partSpans)
        (mem_partSpans_nil_iff.mpr ⟨rfl, longest, isLargest.1, rfl⟩) isLargest
  | cons symbol rest ih =>
    obtain ⟨longest, isLargest, success⟩ := longestPrefixWith_eq_longest inhabited inRange covers (symbol :: rest)
    cases longest with
    | none =>
      obtain ⟨found, leftmost, later⟩ := ih (first + symbol.utf8Size)
      have same : dfa.partSpans first (symbol :: rest) = dfa.partSpans (first + symbol.utf8Size) rest := by
        ext span
        rw [mem_partSpans_cons_iff, show dfa.prefixSizes StateId.start (symbol :: rest) = ∅ from isLargest]
        simp
      exact ⟨found, same ▸ leftmost, by simp only [findFrom, success, later, bind, Except.bind]⟩
    | some longest =>
      refine ⟨some ⟨first, first + longest⟩, ?_, by simp only [findFrom, success, bind, Except.bind]⟩
      refine isLeftmost_of_isGreatest (fun span member begins => ?_) (fun span => start_le_of_mem_partSpans)
        (mem_partSpans_cons_iff.mpr (.inl ⟨rfl, longest, isLargest.1, rfl⟩)) isLargest
      -- a part of the rest begins later
      refine ((mem_partSpans_cons_iff.mp member).resolve_right fun inRest => ?_).2
      have behind := start_le_of_mem_partSpans inRest
      have positive := symbol.utf8Size_pos
      omega

theorem matchesPart_iff (inhabited : 0 < dfa.size) (inRange : dfa.InRange) {input : String} {span : Span} :
    dfa.MatchesPart input span ↔ span ∈ dfa.partSpans 0 input.toList := by
  constructor
  · rintro ⟨before, part, after, rfl, matched, start, stop⟩
    refine ⟨before.toList, part.toList, after.toList, ?_, (isMatch_eq_true_iff inhabited inRange).mp matched, ?_, ?_⟩
    · rw [String.toList_append, String.toList_append]
    · rw [Nat.zero_add, Text.byteSize_toList, start]
    · rw [Nat.zero_add, ← String.toList_append, Text.byteSize_toList, stop]
  · rintro ⟨before, part, after, whole, accepts, start, stop⟩
    refine ⟨.ofList before, .ofList part, .ofList after, ?_, ?_, ?_, ?_⟩
    · rw [← String.ofList_append, ← String.ofList_append, ← whole, String.ofList_toList]
    · rwa [isMatch_eq_true_iff inhabited inRange, String.toList_ofList]
    · rw [Text.utf8ByteSize_ofList, ← start, Nat.zero_add]
    · rw [← String.ofList_append, Text.utf8ByteSize_ofList, ← stop, Nat.zero_add]

/-- A part that is matched stands between places where characters begin or the input ends. -/
theorem MatchesPart.within {input : String} {span : Span} (matched : dfa.MatchesPart input span) :
    span.start ≤ span.stop ∧ span.stop ≤ input.utf8ByteSize ∧
      (⟨span.start⟩ : String.Pos.Raw).IsValid input ∧ (⟨span.stop⟩ : String.Pos.Raw).IsValid input := by
  obtain ⟨before, part, after, rfl, -, start, stop⟩ := matched
  rw [← start, ← stop]
  refine ⟨?_, ?_, ?_, ?_⟩
  · rw [String.utf8ByteSize_append]
    exact Nat.le_add_right _ _
  · rw [String.utf8ByteSize_append (s := before ++ part)]
    exact Nat.le_add_right _ _
  · exact String.Pos.Raw.isValid_iff_exists_append.mpr ⟨before, part ++ after, by rw [String.append_assoc], rfl⟩
  · exact String.Pos.Raw.isValid_iff_exists_append.mpr ⟨before ++ part, after, rfl, rfl⟩

/-- The search for a match answers the leftmost and there longest part of the input that is matched, told by places
that are inside the input and not inside a character, and nothing exactly if every part is rejected, the empty one
at the end included. It can cut the input wherever it tries. -/
theorem find_locates_leftmost_longest (inhabited : 0 < dfa.size) (inRange : dfa.InRange) (input : String) :
    ∃ answer, dfa.find? input = .ok answer ∧ dfa.findBySlices? input = .ok answer ∧
      (∀ span, answer = some span ↔ dfa.LeftmostLongest input span) ∧
      (∀ span, answer = some span → span.start ≤ span.stop ∧ span.stop ≤ input.utf8ByteSize ∧
        (⟨span.start⟩ : String.Pos.Raw).IsValid input ∧ (⟨span.stop⟩ : String.Pos.Raw).IsValid input) ∧
      (answer = none ↔ ∀ before part after, input = before ++ part ++ after → dfa.isMatch part = .ok false) := by
  obtain ⟨live, liveSuccess, lives⟩ := liveStates_eq_ok inRange
  obtain ⟨answer, leftmost, found⟩ := findFrom_eq_leftmost inhabited inRange
    (fun id alive => (lives id).mpr alive) 0 input.toList
  have success : dfa.find? input = .ok answer := by
    simp only [find?, liveSuccess, bind, Except.bind]
    exact found
  have parts : dfa.partSpans 0 input.toList = {span | dfa.MatchesPart input span} :=
    Set.ext fun span => (matchesPart_iff inhabited inRange).symm
  rw [parts] at leftmost
  have located (span : Span) : answer = some span ↔ dfa.LeftmostLongest input span := by
    constructor
    · rintro rfl
      exact ⟨leftmost.1, fun other matched => (leftmost.2 other matched).1,
        fun other matched => (leftmost.2 other matched).2⟩
    · intro best
      have alike : IsLeftmost {span | dfa.MatchesPart input span} (some span) :=
        ⟨best.matched, fun other matched => ⟨best.leftmost other matched, best.longest other matched⟩⟩
      exact leftmost.unique alike
  refine ⟨answer, success, ?_, located, fun span same => ((located span).mp same).matched.within, ?_⟩
  · rw [findBySlices?_eq, success, Except.mapError]
  · constructor
    · rintro rfl before part after whole
      refine (isMatch_eq_false_iff inhabited inRange).mpr fun matched => ?_
      have none : {span | dfa.MatchesPart input span} = ∅ := leftmost
      exact Set.eq_empty_iff_forall_notMem.mp none ⟨_, _⟩ ⟨before, part, after, whole, matched, rfl, rfl⟩
    · intro rejects
      have none : IsLeftmost {span | dfa.MatchesPart input span} none := by
        refine Set.eq_empty_of_forall_notMem ?_
        rintro span ⟨before, part, after, whole, matched, -⟩
        exact (isMatch_eq_false_iff inhabited inRange).mp (rejects before part after whole) matched
      exact leftmost.unique none

/-- A match that begins behind a character of two bytes, goes on beyond a shorter one and is followed by another;
and a text without a match. -/
theorem find_locates_leftmost_longest_behind_accent :
    0 < shorterAndLonger.size ∧ shorterAndLonger.InRange ∧
      shorterAndLonger.LeftmostLongest "éaébca" ⟨2, 6⟩ ∧ shorterAndLonger.MatchesPart "éaébca" ⟨7, 8⟩ ∧
      ∀ before part after, "ébc" = before ++ part ++ after → shorterAndLonger.isMatch part = .ok false := by
  have inhabited : 0 < shorterAndLonger.size := by decide
  have inRange : shorterAndLonger.InRange := by decide
  obtain ⟨answer, success, -, located, -⟩ := find_locates_leftmost_longest inhabited inRange "éaébca"
  obtain ⟨other, otherSuccess, -, -, -, rejected⟩ := find_locates_leftmost_longest inhabited inRange "ébc"
  have found : shorterAndLonger.find? "éaébca" = .ok (some ⟨2, 6⟩) := by decide +kernel
  have missing : shorterAndLonger.find? "ébc" = .ok none := by decide +kernel
  obtain rfl := Except.ok.inj (success.symm.trans found)
  obtain rfl := Except.ok.inj (otherSuccess.symm.trans missing)
  exact ⟨inhabited, inRange, (located ⟨2, 6⟩).mp rfl, ⟨"éaébc", "a", "", by decide, rfl, by decide, by decide⟩,
    rejected.mp rfl⟩

end PatternAutomata.Dfa
