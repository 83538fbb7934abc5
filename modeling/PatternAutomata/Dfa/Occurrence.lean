import PatternAutomata.Dfa.Matching

/-! # Where a text is matched

An automaton matches a text where it accepts a beginning or a part of it as a whole. Beginnings are told by their
length in bytes and parts by the bytes between which they stand. How to find them is not part of this: of all the
parts that are matched, `LeftmostLongest` names the one that begins first and, among those that begin there, ends
last.

A search may cut the text at bytes and look for the longest accepted prefix of what is left. A text can be cut only
where a character begins, or at its end: `Text.boundaries` lists these places, and at each of them the text can be
cut (`Text.sliceFrom?_append`).
-/

namespace PatternAutomata.Text

def byteSize : List Char → Nat
  | [] => 0
  | c :: rest => c.utf8Size + byteSize rest

/-- The text from a byte on, unless the byte is inside a character or beyond the end. -/
def sliceFrom? : Nat → List Char → Option (List Char)
  | 0, text => some text
  | _ + 1, [] => none
  | offset + 1, c :: rest =>
    if offset + 1 < c.utf8Size then none else sliceFrom? (offset + 1 - c.utf8Size) rest

/-- The bytes where the characters of a text begin and where it ends, if its own first byte has a given
number. -/
def boundaries (first : Nat) : List Char → List Nat
  | [] => [first]
  | c :: rest => first :: boundaries (first + c.utf8Size) rest

theorem byteSize_append (front rest : List Char) :
    byteSize (front ++ rest) = byteSize front + byteSize rest := by
  induction front with
  | nil => simp [byteSize]
  | cons c front ih => simp [byteSize, ih, Nat.add_assoc]

theorem utf8ByteSize_ofList (text : List Char) : (String.ofList text).utf8ByteSize = byteSize text := by
  induction text with
  | nil => rfl
  | cons c rest ih =>
    have one : (String.ofList [c]).utf8ByteSize = c.utf8Size := by
      rw [← String.singleton_eq_ofList, String.utf8ByteSize_singleton]
    rw [← List.singleton_append, String.ofList_append, String.utf8ByteSize_append, one, ih]
    rfl

theorem byteSize_toList (text : String) : byteSize text.toList = text.utf8ByteSize := by
  rw [← utf8ByteSize_ofList, String.ofList_toList]

/-- A text can be cut after any of its beginnings. -/
theorem sliceFrom?_append (front rest : List Char) :
    sliceFrom? (byteSize front) (front ++ rest) = some rest := by
  induction front with
  | nil => simp [byteSize, sliceFrom?]
  | cons c front ih =>
    have size : byteSize (c :: front) = c.utf8Size + byteSize front := rfl
    obtain ⟨more, positive⟩ := Nat.exists_eq_succ_of_ne_zero (Nat.ne_of_gt c.utf8Size_pos)
    have offset : byteSize (c :: front) = more + byteSize front + 1 := by omega
    rw [List.cons_append, offset, sliceFrom?, ← offset, size, if_neg (by omega), Nat.add_sub_cancel_left, ih]

end PatternAutomata.Text

namespace PatternAutomata

inductive SearchFailure
  | fault (cause : Fault)
  /-- The text cannot be cut at a byte. -/
  | offBoundary (offset : Nat)
deriving DecidableEq, Repr

instance : MonadLift (Except Fault) (Except SearchFailure) := ⟨Except.mapError SearchFailure.fault⟩

namespace Dfa

/-- The first of some places from which a prefix is accepted, with the longest prefix there. -/
def findAmong (dfa : Dfa) (live : StateSet) (text : List Symbol) :
    List Nat → Except SearchFailure (Option Span)
  | [] => .ok none
  | start :: later =>
    match Text.sliceFrom? start text with
    | none => .error (.offBoundary start)
    | some slice => do
      match ← dfa.longestPrefixWith live slice with
      | some length => .ok (some ⟨start, start + length⟩)
      | none => findAmong dfa live text later

def findBySlices? (dfa : Dfa) (input : String) : Except SearchFailure (Option Span) := do
  dfa.findAmong (← dfa.liveStates) input.toList (Text.boundaries 0 input.toList)

/-- The automaton accepts the beginning of the input that has this many bytes. -/
def MatchesPrefix (dfa : Dfa) (input : String) (length : Nat) : Prop :=
  ∃ front rest, input = front ++ rest ∧ dfa.isMatch front = .ok true ∧ front.utf8ByteSize = length

/-- The automaton accepts the part of the input between these bytes. -/
def MatchesPart (dfa : Dfa) (input : String) (span : Span) : Prop :=
  ∃ before part after, input = before ++ part ++ after ∧ dfa.isMatch part = .ok true ∧
    before.utf8ByteSize = span.start ∧ (before ++ part).utf8ByteSize = span.stop

/-- No part that is matched begins earlier, and none that begins here ends later. -/
structure LeftmostLongest (dfa : Dfa) (input : String) (span : Span) : Prop where
  matched : dfa.MatchesPart input span
  leftmost : ∀ other, dfa.MatchesPart input other → span.start ≤ other.start
  longest : ∀ other, dfa.MatchesPart input other → other.start = span.start → other.stop ≤ span.stop

end Dfa

end PatternAutomata
