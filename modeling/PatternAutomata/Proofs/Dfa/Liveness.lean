import PatternAutomata.Dfa.Matching
import PatternAutomata.Proofs.Dfa.Running
import PatternAutomata.Proofs.Dfa.Transitions
import PatternAutomata.Proofs.Exploration
import PatternAutomata.Proofs.Lists

/-! # Which states are live

On an automaton whose transitions stay inside it, following transitions backwards from the accepting
states goes through and finds exactly the states that some word leads from to an accepting one
(`liveStates_eq_ok`); the dead states are the others (`deadStates_eq_ok`). What is dead stays dead along transitions
(`Live.of_next?`), and a run that begins there does not match (`Live.of_matched`).
-/

namespace PatternAutomata.Dfa

variable {dfa : Dfa}

/-- Some word leads from the state to an accepting one. -/
def Live (dfa : Dfa) (id : StateId) : Prop :=
  ∃ word target, dfa.walk? id word = some target ∧ dfa.Accepting target

theorem mem_edges_iff {source target : StateId} :
    (source, target) ∈ dfa.edges ↔ ∃ symbol, dfa.next? source symbol = some target := by
  have listed : (source, target) ∈ dfa.edges ↔
      ∃ state, dfa.states[source]? = some state ∧ target ∈ state.transitions.values := by
    simp only [edges, List.mem_flatMap, Prod.exists, List.mem_zipIdx_iff_getElem?, List.mem_map,
      Prod.mk.injEq, Array.getElem?_toList]
    constructor
    · rintro ⟨state, other, read, value, member, rfl, rfl⟩
      exact ⟨state, read, member⟩
    · rintro ⟨state, read, member⟩
      exact ⟨state, source, read, target, member, rfl, rfl⟩
  rw [listed]
  constructor
  · rintro ⟨state, read, member⟩
    obtain ⟨⟨symbol, _⟩, entry, rfl⟩ := List.mem_map.mp member
    exact ⟨symbol, by simpa [next?, read] using SortedMap.get?_eq_some_iff.mpr entry⟩
  · rintro ⟨symbol, next⟩
    obtain ⟨state, read, found⟩ := Option.bind_eq_some_iff.mp next
    exact ⟨state, read, List.mem_map.mpr ⟨_, SortedMap.get?_eq_some_iff.mp found, rfl⟩⟩

def Lists (table : StateTable (List StateId)) (id other : StateId) : Prop :=
  ∃ listed, table[id]? = some listed ∧ other ∈ listed

theorem leads_read_iff {table : StateTable (List StateId)} {id other : StateId} :
    Leads (StateTable.read table) id other ↔ Lists table id other := by
  simp only [Leads, Lists, StateTable.read_eq_ok_iff]

theorem lists_set_iff {table : StateTable (List StateId)} {target source : StateId}
    (owned : target < table.size) (id other : StateId) :
    Lists (table.set target (source :: table[target])) id other ↔
      Lists table id other ∨ id = target ∧ other = source := by
  by_cases same : id = target
  · subst same
    have present : table[id]? = some table[id] := Array.getElem?_eq_getElem owned
    have changed : (table.set id (source :: table[id]))[id]? = some (source :: table[id]) :=
      Array.getElem?_set_self owned
    simp only [Lists, present, changed, Option.some.injEq, exists_eq_left', List.mem_cons, true_and]
    exact or_comm
  · have kept : (table.set target (source :: table[target]))[id]? = table[id]? :=
      Array.getElem?_set_ne owned (Ne.symm same)
    simp [Lists, kept, same]

theorem foldlM_incoming (edges : List (StateId × StateId)) (table : StateTable (List StateId))
    (inside : ∀ edge ∈ edges, edge.2 < table.size) :
    ∃ final, edges.foldlM (fun table (source, target) => StateTable.update table target (source :: ·)) table =
        (.ok final : Except Fault (StateTable (List StateId))) ∧
      final.size = table.size ∧
      ∀ id other, Lists final id other ↔ Lists table id other ∨ (other, id) ∈ edges := by
  induction edges generalizing table with
  | nil => exact ⟨table, rfl, rfl, by simp⟩
  | cons edge rest ih =>
    obtain ⟨source, target⟩ := edge
    have owned : target < table.size := inside _ (List.mem_cons_self ..)
    have update : StateTable.update table target (source :: ·) =
        .ok (table.set target (source :: table[target])) :=
      StateTable.update_eq_ok_iff.mpr ⟨owned, rfl⟩
    have sameSize : (table.set target (source :: table[target])).size = table.size := Array.size_set owned
    obtain ⟨final, success, finalSize, lists⟩ := ih (table.set target (source :: table[target]))
      fun other member => sameSize.symm ▸ inside other (List.mem_cons_of_mem _ member)
    refine ⟨final, ?_, finalSize.trans sameSize, fun id other => ?_⟩
    · simp only [List.foldlM_cons, update]
      exact success
    · rw [lists, lists_set_iff owned, List.mem_cons, Prod.mk.injEq, or_assoc, and_comm (a := other = source)]

theorem incoming_eq_ok (inRange : dfa.InRange) :
    ∃ table, dfa.incoming = .ok table ∧ table.size = dfa.size ∧
      ∀ id other, Lists table id other ↔ ∃ symbol, dfa.next? other symbol = some id := by
  have sameSize : (Array.replicate dfa.size ([] : List StateId)).size = dfa.size := Array.size_replicate
  obtain ⟨table, success, tableSize, lists⟩ := foldlM_incoming dfa.edges (Array.replicate dfa.size [])
    fun edge member => by
      obtain ⟨symbol, next⟩ := mem_edges_iff.mp member
      exact sameSize.symm ▸ inRange _ _ _ next
  refine ⟨table, success, tableSize.trans sameSize, fun id other => ?_⟩
  rw [lists, mem_edges_iff]
  constructor
  · rintro (⟨listed, read, member⟩ | next)
    · obtain ⟨owned, rfl⟩ := Array.getElem?_eq_some_iff.mp read
      rw [Array.getElem_replicate] at member
      cases member
    · exact next
  · exact .inr

theorem lt_of_foldlM_incoming {edges : List (StateId × StateId)} {table final : StateTable (List StateId)}
    (success : edges.foldlM (fun table (source, target) => StateTable.update table target (source :: ·)) table =
      (.ok final : Except Fault (StateTable (List StateId)))) : ∀ edge ∈ edges, edge.2 < table.size := by
  induction edges generalizing table with
  | nil => exact fun edge member => nomatch member
  | cons edge rest ih =>
    obtain ⟨source, target⟩ := edge
    obtain ⟨next, update, later⟩ := foldlM_cons_eq_ok_iff.mp success
    obtain ⟨owned, -⟩ := StateTable.update_eq_ok_iff.mp update
    refine List.forall_mem_cons.mpr ⟨owned, fun other member => ?_⟩
    exact StateTable.size_update update ▸ ih later other member

/-- Only where transitions stay inside can they be listed by their targets. -/
theorem inRange_of_incoming {table : StateTable (List StateId)} (success : dfa.incoming = .ok table) :
    dfa.InRange := by
  intro source symbol target next
  have owned := lt_of_foldlM_incoming success (source, target) (mem_edges_iff.mpr ⟨symbol, next⟩)
  rwa [Array.size_replicate] at owned

theorem acceptingStates_eq_positions (dfa : Dfa) :
    dfa.acceptingStates = positions (fun state _ => state.accepting) dfa.states.toList := rfl

theorem mem_acceptingStates_iff {id : StateId} : id ∈ dfa.acceptingStates ↔ dfa.Accepting id := by
  rw [acceptingStates_eq_positions, mem_positions_iff]
  simp only [Array.getElem?_toList, Accepting]

/-- Going backwards along transitions from accepting states is the same as walking to them. -/
theorem live_iff_reachable {table : StateTable (List StateId)}
    (lists : ∀ id other, Lists table id other ↔ ∃ symbol, dfa.next? other symbol = some id) (id : StateId) :
    dfa.Live id ↔
      ∃ source, dfa.Accepting source ∧ Relation.ReflTransGen (Leads (StateTable.read table)) source id := by
  constructor
  · rintro ⟨word, target, walk, accepting⟩
    refine ⟨target, accepting, ?_⟩
    induction word generalizing id with
    | nil => exact Option.some.inj walk ▸ .refl
    | cons symbol rest ih =>
      obtain ⟨next, step, later⟩ := Option.bind_eq_some_iff.mp walk
      exact (ih next later).tail (leads_read_iff.mpr ((lists next id).mpr ⟨symbol, step⟩))
  · rintro ⟨source, accepting, chain⟩
    induction chain with
    | refl => exact ⟨[], source, rfl, accepting⟩
    | tail _ edge ih =>
      obtain ⟨word, target, walk, targetAccepts⟩ := ih
      obtain ⟨symbol, step⟩ := (lists _ _).mp (leads_read_iff.mp edge)
      exact ⟨symbol :: word, target, by rw [walk?_cons, step, Option.bind_some, walk], targetAccepts⟩

/-- The live states are found, and they are those from which some word leads to an accepting one. -/
theorem liveStates_eq_ok (inRange : dfa.InRange) :
    ∃ live, dfa.liveStates = .ok live ∧ ∀ id, id ∈ live ↔ dfa.Live id := by
  obtain ⟨table, success, sameSize, lists⟩ := incoming_eq_ok inRange
  have stays : StaysBelow dfa.size (StateTable.read table) := by
    intro id owned
    have tableOwned : id < table.size := sameSize.symm ▸ owned
    refine ⟨table[id], StateTable.read_of_lt tableOwned, fun other member => ?_⟩
    obtain ⟨symbol, next⟩ := (lists id other).mp ⟨_, Array.getElem?_eq_getElem tableOwned, member⟩
    exact lt_of_next? next
  have frontier : Frontier (StateTable.read table) dfa.size dfa.acceptingStates.reverse
      (.ofList dfa.acceptingStates) := by
    refine ⟨fun id member => ?_, fun id member => ?_, fun id member absent => ?_⟩
    · exact (mem_acceptingStates_iff.mp (SortedSet.mem_ofList.mp member)).lt
    · exact SortedSet.mem_ofList.mpr (List.mem_reverse.mp member)
    · exact absurd (List.mem_reverse.mpr (SortedSet.mem_ofList.mp member)) absent
  have distinct : dfa.acceptingStates.Nodup := acceptingStates_eq_positions dfa ▸ nodup_positions _ _
  have seenSize : (SortedSet.ofList dfa.acceptingStates).size = dfa.acceptingStates.length :=
    (SortedSet.size_insertAll distinct fun id _ => SortedSet.not_mem_empty id).trans (Nat.zero_add _)
  have bounded := SortedSet.size_le_of_forall_lt frontier.below
  have enough : dfa.acceptingStates.reverse.length +
      (dfa.size - (SortedSet.ofList dfa.acceptingStates).size) ≤ dfa.size := by
    rw [List.length_reverse, ← seenSize]
    omega
  obtain ⟨live, run, -, reaches⟩ := explore_eq_ok stays frontier enough
  refine ⟨live, ?_, fun id => ?_⟩
  · simp only [liveStates, success, bind, Except.bind]
    exact run
  · rw [reaches, live_iff_reachable lists]
    simp only [SortedSet.mem_ofList, mem_acceptingStates_iff]

/-- The dead states are the states that are not live, in ascending order. -/
theorem deadStates_eq_ok (inRange : dfa.InRange) :
    ∃ dead, dfa.deadStates = .ok dead ∧ dead.Pairwise (· < ·) ∧
      ∀ id, id ∈ dead ↔ id < dfa.size ∧ ¬ dfa.Live id := by
  obtain ⟨live, success, lives⟩ := liveStates_eq_ok inRange
  refine ⟨(List.range dfa.size).filter (· ∉ live), ?_, ?_, fun id => ?_⟩
  · simp only [deadStates, success, bind, Except.bind]
  · exact List.pairwise_lt_range.filter _
  · simp only [List.mem_filter, List.mem_range, decide_eq_true_eq, lives]

/-- Looking for dead states goes through and finds none when transitions stay inside and all states are
live. -/
theorem deadStates_eq_nil_iff :
    dfa.deadStates = .ok [] ↔ dfa.InRange ∧ ∀ id < dfa.size, dfa.Live id := by
  constructor
  · intro success
    obtain ⟨live, liveSuccess, -⟩ := bind_eq_ok_iff.mp success
    obtain ⟨table, listed, -⟩ := bind_eq_ok_iff.mp liveSuccess
    have inRange := inRange_of_incoming listed
    obtain ⟨dead, sameSuccess, -, mem_iff⟩ := deadStates_eq_ok inRange
    obtain rfl := Except.ok.inj (success.symm.trans sameSuccess)
    refine ⟨inRange, fun id owned => Classical.not_not.mp fun dead => ?_⟩
    exact List.not_mem_nil ((mem_iff id).mpr ⟨owned, dead⟩)
  · rintro ⟨inRange, live⟩
    obtain ⟨dead, success, -, mem_iff⟩ := deadStates_eq_ok inRange
    have none : dead = [] := List.eq_nil_iff_forall_not_mem.mpr fun id member =>
      ((mem_iff id).mp member).2 (live id ((mem_iff id).mp member).1)
    exact none ▸ success

/-- A state with a transition to a live state is live. -/
theorem Live.of_next? {id target : StateId} {symbol : Symbol} (live : dfa.Live target)
    (next : dfa.next? id symbol = some target) : dfa.Live id := by
  obtain ⟨word, last, walk, accepting⟩ := live
  exact ⟨symbol :: word, last, by rw [walk?_cons, next, Option.bind_some, walk], accepting⟩

theorem Live.of_matched {id : StateId} {offset : Nat} {word : List Symbol}
    (ends : dfa.Ends id offset word .matched) : dfa.Live id := by
  obtain ⟨target, walk, accepting⟩ := ends
  exact ⟨word, target, walk, accepting⟩

/-- On any automaton whose transitions stay inside it, the live states are found and are exactly those from which
some word leads to an accepting state; the dead states are the other states of the automaton, strictly ascending.
No transition leads out of the dead states, and a run that begins in one of them ends, but does not match. -/
theorem liveStates_lead_to_acceptance (inRange : dfa.InRange) :
    ∃ live dead, dfa.liveStates = .ok live ∧ dfa.deadStates = .ok dead ∧
      (∀ id, id ∈ live ↔ ∃ word target, dfa.walk? id word = some target ∧ dfa.Accepting target) ∧
      dead.Pairwise (· < ·) ∧ (∀ id, id ∈ dead ↔ id < dfa.size ∧ id ∉ live) ∧
      (∀ id ∈ dead, ∀ symbol target, dfa.transition id symbol = .ok (some target) → target ∈ dead) ∧
      ∀ id ∈ dead, ∀ offset word, ∃ outcome, dfa.runFrom id offset word = .ok outcome ∧
        outcome.isMatch = false := by
  obtain ⟨live, liveSuccess, lives⟩ := liveStates_eq_ok inRange
  obtain ⟨dead, deadSuccess, ascending, deads⟩ := deadStates_eq_ok inRange
  refine ⟨live, dead, liveSuccess, deadSuccess, lives, ascending, fun id => ?_, ?_, ?_⟩
  · rw [deads, lives]
  · intro id member symbol target leads
    obtain ⟨owned, isDead⟩ := (deads id).mp member
    have next : dfa.next? id symbol = some target :=
      Except.ok.inj ((dfa.transition_eq_ok owned symbol).symm.trans leads)
    exact (deads target).mpr ⟨inRange id symbol target next, fun alive => isDead (alive.of_next? next)⟩
  · intro id member offset word
    obtain ⟨owned, isDead⟩ := (deads id).mp member
    obtain ⟨outcome, success, ends⟩ := runFrom_eq_ok inRange owned offset word
    refine ⟨outcome, success, ?_⟩
    cases outcome with
    | matched => exact absurd (.of_matched ends) isDead
    | noTransition stop => rfl
    | endOfInput stop => rfl

/-- An automaton whose state 2 loops and leads to state 3, both dead; nothing leads to state 4. -/
def withDeadLoop : Dfa where
  states := #[{ transitions := .insert 'a' 1 (.insert 'b' 2 ∅) }, { accepting := true },
    { transitions := .insert 'a' 3 (.insert 'b' 2 ∅) }, {}, { transitions := .insert 'a' 0 (.insert 'b' 0 ∅) }]

/-- A state that nothing leads to is live, and no run that begins in the loop matches. -/
theorem liveStates_lead_to_acceptance_beside_loop :
    withDeadLoop.InRange ∧ withDeadLoop.deadStates = .ok [2, 3] ∧
      (∃ word target, withDeadLoop.walk? 4 word = some target ∧ withDeadLoop.Accepting target) ∧
      ∀ word, ∃ outcome, withDeadLoop.runFrom 2 0 word = .ok outcome ∧ outcome.isMatch = false := by
  have inRange : withDeadLoop.InRange := by decide
  obtain ⟨live, dead, liveSuccess, deadSuccess, lives, -, -, -, runs⟩ := liveStates_lead_to_acceptance inRange
  have liveOnes : withDeadLoop.liveStates = .ok (.ofList [0, 1, 4]) := rfl
  have deadOnes : withDeadLoop.deadStates = .ok [2, 3] := rfl
  obtain rfl := Except.ok.inj (liveSuccess.symm.trans liveOnes)
  obtain rfl := Except.ok.inj (deadSuccess.symm.trans deadOnes)
  exact ⟨inRange, deadSuccess, (lives 4).mp (by decide), runs 2 (by decide) 0⟩

end PatternAutomata.Dfa
