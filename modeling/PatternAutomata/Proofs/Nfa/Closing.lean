import Mathlib.Order.Bounds.Defs
import PatternAutomata.Nfa.Simulation
import PatternAutomata.Proofs.Lists
import PatternAutomata.Proofs.Nfa.Closure

/-! # Every order of closing ends with the same set

A step of a closing, whichever state it takes, leaves what has joined the set but was not taken waiting, and changes
nothing about what chains of edges reach from the set (`Step.frontier`, `Step.reaches_iff`). A state that joins the
set waits once, so the states that were taken and those that wait are together the members of the set (`Run.perm`): a
run is no longer than there are states, and at its end each member was taken once. What `closure` explores is such a
run (`exists_run_of_closure`), and every other one ends with the same set, the least one with the given members that
epsilon edges do not leave (`closure_gathers_reachable`).
-/

namespace PatternAutomata

namespace Closing

variable {nfa : Nfa} {id : StateId} {edges taken : List StateId} {work next last : Closing}

theorem mem_gathered_foldl_meet {other : StateId} :
    other ∈ (edges.foldl meet work).gathered ↔ other ∈ work.gathered ∨ other ∈ edges := by
  induction edges generalizing work with
  | nil => simp
  | cons target rest ih =>
    have first : other ∈ (work.meet target).gathered ↔ other ∈ work.gathered ∨ other = target := by
      unfold meet
      split
      · rename_i known
        exact ⟨.inl, fun member => member.elim (fun old => old) fun same => same ▸ known⟩
      · rw [SortedSet.mem_insert, or_comm]
    rw [List.foldl_cons, ih, first, List.mem_cons, or_assoc]

/-- The states that wait afterwards are those that waited before and those that are new. -/
theorem mem_waiting_foldl_meet {other : StateId} :
    other ∈ (edges.foldl meet work).waiting ↔
      other ∈ work.waiting ∨ other ∈ edges ∧ other ∉ work.gathered := by
  induction edges generalizing work with
  | nil => simp
  | cons target rest ih =>
    rw [List.foldl_cons, ih]
    by_cases known : target ∈ work.gathered
    · rw [meet, if_pos known]
      grind
    · rw [meet, if_neg known]
      grind [SortedSet.mem_insert]

/-- A state joins the set and waits at once, so what was taken and what waits are still the members. -/
theorem perm_foldl_meet (law : (taken ++ work.waiting).Perm work.gathered.toList) :
    (taken ++ (edges.foldl meet work).waiting).Perm (edges.foldl meet work).gathered.toList := by
  induction edges generalizing work with
  | nil => exact law
  | cons target rest ih =>
    rw [List.foldl_cons]
    apply ih
    by_cases known : target ∈ work.gathered
    · rwa [meet, if_pos known]
    · rw [meet, if_neg known]
      calc (taken ++ target :: work.waiting).Perm (target :: (taken ++ work.waiting)) := List.perm_middle
        List.Perm _ (target :: work.gathered.toList) := law.cons target
        List.Perm _ (work.gathered.insert target).toList := (SortedSet.toList_insert_perm known).symm

/-- Where no edge is there twice, following them from the last to the first puts the new ones in front as they
are. -/
theorem foldl_meet_reverse (distinct : edges.Nodup) :
    edges.reverse.foldl meet work =
      ⟨edges.filter (· ∉ work.gathered) ++ work.waiting,
        work.gathered.insertAll (edges.filter (· ∉ work.gathered))⟩ := by
  rw [List.foldl_reverse]
  induction edges with
  | nil => rfl
  | cons target rest ih =>
    obtain ⟨absent, distinct⟩ := List.nodup_cons.mp distinct
    rw [List.foldr_cons, ih distinct]
    have met : target ∈ work.gathered.insertAll (rest.filter (· ∉ work.gathered)) ↔ target ∈ work.gathered := by
      simp [absent]
    by_cases known : target ∈ work.gathered
    · rw [meet, if_pos (met.mpr known), List.filter_cons_of_neg (by simpa using known)]
    · rw [meet, if_neg (mt met.mp known), List.filter_cons_of_pos (by simpa using known), List.cons_append]
      congr 1
      apply SortedSet.ext_mem
      intro id
      simp only [SortedSet.mem_insert, SortedSet.mem_insertAll, List.mem_cons]
      exact or_left_comm

/-- What has been gathered, with what waits as the stack, is a frontier of the epsilon edges. -/
def AtFrontier (nfa : Nfa) (work : Closing) : Prop :=
  Frontier nfa.epsilonTargets nfa.size work.waiting work.gathered

/-- Some chain of epsilon edges leads to a state from what has been gathered. -/
def Reaches (nfa : Nfa) (work : Closing) (id : StateId) : Prop :=
  ∃ source ∈ work.gathered, Relation.ReflTransGen (nfa.Edge · none ·) source id

/-- Taking any of the states that wait leaves a frontier. -/
theorem Step.frontier (inRange : nfa.InRange) (step : Step nfa id work next) (frontier : AtFrontier nfa work) :
    AtFrontier nfa next := by
  cases step with
  | @expand before after edges set state read order =>
    have onTop : Frontier nfa.epsilonTargets nfa.size (id :: (before ++ after)) set :=
      frontier.congr (fun _ => List.perm_middle.mem_iff.symm) fun _ => Iff.rfl
    have success : nfa.epsilonTargets id = .ok state.epsilon.toList := by
      simp only [Nfa.epsilonTargets, Nfa.state, StateTable.read_eq_ok_iff.mpr read, bind, Except.bind]
    have inside : ∀ target ∈ state.epsilon.toList, target < nfa.size := fun target member =>
      inRange id none target (.epsilon read member)
    apply (onTop.expand success inside).congr
    · intro other
      rw [mem_waiting_foldl_meet, order.mem_iff]
      simp [List.mem_eraseDups, or_comm]
    · intro other
      rw [mem_gathered_foldl_meet, order.mem_iff, SortedSet.mem_insertAll]
      by_cases known : other ∈ set <;> simp [List.mem_eraseDups, known]

/-- What can be reached stays the same. -/
theorem Step.reaches_iff (step : Step nfa id work next) (frontier : AtFrontier nfa work) (other : StateId) :
    Reaches nfa next other ↔ Reaches nfa work other := by
  cases step with
  | @expand before after edges set state read order =>
    constructor
    · rintro ⟨source, member, chain⟩
      rcases mem_gathered_foldl_meet.mp member with old | new
      · exact ⟨source, old, chain⟩
      · have taken : id ∈ set := frontier.stacked id (by simp)
        exact ⟨id, taken, .head (.epsilon read (order.mem_iff.mp new)) chain⟩
    · rintro ⟨source, member, chain⟩
      exact ⟨source, mem_gathered_foldl_meet.mpr (.inl member), chain⟩

/-- The state that is taken was waiting, and what joins the set waits. -/
theorem Step.perm (step : Step nfa id work next) (law : (taken ++ work.waiting).Perm work.gathered.toList) :
    (taken ++ [id] ++ next.waiting).Perm next.gathered.toList := by
  cases step with
  | @expand before after edges set state read order =>
    have moved : (id :: (before ++ after)).Perm (before ++ id :: after) := List.perm_middle.symm
    apply perm_foldl_meet
    rw [List.append_assoc]
    exact (moved.append_left taken).trans law

theorem exists_step (owned : id < nfa.size) (waits : id ∈ work.waiting) : ∃ next, Step nfa id work next := by
  obtain ⟨waiting, set⟩ := work
  obtain ⟨before, after, rfl⟩ := List.append_of_mem waits
  exact ⟨_, .expand (Nfa.getElem?_of_lt owned) (.refl _)⟩

theorem Run.frontier (inRange : nfa.InRange) (run : Run nfa taken work last) (frontier : AtFrontier nfa work) :
    AtFrontier nfa last := by
  induction run with
  | nil _ => exact frontier
  | cons first _ ih => exact ih (first.frontier inRange frontier)

theorem Run.reaches_iff (inRange : nfa.InRange) (run : Run nfa taken work last) (frontier : AtFrontier nfa work)
    (other : StateId) : Reaches nfa last other ↔ Reaches nfa work other := by
  induction run with
  | nil _ => rfl
  | cons first _ ih => exact (ih (first.frontier inRange frontier)).trans (first.reaches_iff frontier other)

/-- No state is taken twice, none is taken and still waits, and each member is among the two. -/
theorem Run.perm (run : Run nfa taken work last) (earlier : List StateId)
    (law : (earlier ++ work.waiting).Perm work.gathered.toList) :
    (earlier ++ taken ++ last.waiting).Perm last.gathered.toList := by
  induction run generalizing earlier with
  | nil _ => rwa [List.append_nil]
  | cons first _ ih =>
    have later := ih _ (first.perm law)
    rwa [List.append_assoc earlier, List.singleton_append] at later

/-- Exploring takes one step after the other, until nothing waits or there are as many as allowed. -/
theorem exists_run_of_explore {steps : Nat} {stack : List StateId} {seen reached : StateSet}
    (success : explore nfa.epsilonTargets steps stack seen = .ok reached) :
    ∃ taken waiting, Run nfa taken ⟨stack, seen⟩ ⟨waiting, reached⟩ ∧ (waiting = [] ∨ taken.length = steps) := by
  induction steps generalizing stack seen with
  | zero =>
    obtain rfl := Except.ok.inj success
    exact ⟨[], stack, .nil _, .inr rfl⟩
  | succ steps ih =>
    cases stack with
    | nil =>
      obtain rfl := Except.ok.inj success
      exact ⟨[], [], .nil _, .inl rfl⟩
    | cons id stack =>
      obtain ⟨targets, found, later⟩ := bind_eq_ok_iff.mp success
      obtain ⟨state, read, same⟩ := bind_eq_ok_iff.mp found
      obtain rfl := Except.ok.inj same
      have distinct := nodup_eraseDups state.epsilon.toList
      have order : state.epsilon.toList.eraseDups.Perm state.epsilon.toList :=
        (List.perm_ext_iff_of_nodup distinct state.epsilon.nodup_toList).mpr fun _ => List.mem_eraseDups
      have first : Step nfa id ⟨[] ++ id :: stack, seen⟩ _ :=
        .expand (StateTable.read_eq_ok_iff.mp read) ((List.reverse_perm _).trans order)
      rw [foldl_meet_reverse distinct] at first
      obtain ⟨taken, waiting, rest, ended⟩ := ih later
      exact ⟨id :: taken, waiting, .cons first rest, ended.imp_right (congrArg (· + 1))⟩

/-- Once nothing waits, what has been gathered is what can be reached. -/
theorem mem_gathered_iff (frontier : AtFrontier nfa work) (done : work.waiting = []) :
    id ∈ work.gathered ↔ Reaches nfa work id := by
  unfold AtFrontier at frontier
  rw [done] at frontier
  rw [frontier.mem_iff id, Nfa.leads_epsilonTargets_eq, Reaches]

/-- What holds of a closing that has taken some states, whatever the order was, when `closed` is what it is to end
with. -/
structure Underway (nfa : Nfa) (closed : StateSet) (taken : List StateId) (work : Closing) : Prop where
  /-- Each member of the set was taken, once, or waits, once. -/
  once : (taken ++ work.waiting).Perm work.gathered.toList
  /-- The states that were taken and those that wait are no more than the automaton has. -/
  bounded : taken.length + work.waiting.length ≤ nfa.size
  /-- Whatever waits can be taken. -/
  proceeds : ∀ id ∈ work.waiting, ∃ next, Step nfa id work next
  /-- When nothing waits, the set is what it is to be. -/
  finished : work.waiting = [] → work.gathered = closed

/-- A run from the members of a set, in any order, is on the way to what can be reached from them. -/
theorem Run.underway (inRange : nfa.InRange) {set closed : StateSet} (owned : nfa.Owns set)
    (reaches : ∀ id, id ∈ closed ↔ ∃ source ∈ set, Relation.ReflTransGen (nfa.Edge · none ·) source id)
    {members : List StateId} (order : members.Perm set.toList) (run : Run nfa taken ⟨members, set⟩ work) :
    Underway nfa closed taken work := by
  have start : AtFrontier nfa ⟨members, set⟩ :=
    { below := owned
      stacked := fun id member => order.mem_iff.mp member
      expanded := fun id member absent => absurd (order.mem_iff.mpr member) absent }
  have frontier := run.frontier inRange start
  have law : (taken ++ work.waiting).Perm work.gathered.toList := run.perm [] order
  have count : taken.length + work.waiting.length = work.gathered.size := by
    rw [← List.length_append]
    exact law.length_eq
  have limit := SortedSet.size_le_of_forall_lt frontier.below
  refine ⟨law, by omega, fun id waits => ?_, fun done => SortedSet.ext_mem fun id => ?_⟩
  · exact exists_step (frontier.below id (frontier.stacked id waits)) waits
  · rw [mem_gathered_iff frontier done, run.reaches_iff inRange start, reaches]
    rfl

/-- The exploration that closes a set is a run to the end, and its limit is not reached before. -/
theorem exists_run_of_closure (inRange : nfa.InRange) {set closed : StateSet} (owned : nfa.Owns set)
    (success : nfa.closure set = .ok closed)
    (reaches : ∀ id, id ∈ closed ↔ ∃ source ∈ set, Relation.ReflTransGen (nfa.Edge · none ·) source id) :
    ∃ taken, Run nfa taken ⟨set.toList.reverse, set⟩ ⟨[], closed⟩ := by
  obtain ⟨taken, waiting, run, ended⟩ := exists_run_of_explore success
  have bounded : taken.length + waiting.length ≤ nfa.size :=
    (run.underway inRange owned reaches (List.reverse_perm _)).bounded
  have done : waiting = [] := by
    rcases ended with done | full
    · exact done
    · apply List.eq_nil_of_length_eq_zero
      omega
  exact ⟨taken, done ▸ run⟩

end Closing

namespace Nfa

variable {nfa : Nfa}

/-- What a set becomes when it is closed under epsilon edges. -/
structure EpsilonClosure (nfa : Nfa) (set closed : StateSet) : Prop where
  /-- It has the states that zero or more epsilon edges lead to from the set. -/
  mem_iff : ∀ id, id ∈ closed ↔ ∃ source ∈ set, Relation.ReflTransGen (nfa.Edge · none ·) source id
  /-- It is the least set with the given members that epsilon edges do not leave. -/
  least : IsLeast {states : Set StateId | (∀ id ∈ set, id ∈ states) ∧
    ∀ source ∈ states, ∀ target, nfa.Edge source none target → target ∈ states} {id | id ∈ closed}
  /-- Whatever the order of the members, in which states are taken and in which edges are followed, a run is on the
  way to it. -/
  underway : ∀ members, members.Perm set.toList → ∀ taken work,
    Closing.Run nfa taken ⟨members, set⟩ work → Closing.Underway nfa closed taken work
  /-- The highest member may be taken first, and one such run comes to its end with it. -/
  ends : ∃ taken, Closing.Run nfa taken ⟨set.toList.reverse, set⟩ ⟨[], closed⟩

/-- A set that has the given members and that edges do not leave has what chains of edges reach from them. -/
theorem mem_of_reaches {states : Set StateId} {set : StateSet} (includes : ∀ id ∈ set, id ∈ states)
    (stays : ∀ source ∈ states, ∀ target, nfa.Edge source none target → target ∈ states) {source id : StateId}
    (member : source ∈ set) (chain : Relation.ReflTransGen (nfa.Edge · none ·) source id) : id ∈ states := by
  induction chain with
  | refl => exact includes source member
  | tail _ edge ih => exact stays _ ih _ edge

/-- Closing goes through and finds what chains of epsilon edges lead to. -/
theorem exists_epsilonClosure (inRange : nfa.InRange) {set : StateSet} (owned : nfa.Owns set) :
    ∃ closed, nfa.closure set = .ok closed ∧ nfa.Owns closed ∧ nfa.EpsilonClosure set closed := by
  obtain ⟨closed, success, closedOwned, paths⟩ := closure_eq_ok inRange owned
  have reaches (id : StateId) :
      id ∈ closed ↔ ∃ source ∈ set, Relation.ReflTransGen (nfa.Edge · none ·) source id := by
    simp only [paths, path_nil_iff, leads_epsilonTargets_eq]
  have ends := Closing.exists_run_of_closure inRange owned success reaches
  refine ⟨closed, success, closedOwned, reaches,
    ⟨⟨fun id member => ?_, fun source member target edge => ?_⟩, ?_⟩, ?_, ends⟩
  · exact (reaches id).mpr ⟨id, member, .refl⟩
  · obtain ⟨origin, originMember, chain⟩ := (reaches source).mp member
    exact (reaches target).mpr ⟨origin, originMember, chain.tail edge⟩
  · rintro states ⟨includes, stays⟩ id member
    obtain ⟨source, sourceMember, chain⟩ := (reaches id).mp member
    exact mem_of_reaches includes stays sourceMember chain
  · exact fun members order taken work run => run.underway inRange owned reaches order

namespace EpsilonClosure

variable {set other closed otherClosed : StateSet}

theorem mono (closes : nfa.EpsilonClosure set closed) (closesOther : nfa.EpsilonClosure other otherClosed)
    (included : ∀ id ∈ set, id ∈ other) : ∀ id ∈ closed, id ∈ otherClosed := by
  intro id member
  obtain ⟨source, sourceMember, chain⟩ := (closes.mem_iff id).mp member
  exact (closesOther.mem_iff id).mpr ⟨source, included source sourceMember, chain⟩

/-- Two chains make one, so closing again adds nothing. -/
theorem again (closes : nfa.EpsilonClosure set closed) (closesAgain : nfa.EpsilonClosure closed other) :
    other = closed := by
  apply SortedSet.ext_mem
  intro id
  rw [closesAgain.mem_iff]
  constructor
  · rintro ⟨middle, member, second⟩
    obtain ⟨source, sourceMember, first⟩ := (closes.mem_iff middle).mp member
    exact (closes.mem_iff id).mpr ⟨source, sourceMember, first.trans second⟩
  · exact fun member => ⟨id, member, .refl⟩

theorem union {whole : StateSet} (closes : nfa.EpsilonClosure set closed)
    (closesOther : nfa.EpsilonClosure other otherClosed) (closesBoth : nfa.EpsilonClosure (set ∪ other) whole) :
    whole = closed ∪ otherClosed := by
  apply SortedSet.ext_mem
  intro id
  rw [closesBoth.mem_iff, SortedSet.mem_union, closes.mem_iff, closesOther.mem_iff]
  simp only [SortedSet.mem_union, or_and_right, exists_or]

end EpsilonClosure

/-- Closing a set of states comes to an end, whatever the order, with the least set that has its members and that
epsilon edges do not leave. Closing this set changes nothing, a larger set has a larger closure, and the closure of a
union is the union of the closures. -/
theorem closure_gathers_reachable (inRange : nfa.InRange) {set : StateSet} (owned : nfa.Owns set) :
    ∃ closed, nfa.closure set = .ok closed ∧ nfa.EpsilonClosure set closed ∧ nfa.closure closed = .ok closed ∧
      ∀ other, nfa.Owns other → ∃ otherClosed, nfa.closure other = .ok otherClosed ∧
        ((∀ id ∈ set, id ∈ other) → ∀ id ∈ closed, id ∈ otherClosed) ∧
        nfa.closure (set ∪ other) = .ok (closed ∪ otherClosed) := by
  obtain ⟨closed, success, closedOwned, closes⟩ := exists_epsilonClosure inRange owned
  obtain ⟨again, againSuccess, -, closesAgain⟩ := exists_epsilonClosure inRange closedOwned
  refine ⟨closed, success, closes, closes.again closesAgain ▸ againSuccess, fun other otherOwned => ?_⟩
  obtain ⟨otherClosed, otherSuccess, -, closesOther⟩ := exists_epsilonClosure inRange otherOwned
  have bothOwned : nfa.Owns (set ∪ other) := fun id member =>
    (SortedSet.mem_union.mp member).elim (owned id) (otherOwned id)
  obtain ⟨whole, wholeSuccess, -, closesBoth⟩ := exists_epsilonClosure inRange bothOwned
  exact ⟨otherClosed, otherSuccess, closes.mono closesOther, closes.union closesOther closesBoth ▸ wholeSuccess⟩

/-- Around a cycle of epsilon edges each state is taken once, and one that leads into the cycle is not. -/
theorem closure_gathers_reachable_around_cycle :
    ∃ nfa : Nfa, nfa.InRange ∧ nfa.Owns (.ofList [1]) ∧ nfa.closure (.ofList [1]) = .ok (.ofList [0, 1, 2]) ∧
      ∀ taken work, Closing.Run nfa taken ⟨[1], .ofList [1]⟩ work → work.waiting = [] → taken.Perm [0, 1, 2] := by
  let edgeTo (target : StateId) : NfaState := { epsilon := .ofList [target] }
  let nfa : Nfa := ⟨#[edgeTo 1, edgeTo 2, edgeTo 0, edgeTo 1]⟩
  have inRange : nfa.InRange := by decide
  have owned : nfa.Owns (.ofList [1]) := fun id member => by
    obtain rfl : id = 1 := by simpa using member
    decide
  have found : nfa.closure (.ofList [1]) = .ok (.ofList [0, 1, 2]) := rfl
  obtain ⟨closed, success, closes, -⟩ := closure_gathers_reachable inRange owned
  obtain rfl := Except.ok.inj (found.symm.trans success)
  refine ⟨nfa, inRange, owned, found, fun taken work run done => ?_⟩
  have underway := closes.underway [1] (.refl _) taken work run
  have once := underway.once
  rwa [done, List.append_nil, underway.finished done] at once

end Nfa

end PatternAutomata
