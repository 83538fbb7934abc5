import Mathlib.Data.Set.Function
import PatternAutomata.Dfa.Worklist
import PatternAutomata.Proofs.Dfa.AccessibleSubsets

/-! # Every set is pushed once and taken once

The table of numbers has each set once, and its numbers are those of the states (`Numbered`). A round gives the sets
that it meets first the next numbers and pushes them, in the same order, and changes no state but that of the set
which it takes (`Grows`). So the sets that were pushed are those in the table, each was taken once or still waits once
(`Rounds.perm`), and the state of a set that does not wait stays as it is (`Rounds.state_eq`). There are as many rounds
as states in the end (`determinize_takes_each_set_once`).
-/

namespace PatternAutomata

namespace Worklist

variable {nfa : Nfa} {work next last : Worklist} {set : StateSet} {id : StateId}
  {rest fresh taken pushed : List StateSet}

/-- The table has the origins of the states, each once, with the number of its state. -/
structure Numbered (work : Worklist) : Prop where
  distinct : work.sets.Nodup
  lookup : ∀ set id, work.ids.lookup set = some id ↔ work.dfa.StandsFor id set
  labelled : ∀ id < work.dfa.size, ∃ set, work.dfa.StandsFor id set
  length : work.ids.length = work.dfa.size

theorem mem_sets_iff : set ∈ work.sets ↔ ∃ id, work.ids.lookup set = some id := by
  rw [sets, ← Option.isSome_iff_exists, List.lookup_isSome_iff]
  simp

theorem Numbered.nothing : Numbered {} where
  distinct := .nil
  lookup _ _ := iff_of_false nofun fun stands => Nat.not_lt_zero _ stands.lt
  labelled id owned := absurd owned (Nat.not_lt_zero id)
  length := rfl

/-- Each set in the table has a number of its own, and all states have their numbers from it. -/
theorem Numbered.bijOn (numbered : work.Numbered) :
    Set.BijOn (fun set => work.ids.lookup set) {set | set ∈ work.sets} (some '' Set.Iio work.dfa.size) := by
  refine ⟨fun set member => ?_, fun first member second _ same => ?_, ?_⟩
  · obtain ⟨id, found⟩ := mem_sets_iff.mp member
    exact ⟨id, ((numbered.lookup set id).mp found).lt, found.symm⟩
  · obtain ⟨id, found⟩ := mem_sets_iff.mp member
    have foundToo : work.ids.lookup second = some id := same.symm.trans found
    exact ((numbered.lookup first id).mp found).unique ((numbered.lookup second id).mp foundToo)
  · rintro _ ⟨id, owned, rfl⟩
    obtain ⟨set, stands⟩ := numbered.labelled id owned
    have found := (numbered.lookup set id).mpr stands
    exact ⟨set, mem_sets_iff.mpr ⟨id, found⟩, found⟩

/-- New sets get their numbers and wait, in one order, and no state but one changes. -/
structure Grows (id : StateId) (before : Worklist) (fresh : List StateSet) (after : Worklist) : Prop where
  numbered : after.Numbered
  pending : after.pending = fresh ++ before.pending
  sets : after.sets = fresh ++ before.sets
  unchanged : ∀ other state, before.dfa.states[other]? = some state → other ≠ id →
    after.dfa.states[other]? = some state

theorem Grows.refl (numbered : work.Numbered) (id : StateId) : Grows id work [] work :=
  ⟨numbered, rfl, rfl, fun _ _ read _ => read⟩

theorem Grows.trans {more : List StateSet} (first : Grows id work fresh next) (second : Grows id next more last) :
    Grows id work (more ++ fresh) last where
  numbered := second.numbered
  pending := by rw [second.pending, first.pending, List.append_assoc]
  sets := by rw [second.sets, first.sets, List.append_assoc]
  unchanged other state read differs := second.unchanged other state (first.unchanged other state read differs) differs

/-- A new set gets the number of the state that is added for it, and waits. -/
theorem Numbered.push (numbered : work.Numbered) (id : StateId) (absent : work.ids.lookup set = none)
    (accepting : Bool) :
    Grows id work [set] { ids := (set, work.ids.length) :: work.ids
                          pending := set :: work.pending
                          dfa := work.dfa.push { accepting, origin := some set } } := by
  refine ⟨⟨?_, ?_, ?_, ?_⟩, rfl, rfl, ?_⟩
  · refine List.nodup_cons.mpr ⟨fun member => ?_, numbered.distinct⟩
    obtain ⟨known, listed⟩ := mem_sets_iff.mp member
    rw [absent] at listed
    cases listed
  · intro other known
    rw [Dfa.standsFor_push, ← numbered.lookup, List.lookup_cons, Option.some.injEq, numbered.length]
    by_cases same : other = set
    · subst same
      simp [absent, eq_comm]
    · simp [beq_eq_false_iff_ne.mpr same, Ne.symm same]
  · intro state owned
    rw [Dfa.size_push, Nat.lt_succ_iff_lt_or_eq] at owned
    rcases owned with before | rfl
    · obtain ⟨other, stands⟩ := numbered.labelled state before
      exact ⟨other, (Dfa.standsFor_push ..).mpr (.inr stands)⟩
    · exact ⟨set, (Dfa.standsFor_push ..).mpr (.inl ⟨rfl, rfl⟩)⟩
  · rw [List.length_cons, numbered.length, Dfa.size_push]
  · intro other state read _
    rw [Dfa.getElem?_push, if_neg (Nat.ne_of_lt (Dfa.lt_of_getElem? read)), read]

theorem Numbered.intern (numbered : work.Numbered) (id : StateId) {target : StateId}
    (success : work.intern nfa set = .ok (next, target)) :
    ∃ fresh, Grows id work fresh next := by
  unfold Worklist.intern at success
  cases found : work.ids.lookup set with
  | some known =>
    simp only [found, Except.ok.injEq, Prod.mk.injEq] at success
    obtain ⟨rfl, -⟩ := success
    exact ⟨[], .refl numbered id⟩
  | none =>
    simp only [found] at success
    obtain ⟨accepting, -, success⟩ := bind_eq_ok_iff.mp success
    obtain ⟨rfl, rfl⟩ := Prod.mk.inj (Except.ok.inj success)
    exact ⟨[set], numbered.push id found accepting⟩

/-- Changing where a state leads changes no set. -/
theorem Numbered.update (numbered : work.Numbered) {change : DfaState → DfaState} {dfa : Dfa}
    (success : work.dfa.update id change = .ok dfa) (keeps : ∀ state, (change state).origin = state.origin) :
    Grows id work [] { work with dfa } := by
  have sameSize := Dfa.size_update success
  have stands := Dfa.standsFor_update success keeps
  refine ⟨⟨numbered.distinct, fun set other => ?_, fun other before => ?_, ?_⟩, rfl, rfl,
    fun other state read differs => ?_⟩
  · rw [numbered.lookup, stands]
  · simp only [stands]
    exact numbered.labelled other (sameSize ▸ before)
  · rw [numbered.length, sameSize]
  · rw [Dfa.getElem?_update success, read, Option.map_some, if_neg differs]

theorem Numbered.expandOn (numbered : work.Numbered) {symbol : Symbol}
    (success : work.expandOn nfa id set symbol = .ok next) : ∃ fresh, Grows id work fresh next := by
  obtain ⟨stepped, -, success⟩ := bind_eq_ok_iff.mp success
  by_cases empty : stepped.isEmpty
  · rw [if_pos empty] at success
    obtain rfl := Except.ok.inj success
    exact ⟨[], .refl numbered id⟩
  · rw [if_neg empty] at success
    obtain ⟨closed, -, success⟩ := bind_eq_ok_iff.mp success
    obtain ⟨⟨interned, target⟩, numbering, success⟩ := bind_eq_ok_iff.mp success
    obtain ⟨dfa, updated, success⟩ := bind_eq_ok_iff.mp success
    obtain rfl := Except.ok.inj success
    obtain ⟨fresh, grows⟩ := numbered.intern id numbering
    exact ⟨_, grows.trans (grows.numbered.update updated fun _ => rfl)⟩

theorem Numbered.expandOnAll {symbols : List Symbol} (numbered : work.Numbered)
    (success : symbols.foldlM (Worklist.expandOn nfa id set) work = .ok next) : ∃ fresh, Grows id work fresh next := by
  induction symbols generalizing work with
  | nil =>
    obtain rfl := Except.ok.inj success
    exact ⟨[], .refl numbered id⟩
  | cons symbol symbols ih =>
    obtain ⟨middle, first, later⟩ := foldlM_cons_eq_ok_iff.mp success
    obtain ⟨fresh, grows⟩ := numbered.expandOn first
    obtain ⟨more, growsMore⟩ := ih grows.numbered later
    exact ⟨_, grows.trans growsMore⟩

/-- A round takes the set in front and changes the state that stands for it. -/
theorem Numbered.expandNext (numbered : work.Numbered) {alphabet : Alphabet} (front : work.pending = set :: rest)
    (success : work.expandNext nfa alphabet = .ok next) :
    ∃ id fresh, work.dfa.StandsFor id set ∧ Grows id { work with pending := rest } fresh next := by
  simp only [Worklist.expandNext, front] at success
  cases found : work.ids.lookup set with
  | none =>
    rw [found] at success
    cases success
  | some id =>
    rw [found] at success
    have popped : Numbered { work with pending := rest } :=
      ⟨numbered.distinct, numbered.lookup, numbered.labelled, numbered.length⟩
    obtain ⟨fresh, grows⟩ := popped.expandOnAll (mapError_eq_ok_iff.mp success)
    exact ⟨id, fresh, (numbered.lookup set id).mp found, grows⟩

/-- What a round pushes is what expanding adds. -/
theorem Numbered.round (numbered : work.Numbered) {alphabet : Alphabet} (front : work.pending = set :: rest)
    (expanded : work.expandNext nfa alphabet = .ok next) (waiting : next.pending = fresh ++ rest) :
    ∃ id, work.dfa.StandsFor id set ∧ Grows id { work with pending := rest } fresh next := by
  obtain ⟨id, more, stands, grows⟩ := numbered.expandNext front expanded
  obtain rfl : more = fresh := List.append_cancel_right (grows.pending.symm.trans waiting)
  exact ⟨id, stands, grows⟩

theorem Rounds.numbered (rounds : Rounds nfa work taken pushed last) (numbered : work.Numbered) :
    last.Numbered := by
  induction rounds with
  | none _ => exact numbered
  | round front expanded waiting _ ih =>
    obtain ⟨_, -, grows⟩ := numbered.round front expanded waiting
    exact ih grows.numbered

/-- The sets that are pushed are those that get numbers, and in the same order. -/
theorem Rounds.sets_eq (rounds : Rounds nfa work taken pushed last) (numbered : work.Numbered) :
    last.sets = pushed ++ work.sets := by
  induction rounds with
  | none _ => rfl
  | round front expanded waiting _ ih =>
    obtain ⟨_, -, grows⟩ := numbered.round front expanded waiting
    rw [ih grows.numbered, grows.sets, List.append_assoc]
    rfl

/-- No set is taken twice, none is taken and still waits, and each set in the table is among the two. -/
theorem Rounds.perm (rounds : Rounds nfa work taken pushed last) (numbered : work.Numbered)
    (earlier : List StateSet) (law : (earlier ++ work.pending).Perm work.sets) :
    (earlier ++ taken ++ last.pending).Perm last.sets := by
  induction rounds generalizing earlier with
  | none _ => rwa [List.append_nil]
  | @round work next last set rest fresh taken pushed front expanded waiting _ ih =>
    obtain ⟨_, -, grows⟩ := numbered.round front expanded waiting
    have pushing : (earlier ++ [set] ++ next.pending).Perm next.sets := by
      rw [waiting, grows.sets]
      calc List.Perm (earlier ++ [set] ++ (fresh ++ rest)) (fresh ++ (earlier ++ [set] ++ rest)) := by
            rw [← List.append_assoc, ← List.append_assoc fresh]
            exact List.perm_append_comm.append_right rest
        List.Perm _ (fresh ++ work.sets) := by
            rw [List.append_assoc earlier, List.singleton_append, ← front]
            exact law.append_left fresh
    have later := ih grows.numbered _ pushing
    rwa [List.append_assoc earlier, List.singleton_append] at later

/-- The state of a set that does not wait stays as it is. -/
theorem Rounds.state_eq (rounds : Rounds nfa work taken pushed last) (numbered : work.Numbered) {state : DfaState}
    (read : work.dfa.states[id]? = some state) (origin : state.origin = some set) (done : set ∉ work.pending) :
    last.dfa.states[id]? = some state := by
  induction rounds with
  | none _ => exact read
  | @round work next last front rest fresh taken pushed first expanded waiting _ ih =>
    obtain ⟨other, otherStands, grows⟩ := numbered.round first expanded waiting
    have stands : work.dfa.StandsFor id set := ⟨state, read, origin⟩
    rw [first, List.mem_cons, not_or] at done
    have differs : id ≠ other := by
      rintro rfl
      exact done.1 (stands.unique otherStands)
    apply ih grows.numbered (grows.unchanged id state read differs)
    rw [waiting, List.mem_append, not_or]
    refine ⟨fun new => ?_, done.2⟩
    -- a set that is pushed has not been in the table before
    have known : set ∈ work.sets := mem_sets_iff.mpr ⟨id, (numbered.lookup set id).mpr stands⟩
    have distinct := grows.numbered.distinct
    rw [grows.sets] at distinct
    exact (List.nodup_append.mp distinct).2.2 set new set known rfl

/-- Rounds that leave nothing waiting go on with what other rounds have left to do. -/
theorem Rounds.exists_rest {middle : Worklist} {early entered : List StateSet}
    (first : Rounds nfa work early entered middle) (whole : Rounds nfa work taken pushed last)
    (done : last.pending = []) :
    ∃ later added, Rounds nfa middle later added last ∧ taken = early ++ later ∧ pushed = added ++ entered := by
  induction first generalizing taken pushed with
  | none _ => exact ⟨taken, pushed, whole, rfl, (List.append_nil _).symm⟩
  | round front expanded waiting _ ih =>
    cases whole with
    | none _ =>
      rw [done] at front
      cases front
    | round sameFront sameExpanded sameWaiting rest =>
      -- a round is determined by the construction that it starts from
      obtain ⟨rfl, rfl⟩ := List.cons.inj (front.symm.trans sameFront)
      obtain rfl := Except.ok.inj (expanded.symm.trans sameExpanded)
      obtain rfl := List.append_cancel_right (waiting.symm.trans sameWaiting)
      obtain ⟨later, added, rounds, rfl, rfl⟩ := ih rest
      exact ⟨later, added, rounds, rfl, List.append_assoc ..⟩

/-- Expanding all sets is a number of rounds after which none waits. -/
theorem exists_rounds {rounds : Nat} (numbered : work.Numbered)
    (success : work.expandAll nfa nfa.alphabet rounds = .ok last) :
    ∃ taken pushed, Rounds nfa work taken pushed last ∧ last.pending = [] ∧ taken.length ≤ rounds := by
  induction rounds generalizing work with
  | zero =>
    simp only [expandAll] at success
    split at success
    · rename_i none
      obtain rfl := Except.ok.inj success
      exact ⟨[], [], .none work, List.isEmpty_iff.mp none, Nat.le_refl _⟩
    · cases success
  | succ rounds ih =>
    simp only [expandAll] at success
    split at success
    · rename_i none
      obtain rfl := Except.ok.inj success
      exact ⟨[], [], .none work, List.isEmpty_iff.mp none, Nat.zero_le _⟩
    · rename_i some
      obtain ⟨next, expanded, success⟩ := bind_eq_ok_iff.mp success
      obtain ⟨set, rest, front⟩ := List.exists_cons_of_ne_nil fun nil => some (List.isEmpty_iff.mpr nil)
      obtain ⟨_, fresh, -, grows⟩ := numbered.expandNext front expanded
      obtain ⟨taken, pushed, later, done, bound⟩ := ih grows.numbered success
      exact ⟨set :: taken, pushed ++ fresh, .round front expanded grows.pending later, done, Nat.succ_le_succ bound⟩

/-- A construction begins with the start set alone, which waits. -/
theorem begin_eq_ok (success : begin nfa = .ok work) :
    ∃ start, nfa.startSet = .ok start ∧ work.Numbered ∧ work.pending = [start] ∧ work.sets = [start] := by
  obtain ⟨start, initial, success⟩ := bind_eq_ok_iff.mp success
  obtain ⟨⟨interned, id⟩, numbering, success⟩ := bind_eq_ok_iff.mp success
  obtain rfl := Except.ok.inj success
  obtain ⟨_, grows⟩ := Numbered.nothing.intern id numbering
  obtain ⟨accepting, -, pushing⟩ := bind_eq_ok_iff.mp numbering
  obtain ⟨rfl, -⟩ := Prod.mk.inj (Except.ok.inj pushing)
  exact ⟨start, initial, grows.numbered, rfl, rfl⟩

/-- From the beginning on, what was taken and what waits are together the sets in the table. -/
theorem Rounds.perm_sets {start : Worklist} (begins : begin nfa = .ok start)
    (rounds : Rounds nfa start taken pushed last) : (taken ++ last.pending).Perm last.sets := by
  obtain ⟨set, -, numbered, waiting, sets⟩ := begin_eq_ok begins
  have law : start.pending.Perm start.sets := by rw [waiting, sets]
  exact rounds.perm numbered [] law

/-- The construction comes to its end in rounds of which there are at most as many as sets of states. -/
theorem exists_rounds_of_determinize {dfa : Dfa} (success : determinize nfa = .ok dfa) :
    ∃ start last taken pushed, begin nfa = .ok start ∧ Rounds nfa start taken pushed last ∧ last.pending = [] ∧
      taken.length ≤ 2 ^ nfa.size ∧ last.dfa = dfa := by
  obtain ⟨start, begins, success⟩ := bind_eq_ok_iff.mp success
  obtain ⟨last, expanded, same⟩ := bind_eq_ok_iff.mp success
  have begins : begin nfa = .ok start := mapError_eq_ok_iff.mp begins
  obtain ⟨-, -, numbered, -⟩ := begin_eq_ok begins
  obtain ⟨taken, pushed, rounds, done, bound⟩ := exists_rounds numbered expanded
  exact ⟨start, last, taken, pushed, begins, rounds, done, bound, Except.ok.inj same⟩

/-- What holds each time that the loop looks for a set that waits, after it took some sets and pushed some, when the
automaton that it ends with is given. -/
structure Underway (result : Dfa) (taken pushed : List StateSet) (work : Worklist) : Prop where
  /-- The table maps its sets one to one onto the numbers of the states. -/
  bijective : Set.BijOn (fun set => work.ids.lookup set) {set | set ∈ work.sets} (some '' Set.Iio work.dfa.size)
  /-- A set has the number of the state whose origin it is. -/
  origin : ∀ set id, work.ids.lookup set = some id ↔ work.dfa.origin id = .ok (some set)
  /-- No set gets a number twice. -/
  distinct : work.sets.Nodup
  /-- The sets were pushed when they got their numbers. -/
  interned : work.sets = pushed
  /-- Each of them was taken, once, or waits, once. -/
  once : (taken ++ work.pending).Perm pushed
  /-- The state of a set that does not wait has the transitions that it is to have. -/
  settled : ∀ id set, work.dfa.origin id = .ok (some set) → set ∉ work.pending →
    result.state id = work.dfa.state id

/-- Any number of rounds from the beginning is on the way to where all rounds end. -/
theorem Rounds.underway {start : Worklist} {early entered : List StateSet} (begins : begin nfa = .ok start)
    (first : Rounds nfa start early entered work) (later : Rounds nfa work taken pushed last) :
    Underway last.dfa early (entered ++ start.pending) work := by
  obtain ⟨set, -, startNumbered, waiting, sets⟩ := begin_eq_ok begins
  have numbered := first.numbered startNumbered
  have pushes : work.sets = entered ++ start.pending := by
    rw [first.sets_eq startNumbered, waiting, sets]
  refine ⟨numbered.bijOn, fun set id => ?_, numbered.distinct, pushes, ?_, fun id set origin done => ?_⟩
  · rw [numbered.lookup, Dfa.origin_eq_ok_iff]
  · rw [← pushes]
    exact first.perm_sets begins
  · obtain ⟨state, read, same⟩ := Dfa.origin_eq_ok_iff.mp origin
    have settled := later.state_eq numbered read same done
    rw [Dfa.state, Dfa.state, StateTable.read_eq_ok_iff.mpr settled, StateTable.read_eq_ok_iff.mpr read]

/-- There are as many rounds as states in the end. -/
theorem Rounds.length_taken {start : Worklist} (begins : begin nfa = .ok start)
    (rounds : Rounds nfa start taken pushed last) (done : last.pending = []) : taken.length = last.dfa.size := by
  obtain ⟨_, -, numbered, -⟩ := begin_eq_ok begins
  have once := rounds.perm_sets begins
  rw [done, List.append_nil] at once
  rw [once.length_eq, Worklist.sets, List.length_map, (rounds.numbered numbered).length]

/-- Where there are no states the empty set is taken first. -/
theorem Rounds.exists_taken_eq {start : Worklist} (begins : begin nfa = .ok start)
    (rounds : Rounds nfa start taken pushed last) (done : last.pending = []) (none : nfa.size = 0) :
    ∃ others, taken = ∅ :: others := by
  obtain ⟨set, initial, -, waiting, -⟩ := begin_eq_ok begins
  rw [Nfa.startSet, if_pos none] at initial
  obtain rfl := Except.ok.inj initial
  cases rounds with
  | none _ =>
    rw [done] at waiting
    cases waiting
  | round front _ _ _ =>
    obtain ⟨rfl, -⟩ := List.cons.inj (waiting.symm.trans front)
    exact ⟨_, rfl⟩

end Worklist

/-- The loop of the subset construction takes one set after the other until none waits, as many as there are states in
the end. Each time that it looks for another one the table of numbers is a bijection onto the states, the sets in it
are those that were pushed, each of them was taken or waits, and what does not wait is as it stays. -/
theorem determinize_takes_each_set_once {nfa : Nfa} (inRange : nfa.InRange) :
    ∃ start last taken pushed, Worklist.begin nfa = .ok start ∧ Worklist.Rounds nfa start taken pushed last ∧
      last.pending = [] ∧ Worklist.determinize nfa = .ok last.dfa ∧ nfa.determinize = .ok last.dfa ∧
      taken.Perm (pushed ++ start.pending) ∧ taken.length = last.dfa.size ∧ taken.length ≤ 2 ^ nfa.size ∧
      (nfa.size = 0 → taken = [∅]) ∧
      ∀ early entered work, Worklist.Rounds nfa start early entered work →
        Worklist.Underway last.dfa early (entered ++ start.pending) work ∧
        ∃ later added, Worklist.Rounds nfa work later added last ∧ taken = early ++ later := by
  obtain ⟨dfa, success, -⟩ := Nfa.determinize_eq_ok inRange
  have table : Worklist.determinize nfa = .ok dfa := by
    rw [Worklist.determinize_eq inRange, success, Except.mapError]
  obtain ⟨start, last, taken, pushed, begins, rounds, done, bound, rfl⟩ :=
    Worklist.exists_rounds_of_determinize table
  refine ⟨start, last, taken, pushed, begins, rounds, done, table, success, ?_, rounds.length_taken begins done, bound,
    fun none => ?_, fun early entered work first => ?_⟩
  · have once := (rounds.underway begins (.none last)).once
    rwa [done, List.append_nil] at once
  · obtain ⟨others, rfl⟩ := rounds.exists_taken_eq begins done none
    rw [none, List.length_cons] at bound
    obtain rfl := List.eq_nil_of_length_eq_zero (Nat.le_zero.mp (Nat.le_of_succ_le_succ bound))
    rfl
  · obtain ⟨later, added, rest, same, -⟩ := first.exists_rest rounds done
    exact ⟨first.underway begins rest, later, added, rest, same⟩

/-- A set that is met again, from two sets and on two symbols, is not taken again. -/
theorem determinize_takes_each_set_once_of_loops :
    ∃ nfa : Nfa, nfa.InRange ∧ ∃ start last taken pushed, Worklist.begin nfa = .ok start ∧
      Worklist.Rounds nfa start taken pushed last ∧ last.pending = [] ∧ taken.length = 2 ∧ taken.Nodup := by
  let both : StateSet := .ofList [0, 1]
  let first : NfaState := { letters := ((∅ : SortedMap Symbol StateSet).insert 'a' both).insert 'b' both }
  let nfa : Nfa := ⟨#[first, { accepting := true }]⟩
  have inRange : nfa.InRange := by decide
  have sizes : (Worklist.determinize nfa).map Dfa.size = .ok 2 := rfl
  obtain ⟨start, last, taken, pushed, begins, rounds, done, table, -, once, count, -, -, heads⟩ :=
    determinize_takes_each_set_once inRange
  rw [table] at sizes
  obtain ⟨whole, -⟩ := heads taken pushed last rounds
  rw [← whole.interned] at once
  exact ⟨nfa, inRange, start, last, taken, pushed, begins, rounds, done, count.trans (Except.ok.inj sizes),
    once.nodup_iff.mpr whole.distinct⟩

end PatternAutomata
