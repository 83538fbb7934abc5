import Mathlib.Data.Finset.Powerset
import PatternAutomata.Dfa.SubsetConstruction
import PatternAutomata.Proofs.Dfa.Transitions
import PatternAutomata.Proofs.Nfa.Accessible

/-! # The worklist of the subset construction

Every state of a construction under way stands for an accessible set that no other state stands for,
and its transitions are moves (`Interned`). A move that has no transition yet starts from a set that
waits to be expanded, or is still owed (`Progress`). Interning keeps the number of states that do not
wait, and expanding a set adds one to it; there are at most `2 ^ n` sets, so as many rounds expand all
of them (`Progress.whole`).
-/

namespace PatternAutomata

variable {nfa : Nfa} {dfa : Dfa}

/-- States stand for accessible sets, each set for one state, and transitions are moves. -/
structure Interned (nfa : Nfa) (dfa : Dfa) : Prop where
  labelled : ∀ id < dfa.size, ∃ set, dfa.StandsFor id set
  distinct : ∀ p q set, dfa.StandsFor p set → dfa.StandsFor q set → p = q
  accessible : ∀ id set, dfa.StandsFor id set → nfa.AccessibleSet set
  accepting : ∀ id set, dfa.StandsFor id set → (dfa.Accepting id ↔ ∃ member ∈ set, nfa.Accepting member)
  sound : ∀ id set symbol target, dfa.StandsFor id set → dfa.next? id symbol = some target →
    ∃ next, nfa.Moves set symbol next ∧ dfa.StandsFor target next

namespace Interned

theorem nothing (nfa : Nfa) : Interned nfa {} := by
  have none (id : StateId) (set : StateSet) : ¬ Dfa.StandsFor {} id set := fun stands =>
    Nat.not_lt_zero id stands.lt
  constructor
  case labelled => exact fun id owned => absurd owned (Nat.not_lt_zero id)
  case distinct => exact fun p q set stands => absurd stands (none p set)
  case accessible => exact fun id set stands => absurd stands (none id set)
  case accepting => exact fun id set stands => absurd stands (none id set)
  case sound => exact fun id set symbol target stands => absurd stands (none id set)

/-- Distinct subsets of `n` states are at most `2 ^ n`. -/
theorem size_le (inRange : nfa.InRange) (interned : Interned nfa dfa) :
    dfa.size ≤ 2 ^ nfa.size := by
  classical
  choose! origin stands using interned.labelled
  have inside : ∀ id ∈ Finset.range dfa.size,
      (origin id).toList.toFinset ∈ (Finset.range nfa.size).powerset := by
    intro id member
    have owned := ((interned.accessible id _ (stands id (Finset.mem_range.mp member))).valid inRange).1
    rw [Finset.mem_powerset]
    intro state stateMember
    exact Finset.mem_range.mpr (owned state (List.mem_toFinset.mp stateMember))
  have injective : Set.InjOn (fun id => (origin id).toList.toFinset) (Finset.range dfa.size) := by
    intro p pOwned q qOwned same
    have sets : origin p = origin q := SortedSet.ext_mem fun state => by
      simpa [SortedSet.mem_def] using Finset.ext_iff.mp same state
    have pStands := stands p (Finset.mem_range.mp pOwned)
    rw [sets] at pStands
    exact interned.distinct p q _ pStands (stands q (Finset.mem_range.mp qOwned))
  have bound := Finset.card_le_card_of_injOn _ inside injective
  rwa [Finset.card_range, Finset.card_powerset, Finset.card_range] at bound

/-- A set that no state stands for yet may get a state without transitions. -/
theorem push (interned : Interned nfa dfa) {set : StateSet} (accessible : nfa.AccessibleSet set)
    (fresh : ∀ id, ¬ dfa.StandsFor id set) {accepting : Bool}
    (accepts : accepting = true ↔ ∃ member ∈ set, nfa.Accepting member) :
    Interned nfa (dfa.push { accepting, origin := some set }) := by
  have stands_iff (id : StateId) (other : StateSet) :
      (dfa.push { accepting, origin := some set }).StandsFor id other ↔
        id = dfa.size ∧ set = other ∨ dfa.StandsFor id other := by
    simp [Dfa.standsFor_push]
  constructor
  case labelled =>
    intro id owned
    rw [Dfa.size_push] at owned
    rcases Nat.lt_succ_iff_lt_or_eq.mp owned with before | rfl
    · obtain ⟨other, stands⟩ := interned.labelled id before
      exact ⟨other, (stands_iff _ _).mpr (.inr stands)⟩
    · exact ⟨set, (stands_iff _ _).mpr (.inl ⟨rfl, rfl⟩)⟩
  case distinct =>
    intro p q other pStands qStands
    rcases (stands_iff _ _).mp pStands with ⟨rfl, rfl⟩ | pOld
    · rcases (stands_iff _ _).mp qStands with ⟨rfl, -⟩ | qOld
      · rfl
      · exact absurd qOld (fresh q)
    · rcases (stands_iff _ _).mp qStands with ⟨rfl, rfl⟩ | qOld
      · exact absurd pOld (fresh p)
      · exact interned.distinct p q other pOld qOld
  case accessible =>
    intro id other stands
    rcases (stands_iff _ _).mp stands with ⟨-, rfl⟩ | old
    · exact accessible
    · exact interned.accessible id other old
  case accepting =>
    intro id other stands
    rw [Dfa.accepting_push]
    rcases (stands_iff _ _).mp stands with ⟨rfl, rfl⟩ | old
    · rw [if_pos rfl]
      exact accepts
    · rw [if_neg (Nat.ne_of_lt old.lt)]
      exact interned.accepting id other old
  case sound =>
    intro id other symbol target stands next
    rw [Dfa.next?_push] at next
    rcases (stands_iff _ _).mp stands with ⟨rfl, rfl⟩ | old
    · simp at next
    · rw [if_neg (Nat.ne_of_lt old.lt)] at next
      obtain ⟨reached, moves, reachedStands⟩ := interned.sound id other symbol target old next
      exact ⟨reached, moves, (stands_iff _ _).mpr (.inr reachedStands)⟩

/-- A move may get its transition. -/
theorem addTransition (interned : Interned nfa dfa) {id target : StateId} {symbol : Symbol}
    {set next : StateSet} (source : dfa.StandsFor id set) (moves : nfa.Moves set symbol next)
    (reached : dfa.StandsFor target next) {updated : Dfa} (sameSize : updated.size = dfa.size)
    (accepts : ∀ p, updated.Accepting p ↔ dfa.Accepting p)
    (stands : ∀ p other, updated.StandsFor p other ↔ dfa.StandsFor p other)
    (nexts : ∀ p c, updated.next? p c = if p = id ∧ c = symbol then some target else dfa.next? p c) :
    Interned nfa updated := by
  constructor
  case labelled =>
    intro p owned
    rw [sameSize] at owned
    obtain ⟨other, before⟩ := interned.labelled p owned
    exact ⟨other, (stands _ _).mpr before⟩
  case distinct =>
    intro p q other pStands qStands
    exact interned.distinct p q other ((stands _ _).mp pStands) ((stands _ _).mp qStands)
  case accessible => exact fun p other after => interned.accessible p other ((stands _ _).mp after)
  case accepting =>
    exact fun p other after => (accepts p).trans (interned.accepting p other ((stands _ _).mp after))
  case sound =>
    intro p other c t after step
    have before := (stands _ _).mp after
    rw [nexts] at step
    split at step
    · rename_i here
      obtain ⟨rfl, rfl⟩ := here
      obtain rfl := Option.some.inj step
      obtain rfl := before.unique source
      exact ⟨next, moves, (stands _ _).mpr reached⟩
    · obtain ⟨found, foundMoves, foundStands⟩ := interned.sound p other c t before step
      exact ⟨found, foundMoves, (stands _ _).mpr foundStands⟩

end Interned

namespace SubsetConstruction

/-- What holds between two steps of a construction: the pending states stand for their sets, and a
move without a transition is pending or owed. -/
structure Progress (nfa : Nfa) (owed : StateId → Symbol → Prop) (work : SubsetConstruction) : Prop
    extends Interned nfa work.dfa where
  pending : ∀ id set, (id, set) ∈ work.pending → work.dfa.StandsFor id set
  complete : ∀ id set symbol next, work.dfa.StandsFor id set → nfa.Moves set symbol next →
    (id, set) ∈ work.pending ∨ owed id symbol ∨ ∃ target, work.dfa.next? id symbol = some target

/-- What one step of a construction leaves as it is: the sets that states stand for, and the number of
states that do not wait. -/
structure Continues (before after : SubsetConstruction) : Prop where
  stands : ∀ id set, before.dfa.StandsFor id set → after.dfa.StandsFor id set
  expanded : before.dfa.size + after.pending.length = after.dfa.size + before.pending.length

variable {owed : StateId → Symbol → Prop} {work : SubsetConstruction}

theorem Continues.refl (work : SubsetConstruction) : Continues work work := ⟨fun _ _ stands => stands, rfl⟩

theorem Continues.trans {before middle after : SubsetConstruction} (left : Continues before middle)
    (right : Continues middle after) : Continues before after where
  stands id set stands := right.stands id set (left.stands id set stands)
  expanded := by
    have := left.expanded
    have := right.expanded
    omega

/-- Whatever is owed may be replaced by more. -/
theorem Progress.mono {more : StateId → Symbol → Prop} (progress : Progress nfa owed work)
    (included : ∀ id symbol, owed id symbol → more id symbol) : Progress nfa more work where
  toInterned := progress.toInterned
  pending := progress.pending
  complete id set symbol next stands moves :=
    (progress.complete id set symbol next stands moves).imp_right (Or.imp_left (included id symbol))

theorem idOf?_eq_some {set : StateSet} {id : StateId} (found : work.idOf? set = some id) :
    work.dfa.StandsFor id set := by
  obtain ⟨owned, same, -⟩ := Array.findIdx?_eq_some_iff_getElem.mp found
  exact ⟨_, Array.getElem?_eq_getElem owned, by simpa using same⟩

theorem idOf?_eq_none {set : StateSet} (absent : work.idOf? set = none) (id : StateId) :
    ¬ work.dfa.StandsFor id set := by
  rintro ⟨state, read, origin⟩
  have differs := Array.findIdx?_eq_none_iff.mp absent state (Array.mem_of_getElem? read)
  simp [origin] at differs

/-- Interning an accessible set finds the one state that stands for it, which may be new. -/
theorem Progress.intern (inRange : nfa.InRange) (progress : Progress nfa owed work) {set : StateSet}
    (accessible : nfa.AccessibleSet set) :
    ∃ next id, work.intern nfa set = .ok (next, id) ∧ Progress nfa owed next ∧ Continues work next ∧
      next.dfa.StandsFor id set ∧ id ≤ work.dfa.size := by
  unfold SubsetConstruction.intern
  cases found : work.idOf? set with
  | some id =>
    have stands := idOf?_eq_some found
    exact ⟨work, id, rfl, progress, .refl work, stands, Nat.le_of_lt stands.lt⟩
  | none =>
    obtain ⟨accepting, success, accepts⟩ := Nfa.containsAccepting_eq_ok (accessible.valid inRange).1
    have fresh := idOf?_eq_none found
    have old (id : StateId) (other : StateSet) (stands : work.dfa.StandsFor id other) :
        (work.dfa.push { accepting, origin := some set }).StandsFor id other :=
      (Dfa.standsFor_push _ _ _).mpr (.inr stands)
    have pushed := progress.toInterned.push accessible fresh accepts
    refine ⟨{ dfa := work.dfa.push { accepting, origin := some set },
              pending := (work.dfa.size, set) :: work.pending },
      work.dfa.size, ?_, ⟨pushed, ?_, ?_⟩, ⟨old, ?_⟩, ?_, Nat.le_refl _⟩
    · simp only [success, bind, Except.bind]
    · intro id other member
      rcases List.mem_cons.mp member with same | later
      · obtain ⟨rfl, rfl⟩ := Prod.mk.inj same
        simp [Dfa.standsFor_push]
      · exact old id other (progress.pending id other later)
    · intro id other symbol next stands moves
      rcases (Dfa.standsFor_push _ _ _).mp stands with ⟨rfl, same⟩ | before
      · obtain rfl := Option.some.inj same
        exact .inl (List.mem_cons_self ..)
      · rw [Dfa.next?_push, if_neg (Nat.ne_of_lt before.lt)]
        exact (progress.complete id other symbol next before moves).imp_left (List.mem_cons_of_mem _)
    · simp only [Dfa.size_push, List.length_cons]
      omega
    · simp [Dfa.standsFor_push]

theorem Progress.addTransition (progress : Progress nfa owed work) {id target : StateId} {symbol : Symbol}
    {set next : StateSet} (source : work.dfa.StandsFor id set) (moves : nfa.Moves set symbol next)
    (reached : work.dfa.StandsFor target next) :
    ∃ dfa, work.dfa.addTransition id symbol target = .ok dfa ∧
      Progress nfa (fun p c => owed p c ∧ ¬ (p = id ∧ c = symbol)) { work with dfa } ∧
      Continues work { work with dfa } := by
  obtain ⟨dfa, success, sameSize, accepts, stands, nexts⟩ :=
    Dfa.addTransition_eq_ok symbol source.lt reached.lt
  have interned := progress.toInterned.addTransition source moves reached sameSize accepts stands nexts
  refine ⟨dfa, success, ⟨interned, fun p other member => ?_, fun p other c t after othersMove => ?_⟩,
    fun p other before => (stands p other).mpr before, by simp [sameSize]⟩
  · exact (stands _ _).mpr (progress.pending p other member)
  · rw [nexts]
    by_cases here : p = id ∧ c = symbol
    · exact .inr (.inr ⟨target, if_pos here⟩)
    · rw [if_neg here]
      refine (progress.complete p other c t ((stands _ _).mp after) othersMove).imp_right (Or.imp_left ?_)
      exact fun before => ⟨before, here⟩

/-- Expanding a set on a symbol settles what is owed for them. -/
theorem Progress.expandOn (inRange : nfa.InRange) (progress : Progress nfa owed work) {id : StateId}
    {set : StateSet} (source : work.dfa.StandsFor id set) (symbol : Symbol) :
    ∃ next, work.expandOn nfa id set symbol = .ok next ∧
      Progress nfa (fun p c => owed p c ∧ ¬ (p = id ∧ c = symbol)) next ∧ Continues work next := by
  have accessible := progress.accessible id set source
  obtain ⟨stepped, step, owned, -⟩ := Nfa.step_eq_ok inRange (accessible.valid inRange).1 symbol
  by_cases empty : stepped = ∅
  · subst empty
    refine ⟨work, ?_, ⟨progress.toInterned, progress.pending, ?_⟩, .refl work⟩
    · simp only [SubsetConstruction.expandOn, step, bind, Except.bind]
      rfl
    · intro p other c next stands moves
      have known := progress.complete p other c next stands moves
      refine known.imp_right (Or.imp_left fun before => ⟨before, ?_⟩)
      rintro ⟨rfl, rfl⟩
      obtain rfl := stands.unique source
      obtain ⟨found, success, inhabited, -⟩ := moves
      exact inhabited (Except.ok.inj (success.symm.trans step))
  · obtain ⟨closed, close, -⟩ := Nfa.closure_eq_ok inRange owned
    have moves : nfa.Moves set symbol closed := ⟨stepped, step, empty, close⟩
    obtain ⟨interned, target, success, internedProgress, continues, reached, -⟩ :=
      progress.intern inRange (accessible.move moves)
    obtain ⟨dfa, added, addedProgress, addedContinues⟩ :=
      internedProgress.addTransition (continues.stands id set source) moves reached
    refine ⟨_, ?_, addedProgress, continues.trans addedContinues⟩
    have inhabited : stepped.isEmpty = false := by
      rw [Bool.eq_false_iff, ne_eq, SortedSet.isEmpty_iff]
      exact empty
    simp only [SubsetConstruction.expandOn, step, bind, Except.bind, inhabited, close, success, added]
    rfl

/-- Expanding a set on all symbols that are owed for it settles everything. -/
theorem Progress.expandOnAll (inRange : nfa.InRange) {id : StateId} {set : StateSet} (symbols : List Symbol)
    (progress : Progress nfa (fun p c => p = id ∧ c ∈ symbols) work) (source : work.dfa.StandsFor id set) :
    ∃ next, symbols.foldlM (SubsetConstruction.expandOn nfa id set) work = .ok next ∧
      Progress nfa (fun _ _ => False) next ∧ Continues work next := by
  induction symbols generalizing work with
  | nil => exact ⟨work, rfl, progress.mono (by simp), .refl work⟩
  | cons symbol rest ih =>
    obtain ⟨middle, success, settled, continues⟩ := progress.expandOn inRange source symbol
    have fewer : Progress nfa (fun p c => p = id ∧ c ∈ rest) middle := settled.mono (by
      rintro p c ⟨⟨rfl, member⟩, notHere⟩
      exact ⟨rfl, (List.mem_cons.mp member).resolve_left fun same => notHere ⟨rfl, same⟩⟩)
    obtain ⟨next, restSuccess, done, restContinues⟩ := ih fewer (continues.stands id set source)
    have run := foldlM_cons_eq_ok_iff.mpr ⟨middle, success, restSuccess⟩
    exact ⟨next, run, done, continues.trans restContinues⟩

/-- Expanding the set in front takes it off the pending ones and gives all its moves transitions. -/
theorem Progress.expandNext (inRange : nfa.InRange) (progress : Progress nfa (fun _ _ => False) work)
    {id : StateId} {set : StateSet} {pending : List (StateId × StateSet)}
    (front : work.pending = (id, set) :: pending) :
    ∃ next, work.expandNext nfa nfa.alphabet = .ok next ∧ Progress nfa (fun _ _ => False) next ∧
      Continues { work with pending } next := by
  have source : work.dfa.StandsFor id set := progress.pending id set (by simp [front])
  have taken : Progress nfa (fun p c => p = id ∧ c ∈ nfa.alphabet.toList) { work with pending } := by
    refine ⟨progress.toInterned, fun p other member => ?_, fun p other c next stands moves => ?_⟩
    · exact progress.pending p other (front ▸ List.mem_cons_of_mem _ member)
    · have owned := ((progress.accessible p other stands).valid inRange).1
      have known := progress.complete p other c next stands moves
      rw [front, false_or, List.mem_cons, or_assoc] at known
      rcases known with here | later
      · exact .inr (.inl ⟨(Prod.mk.inj here).1, moves.mem_alphabet inRange owned⟩)
      · exact later.imp_right .inr
  obtain ⟨next, success, done, continues⟩ := taken.expandOnAll inRange nfa.alphabet.toList source
  refine ⟨next, ?_, done, continues⟩
  simp only [SubsetConstruction.expandNext, front]
  exact success

/-- With a round for every pending set and for every set that may still be met, all sets get
expanded. -/
theorem Progress.expandAll (inRange : nfa.InRange) (rounds : Nat)
    (progress : Progress nfa (fun _ _ => False) work)
    (enough : work.pending.length + (2 ^ nfa.size - work.dfa.size) ≤ rounds) :
    ∃ done, work.expandAll nfa nfa.alphabet rounds = .ok done ∧ Progress nfa (fun _ _ => False) done ∧
      done.pending = [] ∧ ∀ id set, work.dfa.StandsFor id set → done.dfa.StandsFor id set := by
  induction rounds generalizing work with
  | zero => exact ⟨work, rfl, progress, List.eq_nil_of_length_eq_zero (by omega), fun _ _ stands => stands⟩
  | succ rounds ih =>
    cases front : work.pending with
    | nil =>
      refine ⟨work, ?_, progress, front, fun _ _ stands => stands⟩
      simp [SubsetConstruction.expandAll, front]
    | cons entry pending =>
      obtain ⟨id, set⟩ := entry
      obtain ⟨next, success, nextProgress, continues⟩ := progress.expandNext inRange front
      have bound := nextProgress.toInterned.size_le inRange
      have expanded := continues.expanded
      rw [front, List.length_cons] at enough
      obtain ⟨done, restSuccess, doneProgress, empty, later⟩ := ih nextProgress (by
        simp only at expanded
        omega)
      refine ⟨done, ?_, doneProgress, empty, ?_⟩
      · simp only [SubsetConstruction.expandAll, front, List.isEmpty_cons, Bool.false_eq_true, if_false,
          success, bind, Except.bind]
        exact restSuccess
      · intro p other stands
        exact later p other (continues.stands p other stands)

/-- A construction begins with the start set alone, which waits. -/
theorem Progress.begin (inRange : nfa.InRange) :
    ∃ start work, nfa.startSet = .ok start ∧ SubsetConstruction.begin nfa = .ok work ∧
      Progress nfa (fun _ _ => False) work ∧ work.dfa.StandsFor StateId.start start ∧
      work.pending.length = work.dfa.size := by
  obtain ⟨start, success, -⟩ := Nfa.startSet_eq_ok inRange
  have nothing : Progress nfa (fun _ _ => False) {} := by
    refine ⟨.nothing nfa, nofun, fun id set symbol next stands => ?_⟩
    exact absurd stands.lt (Nat.not_lt_zero id)
  obtain ⟨work, id, interned, progress, continues, stands, bound⟩ := nothing.intern inRange (.start success)
  obtain rfl : id = StateId.start := Nat.le_zero.mp bound
  have expanded := continues.expanded
  simp only [Dfa.size, List.size_toArray, List.length_nil, Nat.zero_add, Nat.add_zero] at expanded
  refine ⟨start, work, success, ?_, progress, stands, expanded⟩
  simp only [SubsetConstruction.begin, success, interned, bind, Except.bind]

/-- The rounds that a construction is given are enough for it to come to its end. -/
theorem Progress.whole (inRange : nfa.InRange) :
    ∃ start work done, nfa.startSet = .ok start ∧ SubsetConstruction.begin nfa = .ok work ∧
      Progress nfa (fun _ _ => False) work ∧
      work.expandAll nfa nfa.alphabet (Nat.pow 2 nfa.size) = .ok done ∧
      Progress nfa (fun _ _ => False) done ∧ done.pending = [] ∧ done.dfa.StandsFor StateId.start start := by
  obtain ⟨start, work, success, begins, progress, stands, waiting⟩ := Progress.begin inRange
  have limit := progress.toInterned.size_le inRange
  obtain ⟨done, run, doneProgress, empty, later⟩ := progress.expandAll inRange (2 ^ nfa.size) (by
    rw [waiting]
    exact Nat.le_of_eq (Nat.add_sub_cancel' limit))
  exact ⟨start, work, done, success, begins, progress, run, doneProgress, empty, later _ _ stands⟩

end SubsetConstruction

end PatternAutomata
