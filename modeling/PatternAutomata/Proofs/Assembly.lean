import PatternAutomata.Assembly
import PatternAutomata.Proofs.Totality

/-! # Assembled automata are sound

A call in place does what the operation it stands for does, and nothing at all if that is a fault
(`Nfa.Call.run_perform`, `Dfa.Call.run_perform`): it ends in a fault exactly when it is given a state that the
automaton does not have. So edges stay inside and letters lead somewhere after any calls
(`InPlace.holds_foldl_leave`), and no question to the automaton is a fault.
-/

namespace PatternAutomata

namespace InPlace

variable {automaton : Type} {before : automaton}

/-- How a call ends that has done nothing before it can end in a fault. -/
def atOnce (before : automaton) : Except Fault automaton → EStateM.Result Fault automaton Unit
  | .ok after => .ok () after
  | .error fault => .error fault before

theorem run_change (effect : automaton → Except Fault automaton) (before : automaton) :
    (change effect).run before = atOnce before (effect before) := by
  simp only [change, EStateM.run_bind, EStateM.run_get]
  cases effect before <;> rfl

/-- A call that first checks the automaton does nothing if the check fails. -/
theorem run_require_bind (condition : automaton → Prop) [DecidablePred condition] {fault : Fault}
    {call : InPlace automaton Unit} {changed : Except Fault automaton}
    (performs : call.run before = atOnce before changed) :
    (do require (condition ·) fault; call).run before =
      atOnce before (if condition before then changed else .error fault) := by
  simp only [require, EStateM.run_bind, EStateM.run_get]
  by_cases met : condition before
  · simpa [met] using performs
  · simp [met, atOnce]

/-- A change of one state that may have checked another one before is refused when either is missing. -/
theorem exists_fault {size : Nat} {source target id : StateId} {fault : Fault} {changed : Except Fault automaton}
    (about : fault.id = target) (refuses : size ≤ source → changed = .error (.noSuchState size source))
    (member : id ∈ [source, target]) (foreign : size ≤ id) :
    ∃ cause, (if target < size then changed else .error fault) = .error cause ∧
      cause.id ∈ [source, target] ∧ size ≤ cause.id := by
  by_cases owned : target < size
  · have missing : size ≤ source := by
      rcases List.mem_pair.mp member with rfl | rfl
      · exact foreign
      · exact absurd owned (Nat.not_lt_of_le foreign)
    rw [if_pos owned, refuses missing]
    exact ⟨_, rfl, List.mem_cons_self, missing⟩
  · rw [if_neg owned]
    exact ⟨fault, rfl, by simp [about], about ▸ Nat.le_of_not_lt owned⟩

/-- A call does what an operation does, and goes through when the automaton has all states that are given.
Otherwise it ends in a fault about one that is missing, and leaves the automaton as it was. -/
structure Atomic (holds : automaton → Prop) (size : automaton → Nat) (given : List StateId)
    (operation : automaton → Except Fault automaton) (call : InPlace automaton Unit) (before : automaton) :
    Prop where
  goesThrough : (∀ id ∈ given, id < size before) →
    ∃ after, operation before = .ok after ∧ call.run before = .ok () after ∧ holds after
  refused : ∀ id ∈ given, size before ≤ id →
    ∃ fault, operation before = .error fault ∧ call.run before = .error fault before ∧
      fault.id ∈ given ∧ size before ≤ fault.id

namespace Atomic

variable {holds : automaton → Prop} {size : automaton → Nat} {given : List StateId}
  {operation : automaton → Except Fault automaton} {call : InPlace automaton Unit}

/-- An operation that is refused exactly when a state is missing makes an atomic call. -/
theorem ofOperation (performs : call.run before = atOnce before (operation before))
    (goes : (∀ id ∈ given, id < size before) → ∃ after, operation before = .ok after ∧ holds after)
    (refuses : ∀ id ∈ given, size before ≤ id →
      ∃ fault, operation before = .error fault ∧ fault.id ∈ given ∧ size before ≤ fault.id) :
    Atomic holds size given operation call before where
  goesThrough owned := by
    obtain ⟨after, success, kept⟩ := goes owned
    exact ⟨after, success, by rw [performs, success, atOnce], kept⟩
  refused id member foreign := by
    obtain ⟨fault, failure, about⟩ := refuses id member foreign
    exact ⟨fault, failure, by rw [performs, failure, atOnce], about⟩

theorem holds_leave (atomic : Atomic holds size given operation call before) (start : holds before) :
    holds (leave before call) := by
  by_cases owned : ∀ id ∈ given, id < size before
  · obtain ⟨after, -, success, kept⟩ := atomic.goesThrough owned
    simpa only [leave, success] using kept
  · obtain ⟨id, member, foreign⟩ : ∃ id ∈ given, ¬ id < size before := by simpa using owned
    obtain ⟨fault, -, failure, -⟩ := atomic.refused id member (Nat.le_of_not_lt foreign)
    simpa only [leave, failure] using start

end Atomic

/-- What atomic calls make of an automaton, whether or not they are refused, has the property that each of them
keeps. -/
theorem holds_foldl_leave {call : Type} {perform : call → InPlace automaton Unit} {given : call → List StateId}
    {operation : call → automaton → Except Fault automaton} {holds : automaton → Prop} {size : automaton → Nat}
    (atomic : ∀ before, holds before → ∀ next,
      Atomic holds size (given next) (operation next) (perform next) before)
    (calls : List call) (start : holds before) :
    holds (calls.foldl (fun automaton next => leave automaton (perform next)) before) := by
  induction calls generalizing before with
  | nil => exact start
  | cons next rest ih => exact ih ((atomic before start next).holds_leave start)

end InPlace

theorem NfaState.addLetter_enter (state : NfaState) (symbol : Symbol) (target : StateId) :
    (state.enter symbol).addLetter symbol target = state.addLetter symbol target := by
  have same : (state.enter symbol).targets symbol = state.targets symbol := by
    simp [enter, targets]
  simp only [addLetter, same]
  congr 1
  apply SortedMap.ext_get?
  intro other
  by_cases equal : symbol = other <;> simp [enter, equal]

namespace Nfa

variable {nfa : Nfa}

/-- Edges lead to states that the automaton has, and letters lead somewhere. -/
structure Sound (nfa : Nfa) : Prop where
  inRange : nfa.InRange
  lettersLead : nfa.LettersLead

/-- The entry and the edge change one state, so both changes are one, or both are faults. -/
theorem run_enter_addLetter (nfa : Nfa) (source : StateId) (symbol : Symbol) (target : StateId) :
    (do InPlace.change (Nfa.update · source (·.enter symbol))
        InPlace.change (Nfa.update · source (·.addLetter symbol target))).run nfa =
      InPlace.atOnce nfa (nfa.update source (·.addLetter symbol target)) := by
  simp only [EStateM.run_bind, InPlace.run_change]
  by_cases owned : source < nfa.states.size <;>
    simp [Nfa.update, StateTable.update, owned, Except.map, InPlace.atOnce, NfaState.addLetter_enter]

namespace Call

/-- A call in place does what its operation does, and nothing if that is a fault. -/
theorem run_perform (call : Call) (nfa : Nfa) :
    call.perform.run nfa = InPlace.atOnce nfa (call.operation nfa) := by
  cases call with
  | ofSize n => rfl
  | addState => rfl
  | setAccepting id accepting => exact InPlace.run_change _ nfa
  | addEpsilon source target => exact InPlace.run_require_bind _ (InPlace.run_change _ nfa)
  | addLetter source symbol target => exact InPlace.run_require_bind _ (run_enter_addLetter nfa source symbol target)

theorem operation_of_foreign (call : Call) {id : StateId} (member : id ∈ call.given) (foreign : nfa.size ≤ id) :
    ∃ fault, call.operation nfa = .error fault ∧ fault.id ∈ call.given ∧ nfa.size ≤ fault.id := by
  cases call with
  | ofSize n => cases member
  | addState => cases member
  | setAccepting other accepting =>
    obtain rfl := List.mem_singleton.mp member
    exact ⟨_, update_of_le foreign _, member, foreign⟩
  | addEpsilon source target =>
    exact InPlace.exists_fault rfl (fun missing => update_of_le missing _) member foreign
  | addLetter source symbol target =>
    exact InPlace.exists_fault rfl (fun missing => update_of_le missing _) member foreign

theorem operation_of_owned (sound : nfa.Sound) (call : Call) (owned : ∀ id ∈ call.given, id < nfa.size) :
    ∃ next, call.operation nfa = .ok next ∧ next.Sound := by
  cases call with
  | ofSize n =>
    refine ⟨_, rfl, fun source label target edge => ?_, .ofSize n⟩
    rw [edge_ofSize] at edge
    exact edge.elim
  | addState =>
    exact ⟨_, rfl, (extends_addState nfa).inRange sound.inRange fun _ _ _ => False.elim, sound.lettersLead.addState⟩
  | setAccepting id accepting =>
    obtain ⟨next, success, sameSize, sameEdges, -⟩ := setAccepting_eq_ok (owned id (by simp [given])) accepting
    refine ⟨next, success, fun source label target edge => ?_, sound.lettersLead.setAccepting success⟩
    rw [sameEdges] at edge
    exact sameSize ▸ sound.inRange source label target edge
  | addEpsilon source target =>
    have targetOwned := owned target (by simp [given])
    obtain ⟨next, success, sameSize, adds⟩ := addEpsilon_eq_ok (owned source (by simp [given])) targetOwned
    exact ⟨next, success, adds.inRange_single sound.inRange (sameSize ▸ targetOwned),
      sound.lettersLead.addEpsilon success⟩
  | addLetter source symbol target =>
    have targetOwned := owned target (by simp [given])
    obtain ⟨next, success, sameSize, adds⟩ := addLetter_eq_ok symbol (owned source (by simp [given])) targetOwned
    exact ⟨next, success, adds.inRange_single sound.inRange (sameSize ▸ targetOwned),
      sound.lettersLead.addLetter success⟩

theorem atomic (sound : nfa.Sound) (call : Call) :
    InPlace.Atomic Nfa.Sound Nfa.size call.given call.operation call.perform nfa :=
  .ofOperation (run_perform call nfa) (operation_of_owned sound call) fun _ => operation_of_foreign call

end Call

end Nfa

namespace Dfa

variable {dfa : Dfa}

/-- A pass goes through. What it gives, if anything, has transitions that stay inside, and a state if there
was one. -/
theorem minimizeOnce_eq_ok_of_inRange (inRange : dfa.InRange) :
    ∃ once, dfa.minimizeOnce = .ok once ∧
      ∀ merged, once = some merged → merged.InRange ∧ (0 < dfa.size → 0 < merged.size) := by
  rcases minimizeOnce_cases inRange with last | ⟨next, pass⟩
  · exact ⟨none, last, fun merged same => nomatch same⟩
  · obtain ⟨quotient, -⟩ := quotient_pass inRange pass
    refine ⟨some next, pass, fun merged same => ?_⟩
    obtain rfl := Option.some.inj same
    exact ⟨quotient.inRange inRange, quotient.size_pos⟩

theorem minimize_eq_ok_of_inRange (inRange : dfa.InRange) :
    ∃ merged, dfa.minimize = .ok merged ∧ merged.InRange ∧ (0 < dfa.size → 0 < merged.size) := by
  obtain ⟨results, -, passes, success⟩ := minimize_eq_ok inRange
  obtain ⟨map, quotient⟩ := passes.quotient inRange
  exact ⟨_, success, quotient.inRange inRange, quotient.size_pos⟩

namespace Call

theorem run_perform (call : Call) (dfa : Dfa) :
    call.perform.run dfa = InPlace.atOnce dfa (call.operation dfa) := by
  cases call with
  | new => rfl
  | addState accepting => rfl
  | setAccepting id accepting => exact InPlace.run_change _ dfa
  | addTransition source symbol target => exact InPlace.run_require_bind _ (InPlace.run_change _ dfa)
  | minimizeOnce => exact InPlace.run_change _ dfa
  | minimize => exact InPlace.run_change _ dfa

theorem operation_of_foreign (call : Call) {id : StateId} (member : id ∈ call.given) (foreign : dfa.size ≤ id) :
    ∃ fault, call.operation dfa = .error fault ∧ fault.id ∈ call.given ∧ dfa.size ≤ fault.id := by
  cases call with
  | new | addState _ | minimizeOnce | minimize => cases member
  | setAccepting other accepting =>
    obtain rfl := List.mem_singleton.mp member
    exact ⟨_, update_of_le foreign _, member, foreign⟩
  | addTransition source symbol target =>
    exact InPlace.exists_fault rfl (fun missing => update_of_le missing _) member foreign

theorem operation_of_owned (inRange : dfa.InRange) (call : Call) (owned : ∀ id ∈ call.given, id < dfa.size) :
    ∃ next, call.operation dfa = .ok next ∧ next.InRange := by
  cases call with
  | new => exact ⟨{}, rfl, by decide⟩
  | addState accepting => exact ⟨_, rfl, inRange.addState accepting⟩
  | setAccepting id accepting => exact inRange.setAccepting (owned id (by simp [given])) accepting
  | addTransition source symbol target =>
    exact inRange.addTransition symbol (owned source (by simp [given])) (owned target (by simp [given]))
  | minimizeOnce =>
    obtain ⟨once, success, kept⟩ := minimizeOnce_eq_ok_of_inRange inRange
    refine ⟨once.getD dfa, by simp only [operation, success, bind, Except.bind], ?_⟩
    cases once with
    | none => exact inRange
    | some merged => exact (kept merged rfl).1
  | minimize =>
    obtain ⟨merged, success, kept, -⟩ := minimize_eq_ok_of_inRange inRange
    exact ⟨merged, success, kept⟩

theorem atomic (inRange : dfa.InRange) (call : Call) :
    InPlace.Atomic Dfa.InRange Dfa.size call.given call.operation call.perform dfa :=
  .ofOperation (run_perform call dfa) (operation_of_owned inRange call) fun _ => operation_of_foreign call

end Call

end Dfa

/-- Edges and letters are in order, the alphabet is what edges are labelled with, and whatever is asked of the
automaton has an answer, up to the merging of its subset automaton. -/
structure Nfa.Serviceable (nfa : Nfa) : Prop extends Nfa.Sound nfa where
  alphabet : ∀ symbol, symbol ∈ nfa.alphabet ↔ ∃ source target, nfa.Edge source (some symbol) target
  closure : ∀ set, nfa.Owns set → ∃ closed, nfa.closure set = .ok closed
  step : ∀ set symbol, nfa.Owns set → ∃ next, nfa.step set symbol = .ok next
  accepts : ∀ input, ∃ accepted, nfa.accepts input = .ok accepted
  determinize : ∃ dfa results, nfa.CarriedThrough dfa results

/-- Transitions stay inside, merging and looking for live states go through, and merging keeps a state if there
is one. -/
structure Dfa.Serviceable (dfa : Dfa) : Prop where
  inRange : dfa.InRange
  minimizeOnce : ∃ once, dfa.minimizeOnce = .ok once ∧
    ∀ merged, once = some merged → merged.InRange ∧ (0 < dfa.size → 0 < merged.size)
  minimize : ∃ merged, dfa.minimize = .ok merged ∧ merged.InRange ∧ (0 < dfa.size → 0 < merged.size)
  liveStates : ∃ live, dfa.liveStates = .ok live
  deadStates : ∃ dead, dfa.deadStates = .ok dead

theorem Nfa.Sound.serviceable {nfa : Nfa} (sound : nfa.Sound) : nfa.Serviceable where
  toSound := sound
  alphabet _ := mem_alphabet_iff sound.lettersLead
  closure set owned := by
    obtain ⟨closed, success, -⟩ := closure_eq_ok sound.inRange owned
    exact ⟨closed, success⟩
  step set symbol owned := by
    obtain ⟨next, success, -⟩ := step_eq_ok sound.inRange owned symbol
    exact ⟨next, success⟩
  accepts input := by
    obtain ⟨accepted, success, -⟩ := accepts_eq_ok sound.inRange input
    exact ⟨accepted, success⟩
  determinize := exists_carriedThrough sound.inRange

theorem Dfa.InRange.serviceable {dfa : Dfa} (inRange : dfa.InRange) : dfa.Serviceable where
  inRange := inRange
  minimizeOnce := minimizeOnce_eq_ok_of_inRange inRange
  minimize := minimize_eq_ok_of_inRange inRange
  liveStates := by
    obtain ⟨live, success, -⟩ := liveStates_eq_ok inRange
    exact ⟨live, success⟩
  deadStates := by
    obtain ⟨dead, success, -⟩ := deadStates_eq_ok inRange
    exact ⟨dead, success⟩

theorem Nfa.sound_assembled (calls : List Nfa.Call) : (Nfa.assembled calls).Sound :=
  InPlace.holds_foldl_leave (fun _ => Call.atomic) calls ⟨by decide, .ofSize 0⟩

theorem Dfa.inRange_assembled (calls : List Dfa.Call) : (Dfa.assembled calls).InRange :=
  InPlace.holds_foldl_leave (fun _ => Call.atomic) calls (by decide)

/-- Whatever calls have been made on an automaton, of which some may have ended in faults, it is in order, and
one more call either goes through or changes nothing. -/
theorem assembled_serviceable :
    (∀ calls : List Nfa.Call, (Nfa.assembled calls).Serviceable ∧ ∀ call : Nfa.Call,
      InPlace.Atomic Nfa.Sound Nfa.size call.given call.operation call.perform (Nfa.assembled calls)) ∧
    ∀ calls : List Dfa.Call, (Dfa.assembled calls).Serviceable ∧ ∀ call : Dfa.Call,
      InPlace.Atomic Dfa.InRange Dfa.size call.given call.operation call.perform (Dfa.assembled calls) := by
  refine ⟨fun calls => ?_, fun calls => ?_⟩
  · have sound := Nfa.sound_assembled calls
    exact ⟨sound.serviceable, Nfa.Call.atomic sound⟩
  · have inRange := Dfa.inRange_assembled calls
    exact ⟨inRange.serviceable, Dfa.Call.atomic inRange⟩

/-- A letter edge from a missing state is refused before its symbol gets an entry. -/
example : (Nfa.assembled [.ofSize 1, .addLetter 1 'a' 0, .addLetter 0 'b' 0]).alphabet = .ofList ['b'] := by
  decide

end PatternAutomata
