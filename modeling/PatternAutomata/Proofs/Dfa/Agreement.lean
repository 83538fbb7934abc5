import Mathlib.Data.Nat.Init
import PatternAutomata.Dfa.Separation
import PatternAutomata.Proofs.Dfa.Transitions

/-! # Agreement, step by step

States agree for one step more if they accept the same and every symbol leads both nowhere or to states
that agree (`agreesFor_succ_iff`). Agreement for some steps is therefore agreement for more
(`AgreesFor.of_le`), and once one more step tells nothing new, no number of further steps does
(`StableAt.agreesFor`).
-/

namespace PatternAutomata.Dfa

variable {dfa : Dfa} {steps more : Nat} {p q : StateId}

/-- One more step tells no further states of the automaton apart. -/
def StableAt (dfa : Dfa) (steps : Nat) : Prop :=
  ∀ p < dfa.size, ∀ q < dfa.size, (dfa.AgreesFor steps p q ↔ dfa.AgreesFor (steps + 1) p q)

/-- Related options stay related by what follows for their values. -/
theorem rel_imp {α β : Type} {related other : α → β → Prop} {first : Option α} {second : Option β}
    (follows : ∀ a b, first = some a → second = some b → related a b → other a b)
    (rel : Option.Rel related first second) : Option.Rel other first second := by
  cases rel with
  | none => exact .none
  | some here => exact .some (follows _ _ rfl rfl here)

/-- Options are related when both or neither have values, and values that they have are related. -/
theorem rel_of_isSome_iff {α β : Type} {related : α → β → Prop} {first : Option α} {second : Option β}
    (both : first.isSome ↔ second.isSome)
    (values : ∀ a b, first = some a → second = some b → related a b) : Option.Rel related first second := by
  cases first with
  | none =>
    cases second with
    | none => exact .none
    | some _ => simp at both
  | some a =>
    cases second with
    | none => simp at both
    | some b => exact .some (values a b rfl rfl)

/-- What holds of two words that lead nowhere, and of what follows for related values, holds after both. -/
theorem bind_rel {α β : Type} {related : α → α → Prop} {motive : Option β → Option β → Prop}
    {first second : Option α} {follow other : α → Option β} (rel : Option.Rel related first second)
    (nowhere : motive none none) (ends : ∀ a b, related a b → motive (follow a) (other b)) :
    motive (first.bind follow) (second.bind other) := by
  cases rel with
  | none => exact nowhere
  | some here => exact ends _ _ here

theorem verdict?_nil_eq_iff (pOwned : p < dfa.size) (qOwned : q < dfa.size) :
    dfa.verdict? p [] = dfa.verdict? q [] ↔ (dfa.Accepting p ↔ dfa.Accepting q) := by
  simp only [verdict?, walk?_nil, Option.bind_some, getElem?_of_lt pOwned, getElem?_of_lt qOwned, Accepting,
    Option.map_some, Option.some.injEq, exists_eq_left', ← Bool.eq_iff_iff]

theorem verdict?_cons (id : StateId) (symbol : Symbol) (rest : List Symbol) :
    dfa.verdict? id (symbol :: rest) =
      (dfa.next? id symbol).bind fun target => dfa.verdict? target rest := by
  simp only [verdict?, walk?_cons, Option.bind_assoc]

namespace AgreesFor

/-- Words of up to the length in question lead both states somewhere or neither. -/
theorem isSome_iff (agree : dfa.AgreesFor steps p q) {word : List Symbol} (within : word.length ≤ steps) :
    (dfa.walk? p word).isSome ↔ (dfa.walk? q word).isSome := by
  rcases Nat.lt_or_eq_of_le within with short | long
  · exact agree.walks word short
  · rw [agree.meets word long]

theorem succ (agree : dfa.AgreesFor steps p q) : dfa.AgreesFor (steps + 1) p q where
  walks word short := agree.isSome_iff (Nat.le_of_lt_succ short)
  verdicts word short := by
    rcases Nat.lt_or_eq_of_le (Nat.le_of_lt_succ short) with shorter | long
    · exact agree.verdicts word shorter
    · rw [verdict?, verdict?, agree.meets word long]
  meets word long := by
    have front : (word.take steps).length = steps := by
      rw [List.length_take]
      omega
    rw [← List.take_append_drop steps word, walk?_append, walk?_append, agree.meets _ front]

theorem of_le (le : steps ≤ more) (agree : dfa.AgreesFor steps p q) : dfa.AgreesFor more p q := by
  induction more, le using Nat.le_induction with
  | base => exact agree
  | succ more _ ih => exact ih.succ

/-- Transitions on one symbol lead to states that agree for one step less. -/
theorem target {pNext qNext : StateId} {symbol : Symbol} (agree : dfa.AgreesFor (steps + 1) p q)
    (pStep : dfa.next? p symbol = some pNext) (qStep : dfa.next? q symbol = some qNext) :
    dfa.AgreesFor steps pNext qNext := by
  have pWalk (word : List Symbol) : dfa.walk? p (symbol :: word) = dfa.walk? pNext word := by
    rw [walk?_cons, pStep, Option.bind_some]
  have qWalk (word : List Symbol) : dfa.walk? q (symbol :: word) = dfa.walk? qNext word := by
    rw [walk?_cons, qStep, Option.bind_some]
  constructor
  · intro word short
    rw [← pWalk, ← qWalk]
    exact agree.walks (symbol :: word) (Nat.succ_lt_succ short)
  · intro word short
    have same := agree.verdicts (symbol :: word) (Nat.succ_lt_succ short)
    rwa [verdict?, verdict?, pWalk, qWalk] at same
  · intro word long
    rw [← pWalk, ← qWalk]
    exact agree.meets (symbol :: word) (congrArg Nat.succ long)

end AgreesFor

/-- States agree for one step more if they accept the same and lead to states that agree. -/
theorem agreesFor_succ_iff (pOwned : p < dfa.size) (qOwned : q < dfa.size) :
    dfa.AgreesFor (steps + 1) p q ↔ (dfa.Accepting p ↔ dfa.Accepting q) ∧
      ∀ symbol, Option.Rel (dfa.AgreesFor steps) (dfa.next? p symbol) (dfa.next? q symbol) := by
  constructor
  · intro agree
    refine ⟨(verdict?_nil_eq_iff pOwned qOwned).mp (agree.verdicts [] (Nat.succ_pos _)), fun symbol => ?_⟩
    have short : [symbol].length ≤ steps + 1 := Nat.succ_le_succ (Nat.zero_le steps)
    have both : (dfa.next? p symbol).isSome ↔ (dfa.next? q symbol).isSome := by
      simpa using agree.isSome_iff short
    exact rel_of_isSome_iff both fun _ _ => agree.target
  · rintro ⟨accepting, targets⟩
    -- a word that is not empty leads to one of the pairs of targets, and these agree for what is left of it
    refine ⟨fun word short => ?_, fun word short => ?_, fun word long => ?_⟩
    · cases word with
      | nil => exact Iff.rfl
      | cons symbol rest =>
        rw [walk?_cons, walk?_cons]
        apply bind_rel (motive := fun a b => a.isSome ↔ b.isSome) (targets symbol) Iff.rfl
        exact fun _ _ agree => agree.walks rest (Nat.lt_of_succ_lt_succ short)
    · cases word with
      | nil => exact (verdict?_nil_eq_iff pOwned qOwned).mpr accepting
      | cons symbol rest =>
        rw [verdict?_cons, verdict?_cons]
        apply bind_rel (motive := Eq) (targets symbol) rfl
        exact fun _ _ agree => agree.verdicts rest (Nat.lt_of_succ_lt_succ short)
    · cases word with
      | nil => cases long
      | cons symbol rest =>
        rw [walk?_cons, walk?_cons]
        apply bind_rel (motive := Eq) (targets symbol) rfl
        exact fun _ _ agree => agree.meets rest (Nat.succ.inj long)

/-- Once one more step tells nothing new, no number of further steps does. -/
theorem StableAt.agreesFor (stable : dfa.StableAt steps) (inRange : dfa.InRange) (le : steps ≤ more)
    (pOwned : p < dfa.size) (qOwned : q < dfa.size) (agree : dfa.AgreesFor more p q) :
    dfa.AgreesFor steps p q := by
  -- for all states at once, since the step is taken by the targets of the two in question
  induction more, le using Nat.le_induction generalizing p q with
  | base => exact agree
  | succ more _ ih =>
    obtain ⟨accepting, targets⟩ := (agreesFor_succ_iff pOwned qOwned).mp agree
    refine (stable p pOwned q qOwned).mpr ((agreesFor_succ_iff pOwned qOwned).mpr ⟨accepting, ?_⟩)
    intro symbol
    refine rel_imp (fun pNext qNext pStep qStep agree => ?_) (targets symbol)
    exact ih (inRange p symbol pNext pStep) (inRange q symbol qNext qStep) agree

end PatternAutomata.Dfa
