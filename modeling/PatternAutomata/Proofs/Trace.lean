import Mathlib.Order.ConditionallyCompleteLattice.Basic
import PatternAutomata.Nfa.Path

/-! # Traces over labelled edges

A trace follows edges of any labelled relation between states and spells the symbols that they
consume. Paths of an automaton are the traces over its edges (`Nfa.path_iff_trace`). Where the edges
of a relation cannot leave or enter a state, traces cannot either (`eq_of_sink`, `eq_of_unentered`).
-/

namespace PatternAutomata

/-- Edges between states, each labelled by the symbol that it consumes, if any. -/
abbrev EdgeRelation := Nat → Option Symbol → Nat → Prop

def EdgeRelation.single (source : Nat) (label : Option Symbol) (target : Nat) : EdgeRelation :=
  fun s l t => s = source ∧ l = label ∧ t = target

/-- A run along edges, with the word of the symbols that they consume. -/
inductive Trace (edge : EdgeRelation) : Nat → List Symbol → Nat → Prop
  | nil (id : Nat) : Trace edge id [] id
  | step {source next target : Nat} {label : Option Symbol} {word : List Symbol}
      (first : edge source label next) (rest : Trace edge next word target) :
      Trace edge source (label.toList ++ word) target

namespace Trace

variable {edge larger : EdgeRelation} {source middle target : Nat} {word : List Symbol}

theorem ofEdge {label : Option Symbol} (only : edge source label target) :
    Trace edge source label.toList target := by
  have trace := Trace.step only (.nil target)
  rwa [List.append_nil] at trace

theorem append {first second : List Symbol} (left : Trace edge source first middle)
    (right : Trace edge middle second target) : Trace edge source (first ++ second) target := by
  induction left with
  | nil _ => exact right
  | step edge _ ih =>
    rw [List.append_assoc]
    exact .step edge (ih right)

theorem mono (included : edge ≤ larger) (trace : Trace edge source word target) :
    Trace larger source word target := by
  induction trace with
  | nil id => exact .nil id
  | step edge _ ih => exact .step (included _ _ _ edge) ih

/-- A trace that starts in a closed set of states uses the edges that leave its members. -/
theorem restrict {other : EdgeRelation} (inside : Nat → Prop)
    (kept : ∀ s label t, inside s → edge s label t → other s label t ∧ inside t)
    (start : inside source) (trace : Trace edge source word target) : Trace other source word target := by
  induction trace with
  | nil id => exact .nil id
  | step edge _ ih =>
    obtain ⟨here, next⟩ := kept _ _ _ start edge
    exact .step here (ih next)

/-- A trace cannot leave a closed set of states. -/
theorem stays (inside : Nat → Prop) (kept : ∀ s label t, inside s → edge s label t → inside t)
    (start : inside source) (trace : Trace edge source word target) : inside target := by
  induction trace with
  | nil id => exact start
  | step edge _ ih => exact ih (kept _ _ _ start edge)

theorem eq_of_sink (sink : ∀ label t, ¬ edge source label t) (trace : Trace edge source word target) :
    word = [] ∧ target = source := by
  cases trace with
  | nil _ => exact ⟨rfl, rfl⟩
  | step first _ => exact absurd first (sink _ _)

theorem eq_of_unentered (unentered : ∀ s label, ¬ edge s label target)
    (trace : Trace edge source word target) : word = [] ∧ source = target := by
  induction trace with
  | nil _ => exact ⟨rfl, rfl⟩
  | step first _ ih =>
    obtain ⟨_, rfl⟩ := ih unentered
    exact absurd first (unentered _ _)

/-- Where only one edge leaves a state, a trace from there to elsewhere begins with it. -/
theorem first_iff {next : Nat} {label : Option Symbol}
    (only : ∀ l t, edge source l t ↔ l = label ∧ t = next) (elsewhere : source ≠ target) :
    Trace edge source word target ↔ ∃ rest, word = label.toList ++ rest ∧ Trace edge next rest target := by
  constructor
  · intro trace
    cases trace with
    | nil _ => exact absurd rfl elsewhere
    | step first rest =>
      obtain ⟨rfl, rfl⟩ := (only _ _).mp first
      exact ⟨_, rfl, rest⟩
  · rintro ⟨rest, rfl, trace⟩
    exact .step ((only _ _).mpr ⟨rfl, rfl⟩) trace

/-- Where only a loop on one symbol leaves a state, traces spell this symbol any number of times. -/
theorem loop_iff {symbol : Symbol} (only : ∀ l t, edge source l t ↔ l = some symbol ∧ t = source) :
    Trace edge source word source ↔ ∀ x ∈ word, x = symbol := by
  constructor
  · have spells {start last : Nat} (trace : Trace edge start word last) (here : start = source) :
        ∀ x ∈ word, x = symbol := by
      induction trace with
      | nil _ => simp
      | step first _ ih =>
        subst here
        obtain ⟨rfl, rfl⟩ := (only _ _).mp first
        simpa using ih rfl
    exact fun trace => spells trace rfl
  · intro same
    induction word with
    | nil => exact .nil source
    | cons x rest ih =>
      obtain rfl := same x (List.mem_cons_self ..)
      exact .step ((only _ _).mpr ⟨rfl, rfl⟩) (ih fun y member => same y (List.mem_cons_of_mem _ member))

end Trace

/-- The paths of an automaton are the traces over its edges. -/
theorem Nfa.path_iff_trace {nfa : Nfa} {source target : StateId} {word : List Symbol} :
    nfa.Path source word target ↔ Trace nfa.Edge source word target := by
  constructor
  · intro path
    induction path with
    | nil id => exact .nil id
    | epsilon edge _ ih => exact .step edge ih
    | letter edge _ ih => exact .step edge ih
  · intro trace
    induction trace with
    | nil id => exact .nil id
    | @step _ _ _ label _ edge _ ih =>
      cases label with
      | none => exact .epsilon edge ih
      | some symbol => exact .letter edge ih

end PatternAutomata
