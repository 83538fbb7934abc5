import Mathlib.Logic.Relation
import PatternAutomata.Exploration
import PatternAutomata.Proofs.SortedSet

/-! # What exploration reaches

Exploring a graph whose edges stay inside it finds exactly the states that some chain of edges leads
to from a seen state (`explore_eq_ok`). A frontier holds everything that has been seen but not
expanded yet; each step expands one of its states and moves the states that are new onto it, so the
height of the stack and the number of unseen states together fall by one.
-/

namespace PatternAutomata

theorem nodup_eraseDups {α : Type} [DecidableEq α] (items : List α) : items.eraseDups.Nodup := by
  match items with
  | [] => simp
  | a :: rest =>
    rw [List.eraseDups_cons, List.nodup_cons]
    refine ⟨?_, nodup_eraseDups _⟩
    simp
  termination_by items.length
  decreasing_by
    have := List.length_filter_le (fun b => !b == a) rest
    simp only [List.length_cons]
    omega

def Leads (successors : StateId → Except Fault (List StateId)) (source target : StateId) : Prop :=
  ∃ targets, successors source = .ok targets ∧ target ∈ targets

/-- Every state below the bound has successors, all of them below the bound. -/
def StaysBelow (bound : Nat) (successors : StateId → Except Fault (List StateId)) : Prop :=
  ∀ id < bound, ∃ targets, successors id = .ok targets ∧ ∀ target ∈ targets, target < bound

/-- What holds between two steps of an exploration: the stack has been seen, and whatever has been
seen and left the stack has its successors seen. -/
structure Frontier (successors : StateId → Except Fault (List StateId)) (bound : Nat)
    (stack : List StateId) (seen : StateSet) : Prop where
  below : ∀ id ∈ seen, id < bound
  stacked : ∀ id ∈ stack, id ∈ seen
  expanded : ∀ id ∈ seen, id ∉ stack → ∀ target, Leads successors id target → target ∈ seen

namespace Frontier

variable {successors : StateId → Except Fault (List StateId)} {bound : Nat}
  {stack : List StateId} {seen : StateSet}

/-- A frontier is one whatever the order of its stack. -/
theorem congr {other : List StateId} {reached : StateSet} (frontier : Frontier successors bound stack seen)
    (sameStack : ∀ id, id ∈ other ↔ id ∈ stack) (sameSeen : ∀ id, id ∈ reached ↔ id ∈ seen) :
    Frontier successors bound other reached := by
  obtain rfl : reached = seen := SortedSet.ext_mem sameSeen
  refine ⟨frontier.below, fun id member => frontier.stacked id ((sameStack id).mp member), ?_⟩
  exact fun id member absent => frontier.expanded id member fun stacked => absent ((sameStack id).mpr stacked)

/-- Once the stack is empty, whatever a seen state leads to has been seen. -/
theorem mem_of_reachable (frontier : Frontier successors bound [] seen) {id target : StateId}
    (member : id ∈ seen) (chain : Relation.ReflTransGen (Leads successors) id target) :
    target ∈ seen := by
  induction chain with
  | refl => exact member
  | tail _ edge ih => exact frontier.expanded _ ih List.not_mem_nil _ edge

/-- Expanding the top of the stack leaves a frontier. -/
theorem expand {top : StateId} {targets : List StateId}
    (frontier : Frontier successors bound (top :: stack) seen)
    (success : successors top = .ok targets) (inside : ∀ target ∈ targets, target < bound) :
    let fresh := targets.eraseDups.filter (· ∉ seen)
    Frontier successors bound (fresh ++ stack) (seen.insertAll fresh) := by
  intro fresh
  have mem_fresh : ∀ id, id ∈ fresh ↔ id ∈ targets ∧ id ∉ seen := by
    simp [fresh, List.mem_eraseDups]
  refine ⟨?_, ?_, ?_⟩
  · intro id member
    rcases SortedSet.mem_insertAll.mp member with old | new
    · exact frontier.below id old
    · exact inside id ((mem_fresh id).mp new).1
  · intro id member
    rw [SortedSet.mem_insertAll]
    rcases List.mem_append.mp member with new | old
    · exact .inr new
    · exact .inl (frontier.stacked id (List.mem_cons_of_mem _ old))
  · intro id member absent target edge
    simp only [List.mem_append, not_or] at absent
    have old : id ∈ seen := (SortedSet.mem_insertAll.mp member).resolve_right absent.1
    by_cases same : id = top
    · subst same
      obtain ⟨found, foundSuccess, targetFound⟩ := edge
      obtain rfl : targets = found := Except.ok.inj (success.symm.trans foundSuccess)
      by_cases known : target ∈ seen
      · exact SortedSet.mem_insertAll.mpr (.inl known)
      · exact SortedSet.mem_insertAll.mpr (.inr ((mem_fresh target).mpr ⟨targetFound, known⟩))
    · have notStacked : id ∉ top :: stack := by simp [same, absent.2]
      exact SortedSet.mem_insertAll.mpr (.inl (frontier.expanded id old notStacked target edge))

/-- A finished exploration has seen exactly what chains of edges reach. -/
theorem mem_iff (frontier : Frontier successors bound [] seen) (id : StateId) :
    id ∈ seen ↔ ∃ source ∈ seen, Relation.ReflTransGen (Leads successors) source id :=
  ⟨fun member => ⟨id, member, .refl⟩, fun ⟨_, member, chain⟩ => frontier.mem_of_reachable member chain⟩

end Frontier

variable {successors : StateId → Except Fault (List StateId)} {bound : Nat}
  {stack : List StateId} {seen : StateSet}

/-- With enough steps for the stack and for every state that may still be seen, exploration goes
through and adds exactly what can be reached. -/
theorem explore_eq_ok (stays : StaysBelow bound successors) {steps : Nat}
    (frontier : Frontier successors bound stack seen)
    (enough : stack.length + (bound - seen.size) ≤ steps) :
    ∃ reached, explore successors steps stack seen = .ok reached ∧
      (∀ id ∈ reached, id < bound) ∧
      ∀ id, id ∈ reached ↔ ∃ source ∈ seen, Relation.ReflTransGen (Leads successors) source id := by
  induction steps generalizing stack seen with
  | zero =>
    obtain rfl : stack = [] := List.eq_nil_of_length_eq_zero (by omega)
    exact ⟨seen, rfl, frontier.below, frontier.mem_iff⟩
  | succ steps ih =>
    cases stack with
    | nil => exact ⟨seen, rfl, frontier.below, frontier.mem_iff⟩
    | cons top stack =>
      have topSeen := frontier.stacked top (List.mem_cons_self ..)
      obtain ⟨targets, success, inside⟩ := stays top (frontier.below top topSeen)
      have next := frontier.expand success inside
      have fresh : ∀ id, id ∈ targets.eraseDups.filter (· ∉ seen) ↔ id ∈ targets ∧ id ∉ seen := by
        simp [List.mem_eraseDups]
      have grown : (seen.insertAll (targets.eraseDups.filter (· ∉ seen))).size = _ :=
        SortedSet.size_insertAll ((nodup_eraseDups targets).filter _) fun id member =>
          ((fresh id).mp member).2
      have limit := SortedSet.size_le_of_forall_lt next.below
      obtain ⟨reached, run, below, reaches⟩ := ih next (by
        simp only [List.length_append, List.length_cons] at enough ⊢
        omega)
      refine ⟨reached, ?_, below, fun id => (reaches id).trans ⟨?_, ?_⟩⟩
      · simp only [explore, success, bind, Except.bind]
        exact run
      · rintro ⟨source, member, chain⟩
        rcases SortedSet.mem_insertAll.mp member with old | new
        · exact ⟨source, old, chain⟩
        · exact ⟨top, topSeen, .head ⟨targets, success, ((fresh source).mp new).1⟩ chain⟩
      · rintro ⟨source, member, chain⟩
        exact ⟨source, SortedSet.mem_insertAll.mpr (.inl member), chain⟩

end PatternAutomata
