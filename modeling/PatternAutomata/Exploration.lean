import PatternAutomata.State

/-! # Following edges until nothing is new

From a stack of states, `explore` takes the top one, adds to the stack those of its successors that
have not been seen, and goes on until the stack is empty. A state enters the stack at most once, so
as many steps as there are states to see are enough.
-/

namespace PatternAutomata

/-- Adds to the seen states what can be reached from those on the stack, taking at most `steps`
states from it. -/
def explore (successors : StateId → Except Fault (List StateId)) :
    (steps : Nat) → (stack : List StateId) → (seen : StateSet) → Except Fault StateSet
  | 0, _, seen => .ok seen
  | _ + 1, [], seen => .ok seen
  | steps + 1, id :: stack, seen => do
    let fresh := (← successors id).eraseDups.filter (· ∉ seen)
    explore successors steps (fresh ++ stack) (seen.insertAll fresh)

/-- What has been seen stays seen. -/
theorem mem_of_explore {successors : StateId → Except Fault (List StateId)} {steps : Nat}
    {stack : List StateId} {seen reached : StateSet}
    (success : explore successors steps stack seen = .ok reached) {id : StateId}
    (member : id ∈ seen) : id ∈ reached := by
  induction steps generalizing stack seen with
  | zero =>
    cases success
    exact member
  | succ steps ih =>
    cases stack with
    | nil =>
      cases success
      exact member
    | cons top stack =>
      simp only [explore, bind, Except.bind] at success
      split at success
      · cases success
      · exact ih success (SortedSet.mem_insertAll.mpr (.inl member))

end PatternAutomata
