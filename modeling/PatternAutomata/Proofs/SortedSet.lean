import Mathlib.Data.List.Perm.Subperm
import PatternAutomata.SortedSet

/-! # Counting the members of a set

A set lists its members without repetition, so its size counts them: a set of numbers below a bound
has at most as many members as the bound (`size_le_of_forall_lt`), and adding new members adds their
number to the size (`size_insertAll`).
-/

namespace PatternAutomata.SortedSet

section Order

variable {α : Type} [LT α] [LE α] [Std.LawfulOrderLT α] [Std.IsLinearOrder α]

omit [Std.IsLinearOrder α] in
theorem nodup_toList [Std.IsPreorder α] (set : SortedSet α) : set.toList.Nodup :=
  set.ascending.imp fun before => Std.ne_of_lt before

omit [Std.IsLinearOrder α] in
theorem eq_empty_iff {set : SortedSet α} : set = ∅ ↔ ∀ a, a ∉ set := by
  constructor
  · rintro rfl
    exact not_mem_empty
  · intro none
    apply ext_mem
    intro a
    exact iff_of_false (none a) (not_mem_empty a)

variable [DecidableLT α]

/-- The members of an insertion are, up to order, the new member and the old ones. -/
theorem toList_insert_perm {a : α} {set : SortedSet α} (fresh : a ∉ set) :
    (set.insert a).toList.Perm (a :: set.toList) := by
  refine (List.perm_ext_iff_of_nodup (nodup_toList _) ?_).mpr fun x => ?_
  · exact List.nodup_cons.mpr ⟨fresh, set.nodup_toList⟩
  · rw [← mem_def, mem_insert, List.mem_cons, mem_def]

theorem size_insert {a : α} {set : SortedSet α} (fresh : a ∉ set) :
    (set.insert a).size = set.size + 1 :=
  (toList_insert_perm fresh).length_eq

theorem size_insertAll {set : SortedSet α} {members : List α} (distinct : members.Nodup)
    (fresh : ∀ a ∈ members, a ∉ set) : (set.insertAll members).size = set.size + members.length := by
  induction members generalizing set with
  | nil => rfl
  | cons a rest ih =>
    obtain ⟨notLater, distinctRest⟩ := List.nodup_cons.mp distinct
    have freshRest : ∀ b ∈ rest, b ∉ set.insert a := by
      intro b member
      rw [mem_insert, not_or]
      exact ⟨fun same => notLater (same ▸ member), fresh b (List.mem_cons_of_mem _ member)⟩
    have step : set.insertAll (a :: rest) = (set.insert a).insertAll rest := rfl
    rw [step, ih distinctRest freshRest, size_insert (fresh a (List.mem_cons_self ..)), List.length_cons]
    omega

theorem ofList_singleton_inj {a b : α} : ofList [a] = ofList [b] ↔ a = b := by
  constructor
  · intro same
    have member : a ∈ ofList [b] := same ▸ mem_ofList.mpr (List.mem_singleton_self a)
    exact List.mem_singleton.mp (mem_ofList.mp member)
  · rintro rfl
    rfl

end Order

theorem size_le_of_forall_lt {set : SortedSet Nat} {bound : Nat} (below : ∀ n ∈ set, n < bound) :
    set.size ≤ bound := by
  have inside : set.toList ⊆ List.range bound := fun n member => List.mem_range.mpr (below n member)
  simpa [size] using (List.subperm_of_subset set.nodup_toList inside).length_le

end PatternAutomata.SortedSet
