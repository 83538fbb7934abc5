import Mathlib.Data.List.Sort
import PatternAutomata.SortedMap

/-! # What a map answers, and replacing its values

Maps that answer the same are the same (`ext_get?`). Replacing values goes through when every value has a
replacement, and then each key has the replacement of its value (`mapValuesM_eq_ok`).
-/

namespace PatternAutomata.SortedMap

variable {κ ν ω ε : Type}

theorem mapEntriesM_eq_ok {f : ν → Except ε ω} {g : ν → ω} {entries : List (κ × ν)}
    (replaces : ∀ entry ∈ entries, f entry.2 = .ok (g entry.2)) :
    mapEntriesM f entries = .ok (entries.map fun entry => (entry.1, g entry.2)) := by
  induction entries with
  | nil => rfl
  | cons entry rest ih =>
    have first := replaces entry (List.mem_cons_self ..)
    have later := ih fun other member => replaces other (List.mem_cons_of_mem _ member)
    simp only [mapEntriesM, first, later, bind, Except.bind, List.map_cons]

theorem find?_map [DecidableEq κ] (g : ν → ω) (key : κ) (entries : List (κ × ν)) :
    find? key (entries.map fun entry => (entry.1, g entry.2)) = (find? key entries).map g := by
  induction entries with
  | nil => rfl
  | cons entry rest ih =>
    simp only [List.map_cons, find?, ih]
    split <;> rfl

/-- Every key gets the replacement of its value. -/
theorem mapValuesM_eq_ok [LT κ] [DecidableEq κ] {f : ν → Except ε ω} {g : ν → ω} {map : SortedMap κ ν}
    (replaces : ∀ entry ∈ map.entries, f entry.2 = .ok (g entry.2)) :
    ∃ mapped, map.mapValuesM f = .ok mapped ∧ ∀ key, mapped.get? key = (map.get? key).map g := by
  have success := mapEntriesM_eq_ok replaces
  unfold mapValuesM
  split
  · rename_i entries entriesSuccess
    obtain rfl := Except.ok.inj (entriesSuccess.symm.trans success)
    exact ⟨_, rfl, fun key => find?_map g key map.entries⟩
  · rename_i error failure
    cases failure.symm.trans success

theorem ext_get? [LT κ] [LE κ] [DecidableEq κ] [Std.LawfulOrderLT κ] [Std.IsPreorder κ]
    {first second : SortedMap κ ν} (same : ∀ key, first.get? key = second.get? key) : first = second := by
  have distinct (map : SortedMap κ ν) : map.entries.Nodup := by
    refine map.ascending.imp fun before equal => ?_
    subst equal
    exact Std.lt_irrefl before
  have perm : first.entries.Perm second.entries := by
    refine (List.perm_ext_iff_of_nodup (distinct first) (distinct second)).mpr fun entry => ?_
    rw [← get?_eq_some_iff, ← get?_eq_some_iff, same]
  have entries : first.entries = second.entries :=
    perm.eq_of_pairwise (fun _ _ _ _ before after => absurd after (Std.not_gt_of_lt before))
      first.ascending second.ascending
  cases first
  cases second
  cases entries
  rfl

end PatternAutomata.SortedMap
