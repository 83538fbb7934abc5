/-! # Sets listed in ascending order

A set over a linearly ordered type is held as the list of its members in strictly ascending
order, so a set is its listing: sets with the same members are equal (`SortedSet.ext_mem`), and
whatever walks through a set walks upwards. Each operation is described by the members of its
result (`mem_insert`, `mem_ofList`, `mem_union`).
-/

namespace PatternAutomata

/-- A finite set, listed strictly upwards. -/
structure SortedSet (α : Type) [LT α] where
  toList : List α
  ascending : toList.Pairwise (· < ·)
deriving DecidableEq, Repr

namespace SortedSet

variable {α : Type} [LT α]

instance : Membership α (SortedSet α) := ⟨fun set a => a ∈ set.toList⟩

instance [DecidableEq α] (a : α) (set : SortedSet α) : Decidable (a ∈ set) :=
  inferInstanceAs (Decidable (a ∈ set.toList))

theorem mem_def {a : α} {set : SortedSet α} : a ∈ set ↔ a ∈ set.toList := Iff.rfl

def empty : SortedSet α := ⟨[], .nil⟩

instance : EmptyCollection (SortedSet α) := ⟨empty⟩

instance : Inhabited (SortedSet α) := ⟨empty⟩

@[simp] theorem toList_empty : (∅ : SortedSet α).toList = [] := rfl

@[simp] theorem not_mem_empty (a : α) : a ∉ (∅ : SortedSet α) := List.not_mem_nil

def size (set : SortedSet α) : Nat := set.toList.length

def isEmpty (set : SortedSet α) : Bool := set.toList.isEmpty

theorem isEmpty_iff {set : SortedSet α} : set.isEmpty = true ↔ set = ∅ := by
  cases set with
  | mk members ascending => cases members <;> simp [isEmpty, EmptyCollection.emptyCollection, empty]

variable [DecidableLT α]

/-- Puts a member in its place, leaving alone a list that has it. -/
def insertAscending (a : α) : List α → List α
  | [] => [a]
  | b :: rest =>
    if a < b then a :: b :: rest
    else if b < a then b :: insertAscending a rest
    else b :: rest

variable [LE α] [Std.LawfulOrderLT α] [Std.IsLinearOrder α]

theorem mem_insertAscending {a x : α} {members : List α} :
    x ∈ insertAscending a members ↔ x = a ∨ x ∈ members := by
  induction members with
  | nil => simp [insertAscending]
  | cons b rest ih =>
    simp only [insertAscending]
    split
    · simp
    · rename_i notBefore
      split
      · simp only [List.mem_cons, ih, or_left_comm]
      · rename_i notAfter
        have same : a = b := Std.Trichotomous.trichotomous a b notBefore notAfter
        simp [same]

theorem ascending_insertAscending {a : α} {members : List α}
    (ascending : members.Pairwise (· < ·)) : (insertAscending a members).Pairwise (· < ·) := by
  induction members with
  | nil => simp [insertAscending]
  | cons b rest ih =>
    have below := List.pairwise_cons.mp ascending
    simp only [insertAscending]
    split
    · rename_i first
      refine List.pairwise_cons.mpr ⟨fun x member => ?_, ascending⟩
      rcases List.mem_cons.mp member with rfl | later
      · exact first
      · exact Std.lt_trans first (below.1 x later)
    · split
      · rename_i after
        refine List.pairwise_cons.mpr ⟨fun x member => ?_, ih below.2⟩
        rcases mem_insertAscending.mp member with rfl | later
        · exact after
        · exact below.1 x later
      · exact ascending

def insert (a : α) (set : SortedSet α) : SortedSet α :=
  ⟨insertAscending a set.toList, ascending_insertAscending set.ascending⟩

@[simp] theorem mem_insert {a x : α} {set : SortedSet α} : x ∈ set.insert a ↔ x = a ∨ x ∈ set :=
  mem_insertAscending

def insertAll (set : SortedSet α) (members : List α) : SortedSet α :=
  members.foldl (fun set a => set.insert a) set

@[simp] theorem mem_insertAll {x : α} {set : SortedSet α} {members : List α} :
    x ∈ set.insertAll members ↔ x ∈ set ∨ x ∈ members := by
  induction members generalizing set with
  | nil => simp [insertAll]
  | cons a rest ih =>
    have step : set.insertAll (a :: rest) = (set.insert a).insertAll rest := rfl
    rw [step, ih, mem_insert, List.mem_cons, or_assoc, or_left_comm]

def ofList (members : List α) : SortedSet α := insertAll ∅ members

@[simp] theorem mem_ofList {x : α} {members : List α} : x ∈ ofList members ↔ x ∈ members := by
  simp [ofList]

def union (first second : SortedSet α) : SortedSet α := first.insertAll second.toList

instance : Union (SortedSet α) := ⟨union⟩

@[simp] theorem mem_union {x : α} {first second : SortedSet α} :
    x ∈ first ∪ second ↔ x ∈ first ∨ x ∈ second := mem_insertAll

omit [DecidableLT α] [Std.IsLinearOrder α] in
/-- Two ascending listings of the same members are the same listing. -/
theorem eq_of_ascending_of_mem_iff {first second : List α} (firstAscending : first.Pairwise (· < ·))
    (secondAscending : second.Pairwise (· < ·)) (same : ∀ x, x ∈ first ↔ x ∈ second) :
    first = second := by
  induction first generalizing second with
  | nil =>
    cases second with
    | nil => rfl
    | cons b rest => exact absurd ((same b).mpr (by simp)) (by simp)
  | cons a first ih =>
    cases second with
    | nil => exact absurd ((same a).mp (by simp)) (by simp)
    | cons b second =>
      have aBelow := List.pairwise_cons.mp firstAscending
      have bBelow := List.pairwise_cons.mp secondAscending
      have heads : a = b := by
        have aIn := List.mem_cons.mp ((same a).mp (by simp))
        have bIn := List.mem_cons.mp ((same b).mpr (by simp))
        rcases aIn with equal | aLater
        · exact equal
        · rcases bIn with equal | bLater
          · exact equal.symm
          · exact absurd (bBelow.1 a aLater) (Std.not_gt_of_lt (aBelow.1 b bLater))
      subst heads
      congr 1
      refine ih aBelow.2 bBelow.2 fun x => ⟨fun member => ?_, fun member => ?_⟩
      · rcases List.mem_cons.mp ((same x).mp (List.mem_cons_of_mem _ member)) with rfl | later
        · exact absurd (aBelow.1 x member) Std.lt_irrefl
        · exact later
      · rcases List.mem_cons.mp ((same x).mpr (List.mem_cons_of_mem _ member)) with rfl | later
        · exact absurd (bBelow.1 x member) Std.lt_irrefl
        · exact later

omit [DecidableLT α] [Std.IsLinearOrder α] in
/-- A set is determined by its members. -/
theorem ext_mem {first second : SortedSet α} (same : ∀ x, x ∈ first ↔ x ∈ second) :
    first = second := by
  cases first with
  | mk first firstAscending =>
    cases second with
    | mk second secondAscending =>
      simp only [mk.injEq]
      exact eq_of_ascending_of_mem_iff firstAscending secondAscending same

end SortedSet

namespace Text

/-- Shows items between braces. -/
def braced (items : List String) : String := "\x7b" ++ ", ".intercalate items ++ "\x7d"

end Text

end PatternAutomata
