import PatternAutomata.SortedSet

/-! # Maps listed by ascending key

A map over linearly ordered keys is held as its entries in strictly ascending order of key. It is
read through `get?`, which finds exactly the entries (`SortedMap.get?_eq_some_iff`); `get?_insert`
says what setting a key does to the answers.
-/

namespace PatternAutomata

/-- A finite map whose entries are listed by strictly ascending key. -/
structure SortedMap (κ ν : Type) [LT κ] where
  entries : List (κ × ν)
  ascending : entries.Pairwise fun a b => a.1 < b.1
deriving DecidableEq, Repr

namespace SortedMap

section Entries

variable {κ ν ω ε : Type}

def find? [DecidableEq κ] (key : κ) : List (κ × ν) → Option ν
  | [] => none
  | (k, v) :: rest => if k = key then some v else find? key rest

theorem mem_of_find? [DecidableEq κ] {key : κ} {value : ν} {entries : List (κ × ν)}
    (found : find? key entries = some value) : (key, value) ∈ entries := by
  induction entries with
  | nil => simp [find?] at found
  | cons entry rest ih =>
    obtain ⟨k, v⟩ := entry
    simp only [find?] at found
    split at found
    · rename_i same
      cases found
      simp [same]
    · exact List.mem_cons_of_mem _ (ih found)

theorem find?_eq_none [DecidableEq κ] {key : κ} {entries : List (κ × ν)} :
    find? key entries = none ↔ key ∉ entries.map (·.1) := by
  induction entries with
  | nil => simp [find?]
  | cons entry rest ih =>
    simp only [find?]
    split
    · rename_i same
      simp [same]
    · rename_i other
      simp only [ih, List.map_cons, List.mem_cons, not_or]
      exact ⟨fun absent => ⟨fun equal => other equal.symm, absent⟩, And.right⟩

/-- Replaces every value, stopping at the first failure. -/
def mapEntriesM (f : ν → Except ε ω) : List (κ × ν) → Except ε (List (κ × ω))
  | [] => .ok []
  | (k, v) :: rest => do
    let w ← f v
    let rest ← mapEntriesM f rest
    .ok ((k, w) :: rest)

theorem keys_mapEntriesM {f : ν → Except ε ω} {entries : List (κ × ν)} {mapped : List (κ × ω)}
    (success : mapEntriesM f entries = .ok mapped) : mapped.map (·.1) = entries.map (·.1) := by
  induction entries generalizing mapped with
  | nil =>
    cases success
    rfl
  | cons entry rest ih =>
    simp only [mapEntriesM, bind, Except.bind] at success
    split at success
    · cases success
    · split at success
      · cases success
      · rename_i mappedRest restSuccess
        cases success
        simp [ih restSuccess]

variable [LT κ] [DecidableLT κ]

/-- Puts an entry in its place, or over the one that has its key. -/
def insertAscending (key : κ) (value : ν) : List (κ × ν) → List (κ × ν)
  | [] => [(key, value)]
  | (k, v) :: rest =>
    if key < k then (key, value) :: (k, v) :: rest
    else if k < key then (k, v) :: insertAscending key value rest
    else (key, value) :: rest

theorem mem_of_mem_insertAscending {key : κ} {value : ν} {x : κ × ν} {entries : List (κ × ν)}
    (member : x ∈ insertAscending key value entries) : x = (key, value) ∨ x ∈ entries := by
  induction entries with
  | nil => simpa [insertAscending] using member
  | cons entry rest ih =>
    simp only [insertAscending] at member
    split at member
    · simpa using member
    · split at member
      · rcases List.mem_cons.mp member with rfl | later
        · simp
        · rcases ih later with rfl | old <;> simp_all
      · rcases List.mem_cons.mp member with rfl | later <;> simp_all

variable [LE κ] [Std.LawfulOrderLT κ] [Std.IsLinearOrder κ]

theorem ascending_insertAscending {key : κ} {value : ν} {entries : List (κ × ν)}
    (ascending : entries.Pairwise fun a b => a.1 < b.1) :
    (insertAscending key value entries).Pairwise fun a b => a.1 < b.1 := by
  induction entries with
  | nil => simp [insertAscending]
  | cons entry rest ih =>
    have below := List.pairwise_cons.mp ascending
    simp only [insertAscending]
    split
    · rename_i first
      refine List.pairwise_cons.mpr ⟨fun x member => ?_, ascending⟩
      rcases List.mem_cons.mp member with rfl | later
      · exact first
      · exact Std.lt_trans first (below.1 x later)
    · rename_i notBefore
      split
      · rename_i after
        refine List.pairwise_cons.mpr ⟨fun x member => ?_, ih below.2⟩
        rcases mem_of_mem_insertAscending member with rfl | later
        · exact after
        · exact below.1 x later
      · rename_i notAfter
        have same : entry.1 = key := Std.Trichotomous.trichotomous _ _ notAfter notBefore
        exact List.pairwise_cons.mpr ⟨fun x member => same ▸ below.1 x member, below.2⟩

omit [DecidableLT κ] [Std.IsLinearOrder κ] in
theorem find?_of_mem [DecidableEq κ] {key : κ} {value : ν} {entries : List (κ × ν)}
    (ascending : entries.Pairwise fun a b => a.1 < b.1) (member : (key, value) ∈ entries) :
    find? key entries = some value := by
  induction entries with
  | nil => simp at member
  | cons entry rest ih =>
    have below := List.pairwise_cons.mp ascending
    rcases List.mem_cons.mp member with rfl | later
    · simp [find?]
    · have before := below.1 _ later
      have other : entry.1 ≠ key := Std.ne_of_lt before
      simp only [find?, other, ↓reduceIte]
      exact ih below.2 later

theorem find?_insertAscending [DecidableEq κ] {key other : κ} {value : ν}
    {entries : List (κ × ν)} :
    find? other (insertAscending key value entries) =
      if key = other then some value else find? other entries := by
  induction entries with
  | nil => simp [insertAscending, find?]
  | cons entry rest ih =>
    obtain ⟨k, v⟩ := entry
    simp only [insertAscending]
    split
    · simp [find?]
    · rename_i notBefore
      split
      · rename_i after
        by_cases same : k = other
        · have different : ¬ key = other := fun equal => Std.ne_of_lt after (same.trans equal.symm)
          simp [find?, same, different]
        · simp [find?, same, ih]
      · rename_i notAfter
        have equal : k = key := Std.Trichotomous.trichotomous _ _ notAfter notBefore
        by_cases same : key = other
        · simp [find?, same]
        · simp [find?, same, equal]

end Entries

variable {κ ν ω ε : Type} [LT κ]

def empty : SortedMap κ ν := ⟨[], .nil⟩

instance : EmptyCollection (SortedMap κ ν) := ⟨empty⟩

instance : Inhabited (SortedMap κ ν) := ⟨empty⟩

@[simp] theorem entries_empty : (∅ : SortedMap κ ν).entries = [] := rfl

def size (map : SortedMap κ ν) : Nat := map.entries.length

def keys (map : SortedMap κ ν) : List κ := map.entries.map (·.1)

def values (map : SortedMap κ ν) : List ν := map.entries.map (·.2)

theorem keys_ascending (map : SortedMap κ ν) : map.keys.Pairwise (· < ·) :=
  List.pairwise_map.mpr map.ascending

/-- Replaces every value, by ascending key, stopping at the first failure. -/
def mapValuesM (f : ν → Except ε ω) (map : SortedMap κ ν) : Except ε (SortedMap κ ω) :=
  match success : mapEntriesM f map.entries with
  | .ok entries => .ok ⟨entries, by
      have same := keys_mapEntriesM success
      exact List.pairwise_map.mp (same ▸ map.keys_ascending)⟩
  | .error e => .error e

variable [DecidableEq κ]

def get? (map : SortedMap κ ν) (key : κ) : Option ν := find? key map.entries

@[simp] theorem get?_empty (key : κ) : (∅ : SortedMap κ ν).get? key = none := rfl

theorem get?_eq_none_iff {map : SortedMap κ ν} {key : κ} :
    map.get? key = none ↔ key ∉ map.keys := find?_eq_none

variable [DecidableLT κ] [LE κ] [Std.LawfulOrderLT κ] [Std.IsLinearOrder κ]

omit [DecidableLT κ] [Std.IsLinearOrder κ] in
/-- The answers of a map are its entries. -/
theorem get?_eq_some_iff {map : SortedMap κ ν} {key : κ} {value : ν} :
    map.get? key = some value ↔ (key, value) ∈ map.entries :=
  ⟨mem_of_find?, find?_of_mem map.ascending⟩

def insert (key : κ) (value : ν) (map : SortedMap κ ν) : SortedMap κ ν :=
  ⟨insertAscending key value map.entries, ascending_insertAscending map.ascending⟩

@[simp] theorem get?_insert {key other : κ} {value : ν} {map : SortedMap κ ν} :
    (map.insert key value).get? other = if key = other then some value else map.get? other :=
  find?_insertAscending

end SortedMap

end PatternAutomata
