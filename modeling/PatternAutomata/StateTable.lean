import PatternAutomata.State

/-! # Tables with one record per state

What is known about each state of an automaton is held in an array that the states index. Reading
or changing the record of a state beyond the table is a fault; otherwise `getElem?_update` says what a
change does to each of them.
-/

namespace PatternAutomata

/-- One record per state. -/
abbrev StateTable (α : Type) := Array α

namespace StateTable

variable {α : Type}

def read (table : StateTable α) (id : StateId) : Except Fault α :=
  match table[id]? with
  | some record => .ok record
  | none => .error (.noSuchState table.size id)

theorem read_eq_ok_iff {table : StateTable α} {id : StateId} {record : α} :
    read table id = .ok record ↔ table[id]? = some record := by
  unfold read
  split <;> simp_all

theorem read_of_lt {table : StateTable α} {id : StateId} (owned : id < table.size) :
    read table id = .ok table[id] :=
  read_eq_ok_iff.mpr (Array.getElem?_eq_getElem owned)

def update (table : StateTable α) (id : StateId) (change : α → α) : Except Fault (StateTable α) :=
  if h : id < table.size then .ok (table.set id (change table[id]))
  else .error (.noSuchState table.size id)

theorem update_eq_ok_iff {table updated : StateTable α} {id : StateId} {change : α → α} :
    update table id change = .ok updated ↔
      ∃ h : id < table.size, updated = table.set id (change table[id]) := by
  unfold update
  split
  · rename_i owned
    simp [owned, eq_comm]
  · rename_i foreign
    simp [foreign]

theorem size_update {table updated : StateTable α} {id : StateId} {change : α → α}
    (success : update table id change = .ok updated) : updated.size = table.size := by
  obtain ⟨_, rfl⟩ := update_eq_ok_iff.mp success
  simp

/-- Only the named record changes. -/
theorem getElem?_update {table updated : StateTable α} {id : StateId} {change : α → α}
    (success : update table id change = .ok updated) (other : StateId) :
    updated[other]? = (table[other]?).map fun record => if other = id then change record else record := by
  obtain ⟨owned, rfl⟩ := update_eq_ok_iff.mp success
  by_cases same : other = id
  · subst same
    simp [Array.getElem?_eq_getElem owned]
  · simpa [same] using Array.getElem?_set_ne owned (Ne.symm same)

theorem update_of_le {table : StateTable α} {id : StateId} (foreign : table.size ≤ id) (change : α → α) :
    update table id change = .error (.noSuchState table.size id) :=
  dif_neg (Nat.not_lt_of_le foreign)

end StateTable

end PatternAutomata
