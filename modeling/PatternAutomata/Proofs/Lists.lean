import Mathlib.Data.List.Forall2
import Mathlib.Data.List.Nodup

/-! # Positions in lists and replaced items

Numbering the items of a list and keeping the numbers of those that pass a test lists exactly their
positions (`mem_positions_iff`), upwards (`pairwise_positions`). Replacing every item goes through when
every item has a replacement (`mapM_eq_ok`).
-/

namespace PatternAutomata

variable {α β ε : Type}

/-- The positions of the items that pass a test, which may look at the position too. -/
def positions (test : α → Nat → Bool) (items : List α) : List Nat :=
  items.zipIdx.filterMap fun (item, position) => if test item position then some position else none

theorem mem_positions_iff {test : α → Nat → Bool} {items : List α} {position : Nat} :
    position ∈ positions test items ↔ ∃ item, items[position]? = some item ∧ test item position = true := by
  simp only [positions, List.mem_filterMap, Prod.exists, List.mem_zipIdx_iff_getElem?]
  constructor
  · rintro ⟨item, other, read, kept⟩
    split at kept
    · rename_i passes
      cases kept
      exact ⟨item, read, passes⟩
    · cases kept
  · rintro ⟨item, read, passes⟩
    exact ⟨item, position, read, if_pos passes⟩

theorem pairwise_positions (test : α → Nat → Bool) (items : List α) :
    (positions test items).Pairwise (· < ·) := by
  have numbered : (items.zipIdx.map Prod.snd).Pairwise (· < ·) := by
    rw [List.zipIdx_map_snd]
    exact List.pairwise_lt_range'
  refine List.Pairwise.filterMap _ ?_ (List.pairwise_map.mp numbered)
  rintro ⟨a, m⟩ ⟨b, n⟩ before i kept j keptToo
  simp only [Option.ite_none_right_eq_some, Option.some.injEq] at kept keptToo
  obtain ⟨-, rfl⟩ := kept
  obtain ⟨-, rfl⟩ := keptToo
  exact before

theorem nodup_positions (test : α → Nat → Bool) (items : List α) : (positions test items).Nodup :=
  (pairwise_positions test items).imp Nat.ne_of_lt

theorem idxOf?_eq_some_idxOf [DecidableEq α] {items : List α} {item : α} (member : item ∈ items) :
    items.idxOf? item = some (items.idxOf item) := by
  obtain ⟨position, found⟩ := Option.isSome_iff_exists.mp (List.isSome_idxOf?.mpr member)
  rw [List.idxOf_eq_getD_idxOf?, found, Option.getD_some]

/-- An injective map keeps the places of items. -/
theorem idxOf_map [DecidableEq α] [DecidableEq β] {f : α → β} (injective : Function.Injective f) (items : List α)
    (item : α) : (items.map f).idxOf (f item) = items.idxOf item := by
  induction items with
  | nil => rfl
  | cons first rest ih => rw [List.map_cons, List.idxOf_cons, List.idxOf_cons, injective.beq_eq, ih]

/-- An injective map keeps what occurs again. -/
theorem eraseDups_map [DecidableEq α] [DecidableEq β] {f : α → β} (injective : Function.Injective f)
    (items : List α) : (items.map f).eraseDups = items.eraseDups.map f := by
  match items with
  | [] => rfl
  | first :: rest =>
    have others : (fun other => !other == f first) ∘ f = fun other => !other == first :=
      funext fun other => congrArg not injective.beq_eq
    rw [List.map_cons, List.eraseDups_cons, List.eraseDups_cons, List.filter_map, others,
      eraseDups_map injective (rest.filter _), List.map_cons]
termination_by items.length
decreasing_by exact Nat.lt_succ_of_le (List.length_filter_le _ rest)

/-- No item before the first occurrence equals it. -/
theorem idxOf_le_of_getElem? [DecidableEq α] {items : List α} {item : α} {position : Nat}
    (read : items[position]? = some item) : items.idxOf item ≤ position := by
  obtain ⟨inside, same⟩ := List.getElem?_eq_some_iff.mp read
  by_contra before
  have differs := List.not_of_lt_findIdx (Nat.lt_of_not_le before)
  simp [same] at differs

/-- Zero comes first among ascending numbers. -/
theorem idxOf_zero {numbers : List Nat} (ascending : numbers.Pairwise (· < ·)) (member : 0 ∈ numbers) :
    numbers.idxOf 0 = 0 := by
  cases numbers with
  | nil => rfl
  | cons first rest =>
    rcases List.mem_cons.mp member with same | later
    · subst same
      exact List.idxOf_cons_self
    · exact absurd ((List.pairwise_cons.mp ascending).1 0 later) (Nat.not_lt_zero first)

theorem exists_getElem?_of_forall₂ {related : α → β → Prop} {items : List α} {results : List β}
    (all : List.Forall₂ related items results) {position : Nat} {item : α}
    (read : items[position]? = some item) :
    ∃ result, results[position]? = some result ∧ related item result := by
  induction all generalizing position with
  | nil => simp at read
  | cons here _ ih =>
    cases position with
    | zero => exact ⟨_, rfl, Option.some.inj read ▸ here⟩
    | succ position => exact ih read

theorem mapM_eq_ok {f : α → Except ε β} {related : α → β → Prop} {items : List α}
    (each : ∀ item ∈ items, ∃ result, f item = .ok result ∧ related item result) :
    ∃ results, items.mapM f = .ok results ∧ List.Forall₂ related items results := by
  induction items with
  | nil => exact ⟨[], rfl, .nil⟩
  | cons item rest ih =>
    obtain ⟨result, success, here⟩ := each item (List.mem_cons_self ..)
    obtain ⟨results, restSuccess, later⟩ := ih fun other member => each other (List.mem_cons_of_mem _ member)
    refine ⟨result :: results, ?_, .cons here later⟩
    rw [List.mapM_cons, success]
    simp only [bind, Except.bind, restSuccess]
    rfl

/-- What holds of related items and what is made of them holds of the lists. -/
theorem forall₂_zipWith {γ : Type} {related : α → β → Prop} {holds : α → γ → Prop} {make : α → β → γ}
    {items : List α} {others : List β} (all : List.Forall₂ related items others)
    (each : ∀ item other, related item other → holds item (make item other)) :
    List.Forall₂ holds items (List.zipWith make items others) := by
  induction all with
  | nil => exact .nil
  | cons here _ ih => exact .cons (each _ _ here) ih

/-- A computation that goes through goes through its first part. -/
theorem bind_eq_ok_iff {first : Except ε α} {later : α → Except ε β} {result : β} :
    first >>= later = .ok result ↔ ∃ middle, first = .ok middle ∧ later middle = .ok result := by
  cases first with
  | error cause => simp [bind, Except.bind]
  | ok middle => simp [bind, Except.bind]

theorem bind_eq_error_iff {first : Except ε α} {later : α → Except ε β} {cause : ε} :
    first >>= later = .error cause ↔
      first = .error cause ∨ ∃ middle, first = .ok middle ∧ later middle = .error cause := by
  cases first with
  | error here => simp [bind, Except.bind]
  | ok middle => simp [bind, Except.bind]

/-- Replacing the failure of a computation does not change when it goes through. -/
theorem mapError_eq_ok_iff {δ : Type} {make : ε → δ} {first : Except ε α} {result : α} :
    first.mapError make = .ok result ↔ first = .ok result := by
  cases first with
  | error cause => simp [Except.mapError]
  | ok value => simp [Except.mapError]

/-- What is made of the result of a computation can be made inside it. -/
theorem map_bind_eq {γ : Type} (first : Except ε α) (later : α → Except ε β) (make : β → γ) :
    (first >>= later).map make = first >>= fun middle => (later middle).map make := by
  cases first with
  | error cause => rfl
  | ok middle => rfl

theorem mapM_cons_eq_ok_iff {f : α → Except ε β} {item : α} {rest : List α} {results : List β} :
    (item :: rest).mapM f = .ok results ↔
      ∃ result others, f item = .ok result ∧ rest.mapM f = .ok others ∧ results = result :: others := by
  rw [List.mapM_cons, bind_eq_ok_iff]
  constructor
  · rintro ⟨result, here, success⟩
    obtain ⟨others, later, same⟩ := bind_eq_ok_iff.mp success
    exact ⟨result, others, here, later, (Except.ok.inj same).symm⟩
  · rintro ⟨result, others, here, later, rfl⟩
    exact ⟨result, here, bind_eq_ok_iff.mpr ⟨others, later, rfl⟩⟩

/-- Replacing goes through, with these results, if every item is replaced by its result. -/
theorem mapM_eq_ok_iff_forall₂ {f : α → Except ε β} {items : List α} {results : List β} :
    items.mapM f = .ok results ↔ List.Forall₂ (fun item result => f item = .ok result) items results := by
  induction items generalizing results with
  | nil =>
    rw [List.mapM_nil, List.forall₂_nil_left_iff]
    exact ⟨fun same => (Except.ok.inj same).symm, fun same => same ▸ rfl⟩
  | cons item rest ih =>
    rw [mapM_cons_eq_ok_iff]
    constructor
    · rintro ⟨result, others, here, later, rfl⟩
      exact .cons here (ih.mp later)
    · intro all
      cases all with
      | cons here later => exact ⟨_, _, here, ih.mpr later, rfl⟩

theorem foldlM_cons_eq_ok_iff {f : β → α → Except ε β} {item : α} {rest : List α} {before after : β} :
    (item :: rest).foldlM f before = .ok after ↔
      ∃ middle, f before item = .ok middle ∧ rest.foldlM f middle = .ok after := by
  rw [List.foldlM_cons, bind_eq_ok_iff]

/-- What every step keeps up, a fold that goes through keeps up. -/
theorem foldlM_invariant {f : β → α → Except ε β} {holds : β → Prop} {items : List α} {before after : β}
    (start : holds before) (success : items.foldlM f before = .ok after)
    (step : ∀ item here next, holds here → f here item = .ok next → holds next) : holds after := by
  induction items generalizing before with
  | nil => exact Except.ok.inj success ▸ start
  | cons item rest ih =>
    obtain ⟨middle, first, success⟩ := foldlM_cons_eq_ok_iff.mp success
    exact ih (step item before middle start first) success

theorem foldlM_append_eq_ok_iff {f : β → α → Except ε β} {front rest : List α} {before after : β} :
    (front ++ rest).foldlM f before = .ok after ↔
      ∃ middle, front.foldlM f before = .ok middle ∧ rest.foldlM f middle = .ok after := by
  rw [List.foldlM_append, bind_eq_ok_iff]

theorem exists_mem_of_mapM_eq_ok {f : α → Except ε β} {items : List α} {results : List β}
    (success : items.mapM f = .ok results) {result : β} (member : result ∈ results) :
    ∃ item ∈ items, f item = .ok result := by
  induction items generalizing results with
  | nil =>
    cases success
    cases member
  | cons item rest ih =>
    obtain ⟨first, others, firstSuccess, restSuccess, rfl⟩ := mapM_cons_eq_ok_iff.mp success
    rcases List.mem_cons.mp member with rfl | later
    · exact ⟨item, List.mem_cons_self .., firstSuccess⟩
    · obtain ⟨other, otherMember, same⟩ := ih restSuccess later
      exact ⟨other, List.mem_cons_of_mem _ otherMember, same⟩

/-- Replacing fails with what the first item fails with that has no replacement. -/
theorem mapM_eq_error_iff {f : α → Except ε β} {items : List α} {cause : ε} :
    items.mapM f = .error cause ↔ ∃ front item rest, items = front ++ item :: rest ∧
      (∃ results, front.mapM f = .ok results) ∧ f item = .error cause := by
  induction items with
  | nil => exact iff_of_false nofun (by simp)
  | cons first items ih =>
    rw [List.mapM_cons, bind_eq_error_iff]
    constructor
    · rintro (here | ⟨result, success, failure⟩)
      · exact ⟨[], first, items, rfl, ⟨[], rfl⟩, here⟩
      · rcases bind_eq_error_iff.mp failure with later | ⟨results, -, ends⟩
        · obtain ⟨front, item, rest, rfl, ⟨results, replaced⟩, fails⟩ := ih.mp later
          exact ⟨first :: front, item, rest, rfl,
            ⟨_, mapM_cons_eq_ok_iff.mpr ⟨result, results, success, replaced, rfl⟩⟩, fails⟩
        · cases ends
    · rintro ⟨front, item, rest, whole, ⟨results, replaced⟩, fails⟩
      cases front with
      | nil =>
        obtain ⟨rfl, rfl⟩ := List.cons.inj whole
        exact .inl fails
      | cons other front =>
        obtain ⟨rfl, rfl⟩ := List.cons.inj whole
        obtain ⟨result, others, success, replaced, -⟩ := mapM_cons_eq_ok_iff.mp replaced
        have later := ih.mpr ⟨front, item, rest, rfl, ⟨others, replaced⟩, fails⟩
        exact .inr ⟨result, success, bind_eq_error_iff.mpr (.inl later)⟩

/-- A fold that uses no more of an item than what replaces it folds the replacements. -/
theorem foldlM_map_eq {γ : Type} (f : α → Except ε β) (step : γ → β → γ) (items : List α) (start : γ) :
    items.foldlM (fun before item => (f item).map (step before)) start =
      (items.mapM f).map fun results => results.foldl step start := by
  induction items generalizing start with
  | nil => rfl
  | cons item rest ih =>
    rw [List.foldlM_cons, List.mapM_cons]
    cases f item with
    | error cause => rfl
    | ok result =>
      refine (ih (step start result)).trans ?_
      cases rest.mapM f with
      | error cause => rfl
      | ok results => rfl

end PatternAutomata
