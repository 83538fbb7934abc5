import Mathlib.Data.List.Induction
import PatternAutomata.Text.Line

/-! # Reading what was written as a number

A written number is read back if it is below the bound of numerals, and is too large otherwise
(`readNumeral_writeNumeral`). Digits that are read as a number are those of the written number, with any number of
zeros in front (`readNatural?_eq_some_iff_exists_zeros`).
-/

namespace PatternAutomata.Text

theorem digit?_digitChar {d : Nat} (small : d < 10) : digit? d.digitChar = some d := by
  have isDigit : d.digitChar.isDigit = true := by simp [Nat.isDigit_digitChar, small]
  have value : d.digitChar.toNat - '0'.toNat = d := Nat.toNat_digitChar_sub_48_of_lt_ten small
  rw [digit?, if_pos isDigit, value]

theorem readDigits_cons {d : Nat} (small : d < 10) (value : Nat) (rest : List Char) :
    readDigits value (d.digitChar :: rest) =
      if value * 10 + d < numeralBound then readDigits (value * 10 + d) rest else .error .tooLarge := by
  simp only [readDigits, digit?_digitChar small]

/-- Reading goes on after the digits of a number with its value, unless this is too large. -/
theorem readDigits_toDigits (n : Nat) (rest : List Char) :
    readDigits 0 (Nat.toDigits 10 n ++ rest) =
      if n < numeralBound then readDigits n rest else .error .tooLarge := by
  induction n using Nat.strongRecOn generalizing rest with
  | ind n ih =>
    by_cases small : n < 10
    · rw [Nat.toDigits_of_lt_base small, List.singleton_append, readDigits_cons small, Nat.zero_mul,
        Nat.zero_add]
    · have last : n % 10 < 10 := Nat.mod_lt n (by decide)
      have value : n / 10 * 10 + n % 10 = n := Nat.div_add_mod' n 10
      rw [Nat.toDigits_of_base_le (by decide) (Nat.le_of_not_lt small), List.append_assoc,
        List.singleton_append, ih (n / 10) (by omega), readDigits_cons last, value]
      by_cases bounded : n < numeralBound
      · rw [if_pos (Nat.lt_of_le_of_lt (Nat.div_le_self n 10) bounded)]
      · rw [if_neg bounded, ite_self]

theorem isDigit_of_mem_writeNumeral {n : Nat} {c : Char} (member : c ∈ writeNumeral n) : c.isDigit = true :=
  Nat.isDigit_of_mem_toDigits (by decide) (by decide) member

theorem writeNumeral_ne_nil (n : Nat) : writeNumeral n ≠ [] := Nat.toDigits_ne_nil

theorem readNumeral_writeNumeral (n : Nat) :
    readNumeral (writeNumeral n) = if n < numeralBound then .ok n else .error .tooLarge := by
  have noSign : (writeNumeral n).head? ≠ some '+' := by
    intro sign
    have digit := isDigit_of_mem_writeNumeral (List.mem_of_mem_head? sign)
    exact absurd digit (by decide)
  have inhabited : (writeNumeral n).isEmpty = false := List.isEmpty_eq_false_iff.mpr (writeNumeral_ne_nil n)
  have digits := readDigits_toDigits n []
  rw [List.append_nil] at digits
  simp only [readNumeral, noSign, ↓reduceIte, inhabited, Bool.false_eq_true]
  exact digits

/-- Reading goes on after the digits of a number with its value. -/
theorem foldlM_digits_toDigits (n : Nat) (rest : List Char) :
    (Nat.toDigits 10 n ++ rest).foldlM (fun value c => (digit? c).map (value * 10 + ·)) 0 =
      rest.foldlM (fun value c => (digit? c).map (value * 10 + ·)) n := by
  induction n using Nat.strongRecOn generalizing rest with
  | ind n ih =>
    by_cases small : n < 10
    · rw [Nat.toDigits_of_lt_base small, List.singleton_append, List.foldlM_cons, digit?_digitChar small,
        Nat.zero_mul]
      simp only [Option.map_some, Nat.zero_add, bind, Option.bind_some]
    · have last : n % 10 < 10 := Nat.mod_lt n (by decide)
      have value : n / 10 * 10 + n % 10 = n := Nat.div_add_mod' n 10
      rw [Nat.toDigits_of_base_le (by decide) (Nat.le_of_not_lt small), List.append_assoc,
        List.singleton_append, ih (n / 10) (by omega), List.foldlM_cons, digit?_digitChar last]
      simp only [Option.map_some, value, bind, Option.bind_some]

theorem readNatural?_writeNumeral (n : Nat) : readNatural? (writeNumeral n) = some n := by
  have inhabited : (writeNumeral n).isEmpty = false := List.isEmpty_eq_false_iff.mpr (writeNumeral_ne_nil n)
  have digits := foldlM_digits_toDigits n []
  rw [List.append_nil] at digits
  rw [readNatural?, inhabited]
  exact digits

theorem isBlank_of_isDigit {c : Char} (digit : c.isDigit = true) : isBlank c = false := by
  simp only [Char.isDigit, Bool.and_eq_true, decide_eq_true_eq, ge_iff_le, UInt32.le_iff_toNat_le] at digit
  have low : 48 ≤ c.toNat := digit.1
  have high : c.toNat ≤ 57 := digit.2
  have le_iff (a b : Char) : a ≤ b ↔ a.toNat ≤ b.toNat := Iff.rfl
  have eq_iff (a b : Char) : a = b ↔ a.toNat = b.toNat := Char.toNat_inj.symm
  rw [Bool.eq_false_iff]
  intro blank
  simp only [isBlank, Bool.or_eq_true, Bool.and_eq_true, decide_eq_true_eq, beq_iff_eq, le_iff,
    eq_iff] at blank
  simp only [Char.reduceToNat] at blank
  omega

theorem foldlM_digits_cons_eq_some_iff {c : Char} {digits : List Char} {value n : Nat} :
    (c :: digits).foldlM (fun value c => (digit? c).map (value * 10 + ·)) value = some n ↔
      ∃ d, digit? c = some d ∧
        digits.foldlM (fun value c => (digit? c).map (value * 10 + ·)) (value * 10 + d) = some n := by
  simp only [List.foldlM_cons, bind, Option.bind_eq_some_iff, Option.map_eq_some_iff]
  constructor
  · rintro ⟨_, ⟨d, digit, rfl⟩, reads⟩
    exact ⟨d, digit, reads⟩
  · rintro ⟨d, digit, reads⟩
    exact ⟨_, ⟨d, digit, rfl⟩, reads⟩

theorem readNatural?_eq_some_iff {field : List Char} {n : Nat} : readNatural? field = some n ↔
    field ≠ [] ∧ field.foldlM (fun value c => (digit? c).map (value * 10 + ·)) 0 = some n := by
  cases field with
  | nil => simp [readNatural?]
  | cons c rest => simp [readNatural?]

/-- Zeros in front of digits do not change their value. -/
theorem foldlM_digits_zeros (zeros : Nat) (digits : List Char) :
    (List.replicate zeros '0' ++ digits).foldlM (fun value c => (digit? c).map (value * 10 + ·)) 0 =
      digits.foldlM (fun value c => (digit? c).map (value * 10 + ·)) 0 := by
  induction zeros with
  | zero => rfl
  | succ zeros ih =>
    rw [List.replicate_succ, List.cons_append, List.foldlM_cons]
    exact ih

theorem eq_digitChar_of_digit? {c : Char} {d : Nat} (digit : digit? c = some d) : d < 10 ∧ c = d.digitChar := by
  unfold digit? at digit
  split at digit
  · rename_i isDigit
    obtain ⟨low, high⟩ := Char.isDigit_iff_toNat.mp isDigit
    simp only [Char.reduceToNat] at low high digit
    obtain rfl := Option.some.inj digit
    have small : c.toNat - 48 < 10 := by omega
    refine ⟨small, Char.toNat_inj.mp ?_⟩
    rw [Nat.toNat_digitChar_of_lt_ten small]
    omega
  · cases digit

/-- The digits of a number followed by another digit are those of ten times the number and the digit. -/
theorem writeNumeral_snoc {n d : Nat} (positive : 0 < n) (small : d < 10) :
    writeNumeral (n * 10 + d) = writeNumeral n ++ [d.digitChar] := by
  have quotient : (n * 10 + d) / 10 = n := by omega
  have remainder : (n * 10 + d) % 10 = d := by omega
  rw [writeNumeral, Nat.toDigits_of_base_le (by decide) (by omega), quotient, remainder, writeNumeral]

/-- Digits have a value if there are only zeros in front of those of its numeral. -/
theorem exists_zeros_of_foldlM_digits {digits : List Char} {n : Nat} (inhabited : digits ≠ [])
    (reads : digits.foldlM (fun value c => (digit? c).map (value * 10 + ·)) 0 = some n) :
    ∃ zeros, digits = List.replicate zeros '0' ++ writeNumeral n := by
  -- by induction from the last digit, since this is the one that a numeral of ten times as much adds
  induction digits using List.reverseRecOn generalizing n with
  | nil => exact absurd rfl inhabited
  | append_singleton front c ih =>
    rw [List.foldlM_append] at reads
    obtain ⟨value, earlier, last⟩ := Option.bind_eq_some_iff.mp reads
    obtain ⟨d, digit, same⟩ := foldlM_digits_cons_eq_some_iff.mp last
    obtain rfl := Option.some.inj same
    obtain ⟨small, rfl⟩ := eq_digitChar_of_digit? digit
    rcases Nat.eq_zero_or_pos value with rfl | positive
    · have single : writeNumeral (0 * 10 + d) = [d.digitChar] := by
        rw [Nat.zero_mul, Nat.zero_add, writeNumeral, Nat.toDigits_of_lt_base small]
      rw [single]
      cases front with
      | nil => exact ⟨0, rfl⟩
      | cons first rest =>
        obtain ⟨zeros, zeroFront⟩ := ih (List.cons_ne_nil first rest) earlier
        refine ⟨zeros + 1, ?_⟩
        rw [zeroFront, List.replicate_succ']
        rfl
    · have nonempty : front ≠ [] := by
        rintro rfl
        exact Nat.ne_of_lt positive (Option.some.inj earlier)
      obtain ⟨zeros, rfl⟩ := ih nonempty earlier
      exact ⟨zeros, by rw [writeNumeral_snoc positive small, List.append_assoc]⟩

/-- What is read as a number is its numeral behind any number of zeros. -/
theorem readNatural?_eq_some_iff_exists_zeros {digits : List Char} {n : Nat} :
    readNatural? digits = some n ↔ ∃ zeros, digits = List.replicate zeros '0' ++ writeNumeral n := by
  rw [readNatural?_eq_some_iff]
  constructor
  · rintro ⟨inhabited, reads⟩
    exact exists_zeros_of_foldlM_digits inhabited reads
  · rintro ⟨zeros, rfl⟩
    refine ⟨by simp [writeNumeral_ne_nil], ?_⟩
    rw [foldlM_digits_zeros]
    exact (readNatural?_eq_some_iff.mp (readNatural?_writeNumeral n)).2

end PatternAutomata.Text
