import PatternAutomata.Proofs.Pattern.Offences
import PatternAutomata.Proofs.Pattern.Recognition

/-! # Patterns fail at their first offence

Tokens are attached one by one, and a quantifier is part of the token before it. What has been read
before a token is a prefix of the pattern: it is clean, and the open groups of the builder are its
unclosed parentheses (`ReadUpTo`). A token keeps this up, or it is refused and offends at the end of the
prefix (`ReadUpTo.add`). So reading goes through where nothing offends and fails at the first offence
otherwise (`ReadUpTo.run`), and what has been taken before is always a prefix (`ReadUpTo.take`).
-/

namespace PatternAutomata.Pattern

open Builder

variable {builder : Builder} {front rest : List Char} {c : Char}

/-- The builder is what the tokens of a clean text make, and its open groups are the unclosed
parentheses of the text. -/
structure ReadUpTo (front : List Char) (builder : Builder) : Prop where
  valid : builder.WellFormed
  clean : Clean front
  opened : OpenAt front (builder.groups.map OpenGroup.openedAt)

namespace ReadUpTo

theorem start : ReadUpTo [] Builder.start where
  valid := wellFormed_start
  clean _ _ offence := absurd offence.lt (Nat.not_lt_zero _)
  opened := ⟨rfl, fun _ _ inner => absurd (List.suffix_nil.mp inner) (List.cons_ne_nil _ _)⟩

theorem symbol (read : ReadUpTo front builder) (plain : IsPlain c) (quantifier : Option Quantifier) :
    ∃ next, builder.add ⟨front.length, .symbol c quantifier⟩ = .ok next ∧
      ReadUpTo (front ++ c :: quantifierText quantifier) next := by
  obtain ⟨nfa, success, -⟩ := add_symbol read.valid.current front.length c quantifier
  refine ⟨_, success, read.valid.add success, ?_, ?_⟩
  · exact read.clean.quantifiable plain.isQuantifiable (fun closes => absurd closes plain.2.1) quantifier
  · have longer := (read.opened.other plain.1 plain.2.1).quantifier quantifier
    rwa [List.append_assoc] at longer

theorem opening (read : ReadUpTo front builder) :
    ∃ next, builder.add ⟨front.length, .opening⟩ = .ok next ∧ ReadUpTo (front ++ ['(']) next := by
  obtain ⟨nfa, success, -⟩ := add_opening read.valid.current front.length
  refine ⟨_, success, read.valid.add success, ?_, read.opened.opening⟩
  apply read.clean.snoc
  · nofun
  · rintro (_ | _) <;> nofun

theorem bar (read : ReadUpTo front builder) :
    ∃ next, builder.add ⟨front.length, .bar⟩ = .ok next ∧ ReadUpTo (front ++ ['|']) next := by
  obtain ⟨nfa, success, -⟩ := add_bar read.valid.current front.length read.valid.scope
  refine ⟨_, success, read.valid.add success, ?_, ?_⟩
  · apply read.clean.snoc
    · nofun
    · rintro (_ | _) <;> nofun
  · change OpenAt _ ((builder.withScope _).groups.map OpenGroup.openedAt)
    rw [openedAt_withScope]
    exact read.opened.other (by decide) (by decide)

/-- A closing parenthesis closes the innermost group, or offends if there is none. -/
theorem closing (read : ReadUpTo front builder) (quantifier : Option Quantifier) :
    (∃ next, builder.add ⟨front.length, .closing quantifier⟩ = .ok next ∧
      ReadUpTo (front ++ ')' :: quantifierText quantifier) next) ∨
    ∃ cause, builder.add ⟨front.length, .closing quantifier⟩ = .error (.pattern cause) ∧
      ∀ rest, Offence (front ++ ')' :: rest) front.length cause := by
  have opened := read.opened
  cases innermost : builder.groups with
  | nil =>
    rw [innermost] at opened
    refine .inr ⟨_, add_closing_of_nil innermost front.length quantifier, fun rest => ?_⟩
    exact Offence.length_iff.mpr (.inl ⟨rfl, opened.level, rfl⟩)
  | cons group groups =>
    rw [innermost] at opened
    have within := read.valid.groups group (innermost ▸ List.mem_cons_self ..)
    obtain ⟨nfa, success, -⟩ := add_closing read.valid.current front.length quantifier innermost within
    refine .inl ⟨_, success, read.valid.add success, ?_, ?_⟩
    · refine read.clean.quantifiable rfl (fun _ => ?_) quantifier
      rw [opened.level, List.map_cons, List.length_cons]
      omega
    · have longer := opened.closing.quantifier quantifier
      rwa [List.append_assoc] at longer

/-- A token is attached, or it offends at the end of what has been read. -/
theorem add (read : ReadUpTo front builder) {token : Token}
    (plain : ∀ c quantifier, token = .symbol c quantifier → IsPlain c)
    (loose : ∀ quantifier, token = .stray quantifier → Loose front) :
    (∃ next, builder.add ⟨front.length, token⟩ = .ok next ∧ ReadUpTo (front ++ token.text) next) ∨
    ∃ cause, builder.add ⟨front.length, token⟩ = .error (.pattern cause) ∧
      ∀ rest, Offence (front ++ (token.text ++ rest)) front.length cause := by
  cases token with
  | symbol c quantifier => exact .inl (read.symbol (plain c quantifier rfl) quantifier)
  | opening => exact .inl read.opening
  | bar => exact .inl read.bar
  | closing quantifier =>
    refine (read.closing quantifier).imp_right ?_
    rintro ⟨cause, failure, offends⟩
    exact ⟨cause, failure, fun rest => offends _⟩
  | stray quantifier =>
    refine .inr ⟨_, rfl, fun rest => ?_⟩
    exact Offence.length_iff.mpr (.inr ⟨quantifier, rfl, loose quantifier rfl, rfl⟩)

end ReadUpTo

theorem Loose.append {text : List Char} (loose : Loose text) (nonempty : text ≠ []) (front : List Char) :
    Loose (front ++ text) := by
  intro before last
  rw [List.getLast?_append_of_ne_nil front nonempty] at last
  exact loose before last

/-- A token is the first one of a text, before a rest that begins with a quantifier only if the token
cannot take it. -/
structure Leads (token : Token) (rest : List Char) : Prop where
  plain : ∀ c quantifier, token = .symbol c quantifier → IsPlain c
  loose : leadingQuantifier? rest ≠ none → Loose token.text

theorem leads_ofChar (quantifiable : isQuantifiable c = true) (quantifier : Option Quantifier)
    (last : quantifier = none → leadingQuantifier? rest = none) : Leads (.ofChar c quantifier) rest := by
  refine ⟨fun x other same => isPlain_of_ofChar quantifiable same, fun follows => ?_⟩
  cases quantifier with
  | none => exact absurd (last rfl) follows
  | some quantifier =>
    rw [text_ofChar]
    intro before isLast
    obtain rfl : quantifier.toChar = before := by simpa [quantifierText] using isLast
    cases quantifier <;> rfl

theorem leads_alone (notQuantifiable : isQuantifiable c = false) : Leads (.alone c) rest := by
  refine ⟨fun x other same => ?_, fun _ => ?_⟩
  · exact absurd same (alone_ne_symbol c x other)
  · rw [text_alone notQuantifiable]
    intro before isLast
    obtain rfl : c = before := by simpa using isLast
    exact notQuantifiable

/-- Cutting a text into tokens cuts off its first token and goes on where that ends. -/
theorem exists_tokensFrom_eq_cons (offset : Nat) (c : Char) (text : List Char) :
    ∃ token rest, c :: text = token.text ++ rest ∧ Leads token rest ∧
      tokensFrom offset (c :: text) = ⟨offset, token⟩ :: tokensFrom (offset + token.text.length) rest := by
  cases quantifiable : isQuantifiable c with
  | false =>
    refine ⟨.alone c, text, by rw [text_alone quantifiable]; rfl, leads_alone quantifiable, ?_⟩
    rw [text_alone quantifiable]
    cases text <;> simp [tokensFrom, quantifiable]
  | true =>
    cases follows : leadingQuantifier? text with
    | none =>
      refine ⟨.ofChar c none, text, by rw [text_ofChar]; rfl, leads_ofChar quantifiable none fun _ => follows, ?_⟩
      rw [text_ofChar]
      cases text with
      | nil => simp [tokensFrom, quantifiable]
      | cons next more =>
        have notNext : Quantifier.ofChar? next = none := by simpa [leadingQuantifier?] using follows
        simp [tokensFrom, quantifiable, notNext, quantifierText]
    | some quantifier =>
      cases text with
      | nil => cases follows
      | cons next more =>
        have isNext : Quantifier.ofChar? next = some quantifier := by simpa [leadingQuantifier?] using follows
        refine ⟨.ofChar c (some quantifier), more, ?_, leads_ofChar quantifiable _ (by simp), ?_⟩
        · rw [text_ofChar, Quantifier.ofChar?_eq_some_iff.mp isNext]
          rfl
        · rw [text_ofChar]
          simp [tokensFrom, quantifiable, isNext, quantifierText]

namespace ReadUpTo

/-- The first token of what is left is attached, or it is the first to offend. -/
theorem first (read : ReadUpTo front builder) (text : List Char)
    (loose : leadingQuantifier? (c :: text) ≠ none → Loose front) :
    ∃ token rest, c :: text = token.text ++ rest ∧ token.text ≠ [] ∧
      tokensFrom front.length (c :: text) = ⟨front.length, token⟩ :: tokensFrom (front ++ token.text).length rest ∧
      ((∃ next, builder.add ⟨front.length, token⟩ = .ok next ∧ ReadUpTo (front ++ token.text) next ∧
          (leadingQuantifier? rest ≠ none → Loose (front ++ token.text))) ∨
        ∃ cause, builder.add ⟨front.length, token⟩ = .error (.pattern cause) ∧
          FirstOffence (front ++ c :: text) front.length cause) := by
  obtain ⟨token, rest, cut, leads, tokens⟩ := exists_tokensFrom_eq_cons front.length c text
  have nonempty : token.text ≠ [] := by cases token <;> exact List.cons_ne_nil _ _
  have strayLoose (quantifier : Quantifier) (stray : token = .stray quantifier) : Loose front := by
    apply loose
    rw [cut, stray]
    cases quantifier <;> nofun
  refine ⟨token, rest, cut, nonempty, by rw [List.length_append]; exact tokens, ?_⟩
  rcases read.add leads.plain strayLoose with ⟨next, success, further⟩ | ⟨cause, failure, offends⟩
  · exact .inl ⟨next, success, further, fun follows => (leads.loose follows).append nonempty front⟩
  · refine .inr ⟨cause, failure, cut ▸ offends rest, fun earlier before other offence => ?_⟩
    exact read.clean earlier other ((Offence.append_iff before).mp offence)

/-- Where nothing offends all tokens are attached, and otherwise the first offence is reported. -/
theorem run (read : ReadUpTo front builder) (loose : leadingQuantifier? rest ≠ none → Loose front) :
    (∃ next, (tokensFrom front.length rest).foldlM Builder.add builder = .ok next ∧
      ReadUpTo (front ++ rest) next) ∨
    ∃ position cause, (tokensFrom front.length rest).foldlM Builder.add builder = .error (.pattern cause) ∧
      FirstOffence (front ++ rest) position cause := by
  -- a token takes a quantifier with it, so what is left is shorter by more than one character at times
  induction size : rest.length using Nat.strong_induction_on generalizing front rest builder with
  | _ length ih =>
    cases rest with
    | nil =>
      refine .inl ⟨builder, rfl, ?_⟩
      rwa [List.append_nil]
    | cons c text =>
      obtain ⟨token, rest, cut, nonempty, tokens, outcome⟩ := read.first text loose
      rw [tokens, List.foldlM_cons]
      rcases outcome with ⟨next, success, further, looseNext⟩ | ⟨cause, failure, first⟩
      · have shorter : rest.length < length := by
          have positive := List.length_pos_iff.mpr nonempty
          rw [← size, cut, List.length_append]
          omega
        have outcome := ih rest.length shorter further looseNext rfl
        rw [List.append_assoc, ← cut] at outcome
        simpa only [success, bind, Except.bind] using outcome
      · exact .inr ⟨front.length, cause, by simp only [failure, bind, Except.bind], first⟩

/-- Any number of tokens that are attached without an error are those of a prefix of the text. -/
theorem take {count : Nat} {next : Builder} (read : ReadUpTo front builder)
    (loose : leadingQuantifier? rest ≠ none → Loose front)
    (success : ((tokensFrom front.length rest).take count).foldlM Builder.add builder = .ok next) :
    ∃ taken left, rest = taken ++ left ∧
      ((tokensFrom front.length rest).take count).flatMap (fun lexeme => lexeme.token.text) = taken ∧
      ReadUpTo (front ++ taken) next := by
  induction count generalizing front rest builder with
  | zero =>
    obtain rfl := Except.ok.inj success
    exact ⟨[], rest, rfl, rfl, by rwa [List.append_nil]⟩
  | succ count ih =>
    cases rest with
    | nil =>
      obtain rfl := Except.ok.inj success
      exact ⟨[], [], rfl, rfl, by rwa [List.append_nil]⟩
    | cons c text =>
      obtain ⟨token, rest, cut, -, tokens, outcome⟩ := read.first text loose
      rw [tokens, List.take_succ_cons] at success ⊢
      obtain ⟨middle, attached, success⟩ := foldlM_cons_eq_ok_iff.mp success
      rcases outcome with ⟨after, same, further, looseNext⟩ | ⟨cause, failure, -⟩
      · obtain rfl := Except.ok.inj (attached.symm.trans same)
        obtain ⟨taken, left, rfl, texts, reads⟩ := ih further looseNext success
        refine ⟨token.text ++ taken, left, by rw [cut, List.append_assoc], ?_, by rwa [← List.append_assoc]⟩
        rw [List.flatMap_cons, texts]
      · cases attached.symm.trans failure

/-- Ending a text with unclosed parentheses reports the last of them. -/
theorem finish_eq_error (read : ReadUpTo front builder) (open_ : 0 < level front) :
    ∃ opened, IsGreatest {position | Unclosed front position} opened ∧
      builder.finish = .error (.pattern (.unmatchedOpen opened)) := by
  have opened := read.opened
  cases innermost : builder.groups with
  | nil =>
    rw [innermost] at opened
    rw [opened.level] at open_
    cases open_
  | cons group groups =>
    rw [innermost] at opened
    exact ⟨group.openedAt, opened.isGreatest, by simp only [finish, innermost]⟩

theorem exists_finish_eq_ok (read : ReadUpTo front builder) (closed : ¬ 0 < level front) :
    ∃ nfa, builder.finish = .ok nfa := by
  have noGroups : builder.groups = [] := by
    rw [read.opened.level, List.length_map] at closed
    apply List.length_eq_zero_iff.mp
    omega
  obtain ⟨nfa, success, -⟩ := finish_eq_ok read.valid noGroups
  exact ⟨nfa, success⟩

end ReadUpTo

theorem FirstOffence.unique {text : List Char} {position other : Nat} {cause otherCause : PatternError}
    (offence : FirstOffence text position cause) (again : FirstOffence text other otherCause) :
    cause = otherCause := by
  have same : position = other := by
    apply Nat.le_antisymm
    · exact Nat.not_lt.mp fun before => offence.first other before otherCause again.offence
    · exact Nat.not_lt.mp fun before => again.first position before cause offence.offence
  subst same
  exact offence.offence.unique again.offence

/-- A pattern with an offence fails with the first one, a clean pattern with unclosed parentheses fails
with the last of these, and every other pattern has an automaton, as those in the grammar do and only
those. -/
theorem ofPattern_reports_first_offence (pattern : String) :
    (¬ Clean pattern.toList → ∃ position cause, FirstOffence pattern.toList position cause) ∧
    (∀ position cause, FirstOffence pattern.toList position cause →
      Nfa.ofPattern pattern = .error (.pattern cause)) ∧
    (Clean pattern.toList → 0 < level pattern.toList →
      ∃ opened, IsGreatest {position | Unclosed pattern.toList position} opened ∧
        Nfa.ofPattern pattern = .error (.pattern (.unmatchedOpen opened))) ∧
    (Clean pattern.toList → ¬ 0 < level pattern.toList → ∃ nfa, Nfa.ofPattern pattern = .ok nfa) ∧
    ((∃ nfa, Nfa.ofPattern pattern = .ok nfa) ↔ ∃ tree, Written .whole pattern.toList tree) := by
  have outcome : (∃ builder, (tokens pattern.toList).foldlM Builder.add Builder.start = .ok builder ∧
      ReadUpTo pattern.toList builder) ∨
      ∃ position cause, (tokens pattern.toList).foldlM Builder.add Builder.start = .error (.pattern cause) ∧
        FirstOffence pattern.toList position cause := ReadUpTo.start.run fun _ => nofun
  have written : (∃ nfa, Nfa.ofPattern pattern = .ok nfa) ↔ ∃ tree, Written .whole pattern.toList tree := by
    constructor
    · rintro ⟨nfa, success⟩
      exact exists_written_of_ofPattern success
    · rintro ⟨tree, written⟩
      obtain ⟨nfa, success, -⟩ := ofPattern_of_written written
      exact ⟨nfa, success⟩
  rcases outcome with ⟨builder, success, read⟩ | ⟨position, cause, failure, first⟩
  · have ends : Nfa.ofPattern pattern = builder.finish := by
      simp only [Nfa.ofPattern, success, bind, Except.bind]
    refine ⟨fun offends => ?_, fun position cause first => ?_, fun _ => ?_, fun _ => ?_, written⟩
    · exact absurd read.clean offends
    · exact absurd first.offence (read.clean position cause)
    · exact ends ▸ read.finish_eq_error
    · exact ends ▸ read.exists_finish_eq_ok
  · have ends : Nfa.ofPattern pattern = .error (.pattern cause) := by
      simp only [Nfa.ofPattern, failure, bind, Except.bind]
    refine ⟨fun _ => ?_, fun other otherCause again => ?_, fun clean => ?_, fun clean => ?_, written⟩
    · exact ⟨position, cause, first⟩
    · rw [ends, first.unique again]
    · exact absurd first.offence (clean position cause)
    · exact absurd first.offence (clean position cause)

/-- A pattern with a quantifier right after a bar, before a parenthesis that closes nothing, and one with
two unclosed parentheses around a closed group. -/
theorem ofPattern_reports_first_offence_of_nested :
    FirstOffence "a(b|+)*)".toList 4 (.strayQuantifier .plus 4) ∧
      Nfa.ofPattern "a(b|+)*)" = .error (.pattern (.strayQuantifier .plus 4)) ∧
      Clean "(a(b)*(c".toList ∧ IsGreatest {position | Unclosed "(a(b)*(c".toList position} 6 ∧
      Nfa.ofPattern "(a(b)*(c" = .error (.pattern (.unmatchedOpen 6)) := by
  have stray : Nfa.ofPattern "a(b|+)*)" = .error (.pattern (.strayQuantifier .plus 4)) := rfl
  have unclosed : Nfa.ofPattern "(a(b)*(c" = .error (.pattern (.unmatchedOpen 6)) := rfl
  have first : FirstOffence "a(b|+)*)".toList 4 (.strayQuantifier .plus 4) := by
    obtain ⟨position, cause, first⟩ := (ofPattern_reports_first_offence "a(b|+)*)").1 fun clean =>
      clean 4 (.strayQuantifier .plus 4) (.stray rfl (.inr ⟨'|', by simp, rfl⟩))
    have failure := (ofPattern_reports_first_offence _).2.1 position cause first
    rw [stray] at failure
    cases failure
    obtain rfl : position = 4 := by
      cases first.offence
      rfl
    exact first
  have clean : Clean "(a(b)*(c".toList := by
    by_contra offends
    obtain ⟨position, cause, first⟩ := (ofPattern_reports_first_offence _).1 offends
    have failure := (ofPattern_reports_first_offence _).2.1 position cause first
    rw [unclosed] at failure
    cases failure
    cases first.offence
  obtain ⟨opened, greatest, failure⟩ := (ofPattern_reports_first_offence _).2.2.1 clean (by decide)
  rw [unclosed] at failure
  cases failure
  exact ⟨first, stray, clean, greatest, unclosed⟩

end PatternAutomata.Pattern
