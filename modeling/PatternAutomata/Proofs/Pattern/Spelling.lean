import PatternAutomata.Pattern.Token
import PatternAutomata.Proofs.Pattern.Language

/-! # The grammar of token lists

`Spelled` is the grammar of patterns over tokens: a quantifier is part of the token that it follows,
so a part of a pattern is a part of the token list. Cutting a text into tokens turns a written
pattern into a spelled one (`spelled_of_written`), and writing the tokens of a text out gives the
text again (`flatMap_text_tokenList`), so a spelled pattern is written (`Spelled.written`).
-/

namespace PatternAutomata.Pattern

def quantifierText : Option Quantifier → List Char
  | none => []
  | some quantifier => [quantifier.toChar]

def Token.text : Token → List Char
  | .symbol c quantifier => c :: quantifierText quantifier
  | .opening => ['(']
  | .closing quantifier => ')' :: quantifierText quantifier
  | .bar => ['|']
  | .stray quantifier => [quantifier.toChar]

/-- A token list that is a part of a pattern, and its structure. -/
inductive Spelled : Role → List Token → Tree → Prop
  | symbol {c : Char} (plain : IsPlain c) (quantifier : Option Quantifier) :
      Spelled .item [.symbol c quantifier] (Tree.quantified (.symbol c) quantifier)
  | group {tokens : List Token} {tree : Tree} (inner : Spelled .whole tokens tree)
      (quantifier : Option Quantifier) :
      Spelled .item (.opening :: (tokens ++ [.closing quantifier])) (tree.quantified quantifier)
  | nothing : Spelled .alternative [] .nothing
  | sequence {front tokens : List Token} {first tree : Tree}
      (before : Spelled .alternative front first) (item : Spelled .item tokens tree) :
      Spelled .alternative (front ++ tokens) (.sequence first tree)
  | single {tokens : List Token} {tree : Tree} (alternative : Spelled .alternative tokens tree) :
      Spelled .whole tokens tree
  | choice {front tokens : List Token} {first tree : Tree} (before : Spelled .whole front first)
      (alternative : Spelled .alternative tokens tree) :
      Spelled .whole (front ++ .bar :: tokens) (.choice first tree)

def leadingQuantifier? (text : List Char) : Option Quantifier := text.head?.bind Quantifier.ofChar?

def tokenList (text : List Char) : List Token := (tokensFrom 0 text).map Lexeme.token

/-- Where a text begins does not matter for its tokens. -/
theorem map_token_tokensFrom (offset : Nat) (text : List Char) :
    (tokensFrom offset text).map Lexeme.token = tokenList text := by
  have shift (first second : Nat) (text : List Char) :
      (tokensFrom first text).map Lexeme.token = (tokensFrom second text).map Lexeme.token := by
    fun_induction tokensFrom first text generalizing second with
    | case1 => simp [tokensFrom]
    | case2 => simp [tokensFrom]
    | case3 first c next rest quantifiable quantifier follows ih =>
      simp [tokensFrom, quantifiable, follows, ih (second + 2)]
    | case4 first c next rest quantifiable follows ih =>
      simp [tokensFrom, quantifiable, follows, ih (second + 1)]
    | case5 first c next rest notQuantifiable ih =>
      simp [tokensFrom, notQuantifiable, ih (second + 1)]
  exact shift offset 0 text

@[simp] theorem tokenList_nil : tokenList [] = [] := rfl

theorem tokenList_alone {c : Char} (notQuantifiable : isQuantifiable c = false) (text : List Char) :
    tokenList (c :: text) = .alone c :: tokenList text := by
  cases text with
  | nil => simp [tokenList, tokensFrom, notQuantifiable]
  | cons next rest =>
    rw [← map_token_tokensFrom 0 (c :: next :: rest)]
    simp [tokensFrom, notQuantifiable, map_token_tokensFrom]

theorem tokenList_ofChar {c : Char} (quantifiable : isQuantifiable c = true)
    (quantifier : Option Quantifier) {text : List Char}
    (last : quantifier = none → leadingQuantifier? text = none) :
    tokenList (c :: (quantifierText quantifier ++ text)) = .ofChar c quantifier :: tokenList text := by
  cases quantifier with
  | some quantifier =>
    have reads : Quantifier.ofChar? quantifier.toChar = some quantifier :=
      Quantifier.ofChar?_eq_some_iff.mpr rfl
    rw [← map_token_tokensFrom 0]
    simp [quantifierText, tokensFrom, quantifiable, reads, map_token_tokensFrom]
  | none =>
    cases text with
    | nil => simp [quantifierText, tokenList, tokensFrom, quantifiable]
    | cons next rest =>
      have follows : Quantifier.ofChar? next = none := by simpa [leadingQuantifier?] using last rfl
      rw [← map_token_tokensFrom 0]
      simp [quantifierText, tokensFrom, quantifiable, follows, map_token_tokensFrom]

theorem IsPlain.isQuantifiable {c : Char} (plain : IsPlain c) : isQuantifiable c = true := by
  obtain ⟨notOpen, -, notBar, notStar, notPlus⟩ := plain
  simp [Pattern.isQuantifiable, Quantifier.ofChar?, notOpen, notBar, notStar, notPlus]

theorem IsPlain.ofChar {c : Char} (plain : IsPlain c) (quantifier : Option Quantifier) :
    Token.ofChar c quantifier = .symbol c quantifier := by
  simp [Token.ofChar, plain.2.1]

/-- A text that begins with a written part begins with no quantifier, unless the part is empty and
what follows does. -/
theorem Written.leadingQuantifier?_append {role : Role} {text : List Char} {tree : Tree}
    (written : Written role text tree) {rest : List Char}
    (follows : role = .alternative ∨ role = .whole → leadingQuantifier? rest = none) :
    leadingQuantifier? (text ++ rest) = none := by
  induction written generalizing rest with
  | symbol plain =>
    obtain ⟨-, -, -, notStar, notPlus⟩ := plain
    simp [leadingQuantifier?, Quantifier.ofChar?, notStar, notPlus]
  | group _ _ => rfl
  | once _ ih => exact ih (by simp)
  | repeated _ quantifier ih =>
    rw [List.append_assoc]
    exact ih (by simp)
  | nothing => exact follows (.inl rfl)
  | sequence _ _ ihFront ihItem =>
    rw [List.append_assoc]
    exact ihFront fun _ => ihItem (by simp)
  | single _ ih => exact ih fun _ => follows (.inr rfl)
  | choice _ _ ihFront _ =>
    rw [List.append_assoc]
    exact ihFront fun _ => rfl

/-- Before any text that does not begin with a quantifier, a part of a pattern is cut into tokens that
spell it. An atom takes a quantifier that follows it into its last token. -/
def Tokenizes : Role → List Char → Tree → Prop
  | .atom, text, tree => ∀ quantifier rest, (quantifier = none → leadingQuantifier? rest = none) →
      ∃ tokens, Spelled .item tokens (tree.quantified quantifier) ∧
        tokenList (text ++ (quantifierText quantifier ++ rest)) = tokens ++ tokenList rest
  | role, text, tree => ∀ rest, leadingQuantifier? rest = none →
      ∃ tokens, Spelled role tokens tree ∧ tokenList (text ++ rest) = tokens ++ tokenList rest

theorem tokenizes_of_written {role : Role} {text : List Char} {tree : Tree}
    (written : Written role text tree) : Tokenizes role text tree := by
  induction written with
  | symbol plain =>
    intro quantifier rest last
    refine ⟨_, .symbol plain quantifier, ?_⟩
    simp only [List.cons_append, List.nil_append]
    rw [tokenList_ofChar plain.isQuantifiable quantifier last, plain.ofChar]
  | @group text tree _ ih =>
    intro quantifier rest last
    obtain ⟨tokens, spelled, cut⟩ := ih (')' :: (quantifierText quantifier ++ rest)) rfl
    refine ⟨_, .group spelled quantifier, ?_⟩
    have closing : Token.ofChar ')' quantifier = .closing quantifier := rfl
    have opening : Token.alone '(' = .opening := rfl
    simp only [List.cons_append, List.append_assoc, List.nil_append]
    rw [tokenList_alone rfl, opening, cut, tokenList_ofChar rfl quantifier last, closing]
  | once _ ih =>
    intro rest follows
    exact ih none rest fun _ => follows
  | @repeated text tree _ quantifier ih =>
    intro rest _
    obtain ⟨tokens, spelled, cut⟩ := ih (some quantifier) rest nofun
    refine ⟨tokens, spelled, ?_⟩
    rw [List.append_assoc]
    exact cut
  | nothing => exact fun rest _ => ⟨[], .nothing, rfl⟩
  | sequence _ written ihFront ihItem =>
    intro rest follows
    obtain ⟨tokens, spelled, cut⟩ := ihItem rest follows
    obtain ⟨front, spelledFront, cutFront⟩ := ihFront _ (written.leadingQuantifier?_append (by simp))
    refine ⟨front ++ tokens, .sequence spelledFront spelled, ?_⟩
    rw [List.append_assoc, cutFront, cut, List.append_assoc]
  | single _ ih =>
    intro rest follows
    obtain ⟨tokens, spelled, cut⟩ := ih rest follows
    exact ⟨tokens, .single spelled, cut⟩
  | @choice _ text _ _ _ _ ihFront ihText =>
    intro rest follows
    obtain ⟨tokens, spelled, cut⟩ := ihText rest follows
    obtain ⟨front, spelledFront, cutFront⟩ := ihFront ('|' :: (text ++ rest)) rfl
    refine ⟨front ++ .bar :: tokens, .choice spelledFront spelled, ?_⟩
    have bar : Token.alone '|' = .bar := rfl
    simp only [List.append_assoc, List.cons_append]
    rw [cutFront, tokenList_alone rfl, bar, cut]

/-- The tokens of a written pattern spell it. -/
theorem spelled_of_written {text : List Char} {tree : Tree} (written : Written .whole text tree) :
    Spelled .whole (tokenList text) tree := by
  obtain ⟨tokens, spelled, cut⟩ := tokenizes_of_written written [] rfl
  rw [List.append_nil, tokenList_nil, List.append_nil] at cut
  rwa [cut]

theorem text_ofChar (c : Char) (quantifier : Option Quantifier) :
    (Token.ofChar c quantifier).text = c :: quantifierText quantifier := by
  unfold Token.ofChar
  split
  · rename_i close
    subst close
    rfl
  · rfl

theorem text_alone {c : Char} (notQuantifiable : isQuantifiable c = false) :
    (Token.alone c).text = [c] := by
  unfold Token.alone
  split
  · rename_i quantifier reads
    rw [Quantifier.ofChar?_eq_some_iff.mp reads]
    rfl
  · rename_i notQuantifier
    split
    · rename_i opens
      subst opens
      rfl
    · rename_i notOpen
      have isBar : c = '|' := by simpa [isQuantifiable, notOpen, notQuantifier] using notQuantifiable
      subst isBar
      rfl

/-- Cutting a text into tokens loses nothing. -/
theorem flatMap_text_tokenList (text : List Char) : (tokenList text).flatMap Token.text = text := by
  have cut (offset : Nat) (text : List Char) :
      ((tokensFrom offset text).map Lexeme.token).flatMap Token.text = text := by
    fun_induction tokensFrom offset text with
    | case1 => rfl
    | case2 offset c =>
      cases quantifiable : isQuantifiable c with
      | true => simp [text_ofChar, quantifierText]
      | false => simp [text_alone quantifiable]
    | case3 offset c next rest quantifiable quantifier follows ih =>
      simp [text_ofChar, quantifierText, ih, Quantifier.ofChar?_eq_some_iff.mp follows]
    | case4 offset c next rest quantifiable follows ih => simp [text_ofChar, quantifierText, ih]
    | case5 offset c next rest notQuantifiable ih =>
      simp [text_alone (Bool.eq_false_iff.mpr notQuantifiable), ih]
  exact cut 0 text

theorem isPlain_of_ofChar {c x : Char} {quantifier other : Option Quantifier}
    (quantifiable : isQuantifiable c = true) (same : Token.ofChar c quantifier = .symbol x other) :
    IsPlain x := by
  unfold Token.ofChar at same
  split at same
  · cases same
  · rename_i notClose
    cases same
    simp only [isQuantifiable, Bool.and_eq_true, bne_iff_ne, ne_eq, Option.isNone_iff_eq_none] at quantifiable
    obtain ⟨⟨notOpen, notBar⟩, notQuantifier⟩ := quantifiable
    refine ⟨notOpen, notClose, notBar, ?_, ?_⟩ <;>
      · rintro rfl
        simp [Quantifier.ofChar?] at notQuantifier

theorem alone_ne_symbol (c x : Char) (quantifier : Option Quantifier) :
    Token.alone c ≠ .symbol x quantifier := by
  unfold Token.alone
  split
  · simp
  · split <;> simp

/-- The symbols among the tokens of a text are plain. -/
theorem isPlain_of_mem_tokenList {text : List Char} {c : Char} {quantifier : Option Quantifier}
    (member : .symbol c quantifier ∈ tokenList text) : IsPlain c := by
  have plain (offset : Nat) (text : List Char)
      (member : .symbol c quantifier ∈ (tokensFrom offset text).map Lexeme.token) : IsPlain c := by
    fun_induction tokensFrom offset text with
    | case1 => simp at member
    | case2 offset x =>
      have same := List.mem_singleton.mp member
      split at same
      · rename_i quantifiable
        exact isPlain_of_ofChar quantifiable same.symm
      · exact absurd same.symm (alone_ne_symbol x c quantifier)
    | case3 offset x next rest quantifiable _ follows ih =>
      rcases List.mem_cons.mp member with same | later
      · exact isPlain_of_ofChar quantifiable same.symm
      · exact ih later
    | case4 offset x next rest quantifiable follows ih =>
      rcases List.mem_cons.mp member with same | later
      · exact isPlain_of_ofChar quantifiable same.symm
      · exact ih later
    | case5 offset x next rest notQuantifiable ih =>
      rcases List.mem_cons.mp member with same | later
      · exact absurd same.symm (alone_ne_symbol x c quantifier)
      · exact ih later
  exact plain 0 text member

/-- A spelled part, written out, is a written part. -/
theorem Spelled.written {role : Role} {tokens : List Token} {tree : Tree}
    (spelled : Spelled role tokens tree) : Written role (tokens.flatMap Token.text) tree := by
  have quantified {text : List Char} {tree : Tree} (atom : Written .atom text tree)
      (quantifier : Option Quantifier) :
      Written .item (text ++ quantifierText quantifier) (tree.quantified quantifier) := by
    cases quantifier with
    | none =>
      rw [quantifierText, List.append_nil]
      exact .once atom
    | some quantifier => exact .repeated atom quantifier
  induction spelled with
  | symbol plain quantifier => simpa [Token.text] using quantified (.symbol plain) quantifier
  | group _ quantifier ih => simpa [Token.text] using quantified (.group ih) quantifier
  | nothing => exact .nothing
  | sequence _ _ ihFront ihItem =>
    rw [List.flatMap_append]
    exact .sequence ihFront ihItem
  | single _ ih => exact .single ih
  | choice _ _ ihFront ih =>
    rw [List.flatMap_append, List.flatMap_cons]
    exact .choice ihFront ih

end PatternAutomata.Pattern
