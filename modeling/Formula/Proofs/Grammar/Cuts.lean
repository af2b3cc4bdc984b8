/-
Words and the text behind them.

A word depends on the text behind it only through the first character there, and a blank, a
comma or a closing bracket never changes a word that stands in front of it.  So behind a word
a text may be replaced by any other one that starts in the same way or with such a character,
or that is empty: `lex_word_append`.  Two texts may be put together where the second one
starts so, and their words are those of the one and then those of the other: `words?_append`.
-/
import Formula.Proofs.Grammar.Words
import Formula.Proofs.Text.Classes
import Mathlib.Data.List.TakeWhile

namespace Formula

/-- Whether the character ends any word in front of it. -/
def endsWord (c : Char) : Bool := Text.isBlank c || c = ',' || c = ')'

section

variable {c : Char}

/-- A property that neither blanks nor the two marks have. -/
theorem stops_of_endsWord {p : Char → Bool} (hblank : ∀ d, Text.isBlank d = true → p d = false)
    (hcomma : p ',' = false) (hclosing : p ')' = false) (h : endsWord c = true) : p c = false := by
  simp only [endsWord, Bool.or_eq_true, decide_eq_true_eq] at h
  obtain (h | rfl) | rfl := h
  · exact hblank c h
  · exact hcomma
  · exact hclosing

theorem continuesNumber_of_endsWord : endsWord c = true → continuesNumber c = false :=
  stops_of_endsWord (fun _ h => continuesNumber_of_not_isMark (Text.isMark_of_isBlank h))
    (by decide) (by decide)

theorem continuesIdentifier_of_endsWord : endsWord c = true → continuesIdentifier c = false :=
  stops_of_endsWord (fun _ => continuesIdentifier_of_isBlank) (by decide +kernel)
    (by decide +kernel)

theorem isDigit_of_endsWord : endsWord c = true → c.isDigit = false :=
  stops_of_endsWord (fun _ h => Text.isDigit_of_not_isMark (Text.isMark_of_isBlank h))
    (by decide) (by decide)

/-- A character that does not end a word is another one. -/
theorem ne_of_endsWord {d : Char} (hd : endsWord d = false) (h : endsWord c = true) : c ≠ d := by
  rintro rfl
  rw [hd] at h
  cases h

theorem isSign_of_endsWord (h : endsWord c = true) : (c = '+' || c = '-') = false := by
  simp [ne_of_endsWord (d := '+') (by decide) h, ne_of_endsWord (d := '-') (by decide) h]

theorem isExponentMark_of_endsWord (h : endsWord c = true) : (c = 'e' || c = 'E') = false := by
  simp [ne_of_endsWord (d := 'e') (by decide) h, ne_of_endsWord (d := 'E') (by decide) h]

end

/-- The text `b` looks like the text `a` to the word in front: it starts with the same
character, or with one that ends the word, or it is empty. -/
def CutLike (a b : List Char) : Prop :=
  b.head? = a.head? ∨ ∀ c ∈ b.head?, endsWord c = true

namespace CutLike

variable {a b : List Char}

theorem refl (a : List Char) : CutLike a a := .inl rfl

/-- Behind the same text, only that text is seen. -/
theorem append (h : CutLike a b) (x : List Char) : CutLike (x ++ a) (x ++ b) := by
  cases x with
  | nil => exact h
  | cons c x => exact .inl rfl

/-- Any word ends in front of a blank. -/
theorem space (a b : List Char) : CutLike a (' ' :: b) := by
  refine .inr fun c hc => ?_
  obtain rfl := Option.mem_some_iff.mp hc
  decide

/-- A property of the first character that no character has that ends a word. -/
theorem stops {p : Char → Bool} (h : CutLike a b) (hends : ∀ c, endsWord c = true → p c = false)
    (ha : ∀ c ∈ a.head?, p c = false) : ∀ c ∈ b.head?, p c = false := by
  intro c hc
  rcases h with hsame | hcut
  · rw [hsame] at hc
    exact ha c hc
  · exact hends c (hcut c hc)

end CutLike

/-! ### The longest run of characters -/

section

variable {p : Char → Bool} {x a b : List Char}

/-- A run of characters with the property ends in front of one without it. -/
theorem cut_run (hinside : ∀ c ∈ x, p c = true) (hb : ∀ c ∈ b.head?, p c = false) :
    (x ++ b).takeWhile p = x ∧ (x ++ b).dropWhile p = b := by
  rw [List.takeWhile_append_of_pos hinside, List.dropWhile_append_of_pos hinside]
  cases b with
  | nil => simp
  | cons c b => simp [hb c rfl]

/-- All characters of a run have the property. -/
theorem takeWhile_inside (h : (x ++ a).takeWhile p = x) : ∀ c ∈ x, p c = true := by
  have hall := List.all_takeWhile (p := p) (l := x ++ a)
  rw [h, List.all_eq_true] at hall
  exact hall

/-- The character behind the longest run does not have the property. -/
theorem takeWhile_stops (h : (x ++ a).takeWhile p = x) : ∀ c ∈ a.head?, p c = false := by
  intro c hc
  obtain ⟨a', rfl⟩ := List.head?_eq_some_iff.mp hc
  rw [List.takeWhile_append_of_pos (takeWhile_inside h), List.takeWhile_cons] at h
  cases hp : p c with
  | false => rfl
  | true => simp [hp] at h

theorem takeWhile_append_eq (h : (x ++ a).takeWhile p = x) (hb : ∀ c ∈ b.head?, p c = false) :
    (x ++ b).takeWhile p = x ∧ (x ++ b).dropWhile p = b :=
  cut_run (takeWhile_inside h) hb

end

/-! ### How far a number reaches -/

/-- What is taken from a text does not change if the text behind it is replaced. -/
def IsLocal (span : List Char → List Char) : Prop :=
  ∀ x a b : List Char, CutLike a b → span (x ++ a) = x → span (x ++ b) = x

theorem isLocal_takeWhile {p : Char → Bool} (hends : ∀ c, endsWord c = true → p c = false) :
    IsLocal (List.takeWhile p) := by
  intro x a b hcut h
  exact (takeWhile_append_eq h (hcut.stops hends (takeWhile_stops h))).1

/-- Taking one thing after another. -/
theorem isLocal_seq {first second : List Char → List Char} (hfirst : IsLocal first)
    (hsecond : IsLocal second) :
    IsLocal fun text => first text ++ second (text.drop (first text).length) := by
  intro x a b hcut h
  simp only at h ⊢
  obtain ⟨y, hy⟩ : ∃ y, first (x ++ a) = y := ⟨_, rfl⟩
  rw [hy] at h
  obtain ⟨z, hz⟩ : ∃ z, second ((x ++ a).drop y.length) = z := ⟨_, rfl⟩
  rw [hz] at h
  subst h
  rw [List.append_assoc] at hy hz ⊢
  rw [List.drop_left] at hz
  rw [hfirst y _ _ (hcut.append z) hy, List.drop_left, hsecond z a b hcut hz]

theorem signSpan_eq_nil {text : List Char} :
    signSpan text = [] ↔ ∀ c ∈ text.head?, (c = '+' || c = '-') = false := by
  cases text with
  | nil => simp [signSpan]
  | cons c text => simp [signSpan]

theorem isLocal_signSpan : IsLocal signSpan := by
  intro x a b hcut h
  cases x with
  | nil =>
      rw [List.nil_append] at h ⊢
      exact signSpan_eq_nil.mpr (hcut.stops (p := fun c => c = '+' || c = '-')
        (fun _ => isSign_of_endsWord) (signSpan_eq_nil.mp h))
  | cons c x =>
      rw [List.cons_append, signSpan] at h ⊢
      exact h

theorem exponentSpan_eq_nil {text : List Char} :
    exponentSpan text = [] ↔ ∀ c ∈ text.head?, (c = 'e' || c = 'E') = false := by
  cases text with
  | nil => simp [exponentSpan]
  | cons c text => simp [exponentSpan]

theorem isLocal_exponentSpan : IsLocal exponentSpan := by
  intro x a b hcut h
  cases x with
  | nil =>
      rw [List.nil_append] at h ⊢
      exact exponentSpan_eq_nil.mpr (hcut.stops (p := fun c => c = 'e' || c = 'E')
        (fun _ => isExponentMark_of_endsWord) (exponentSpan_eq_nil.mp h))
  | cons c x =>
      rw [List.cons_append, exponentSpan] at h ⊢
      split at h
      · next hletter =>
          rw [if_pos hletter]
          obtain ⟨-, hx⟩ := List.cons.inj h
          have hdigits : IsLocal (List.takeWhile Char.isDigit) :=
            isLocal_takeWhile fun _ => isDigit_of_endsWord
          exact congrArg (c :: ·) (isLocal_seq isLocal_signSpan hdigits x a b hcut hx)
      · cases h

theorem isLocal_numberSpan : IsLocal numberSpan := by
  have hseq : numberSpan = fun text => text.takeWhile continuesNumber ++
      exponentSpan (text.drop (text.takeWhile continuesNumber).length) := by
    funext text
    rw [numberSpan, drop_length_takeWhile]
  have hmantissa : IsLocal (List.takeWhile continuesNumber) :=
    isLocal_takeWhile fun _ => continuesNumber_of_endsWord
  rw [hseq]
  exact isLocal_seq hmantissa isLocal_exponentSpan

/-! ### Words -/

theorem lexNumber_append {lexeme a b : List Char} {w : Word}
    (h : lexNumber (lexeme ++ a) = .word w lexeme a) (hcut : CutLike a b) :
    lexNumber (lexeme ++ b) = .word w lexeme b := by
  obtain ⟨value, hvalue, rfl, hspan, -⟩ := lexNumber_word h
  have hnew := isLocal_numberSpan lexeme a b hcut hspan.symm
  rw [← hspan] at hvalue
  unfold lexNumber
  simp only [hnew, hvalue, List.drop_left]

theorem lexName_append {c : Char} {name a b : List Char} {w : Word}
    (h : lexName c (name ++ a) = .word w (c :: name) a) (hcut : CutLike a b) :
    lexName c (name ++ b) = .word w (c :: name) b := by
  obtain ⟨run, hrun⟩ : ∃ run, (name ++ a).takeWhile continuesIdentifier = run := ⟨_, rfl⟩
  unfold lexName at h
  rw [hrun] at h
  split at h
  · -- The name is followed by a bracket, which belongs to the word.
    simp only [Lexed.word.injEq, List.cons_append, List.cons.injEq, true_and] at h
    obtain ⟨rfl, rfl, -⟩ := h
    rw [List.append_assoc] at hrun ⊢
    have hstops := takeWhile_stops hrun
    obtain ⟨htake, hdrop⟩ := takeWhile_append_eq (b := ['('] ++ b) hrun hstops
    unfold lexName
    simp only [htake, hdrop]
    rfl
  · next hbracket =>
      simp only [Lexed.word.injEq, List.cons.injEq, true_and] at h
      obtain ⟨rfl, rfl, -⟩ := h
      have hdrop := (takeWhile_append_eq hrun (takeWhile_stops hrun)).2
      rw [hdrop] at hbracket
      obtain ⟨htake, hdrop⟩ := takeWhile_append_eq hrun
        (hcut.stops (fun _ => continuesIdentifier_of_endsWord) (takeWhile_stops hrun))
      unfold lexName
      simp only [htake, hdrop]
      split
      · next rest =>
          rcases hcut with hsame | hcut
          · obtain ⟨a', rfl⟩ := List.head?_eq_some_iff.mp hsame.symm
            exact absurd rfl (hbracket a')
          · exact absurd (hcut '(' rfl) (by decide)
      · rfl

theorem lexText_append {quote : Char} {content a b : List Char} {w : Word}
    (h : lexText quote (content ++ a) = .word w (quote :: content) a) :
    lexText quote (content ++ b) = .word w (quote :: content) b := by
  obtain ⟨run, hrun⟩ : ∃ run, (content ++ a).takeWhile (· ≠ quote) = run := ⟨_, rfl⟩
  unfold lexText at h
  rw [hrun] at h
  split at h
  · next last rest _ =>
      simp only [Lexed.word.injEq, List.cons_append, List.cons.injEq, true_and] at h
      obtain ⟨rfl, rfl, -⟩ := h
      rw [List.append_assoc] at hrun ⊢
      have hstops := takeWhile_stops hrun
      obtain ⟨htake, hdrop⟩ := takeWhile_append_eq (b := [last] ++ b) hrun hstops
      unfold lexText
      simp only [htake, hdrop]
      rfl
  · cases h

/-- **A word stays what it is** if the text behind it is replaced by one that starts in the
same way, or with a character that ends any word. -/
theorem lex_word_append {lexeme a b : List Char} {w : Word}
    (h : lex (lexeme ++ a) = .word w lexeme a) (hcut : CutLike a b) :
    lex (lexeme ++ b) = .word w lexeme b := by
  obtain ⟨-, hne, -⟩ := lex_word h
  obtain ⟨c, lexeme, rfl⟩ := List.exists_cons_of_ne_nil hne
  rw [List.cons_append, lex] at h ⊢
  cases hc : Lexeme.starting (some c) with
  | number =>
      rw [hc, lexAs, ← List.cons_append] at h
      rw [lexAs, ← List.cons_append]
      exact lexNumber_append h hcut
  | identifier =>
      rw [hc, lexAs] at h
      rw [lexAs]
      exact lexName_append h hcut
  | quote =>
      rw [hc, lexAs] at h
      rw [lexAs]
      exact lexText_append h
  | operator | openBracket | closeBracket | separator =>
      rw [hc] at h
      simp only [lexAs, Lexed.word.injEq] at h ⊢
      obtain ⟨hw, hlexeme, -⟩ := h
      obtain rfl : lexeme = [] := by simpa using hlexeme
      exact ⟨hw, rfl, rfl⟩
  | unknown | blank | endOfText =>
      rw [hc] at h
      cases h

/-! ### The words of a text -/

/-- Blanks in front of a text make no difference. -/
theorem words?_blanks {blanks : List Char} (h : ∀ c ∈ blanks, Text.isBlank c = true)
    (text : List Char) : words? (blanks ++ text) = words? text := by
  have hdrop : (blanks ++ text).dropWhile Text.isBlank = text.dropWhile Text.isBlank :=
    List.dropWhile_append_of_pos h
  rw [words?, words?]
  grind

theorem words?_blank {c : Char} (h : Text.isBlank c = true) (text : List Char) :
    words? (c :: text) = words? text := by
  have hblanks : ∀ d ∈ [c], Text.isBlank d = true := by simpa using h
  exact words?_blanks hblanks text

/-- No word starts with a blank. -/
theorem dropWhile_word {lexeme rest : List Char} {w : Word}
    (h : lex (lexeme ++ rest) = .word w lexeme rest) :
    (lexeme ++ rest).dropWhile Text.isBlank = lexeme ++ rest := by
  obtain ⟨-, hne, -⟩ := lex_word h
  obtain ⟨c, lexeme, rfl⟩ := List.exists_cons_of_ne_nil hne
  refine List.dropWhile_cons_of_neg fun hblank => ?_
  rw [List.cons_append, lex, starting_of_isBlank hblank] at h
  cases h

/-- **Words are split** in front of a character that ends any word, and at the end. -/
theorem words?_append {a b : List Char} {ws : List Word} (h : words? a = some ws)
    (hb : ∀ c ∈ b.head?, endsWord c = true) : words? (a ++ b) = (words? b).map (ws ++ ·) := by
  induction ws generalizing a with
  | nil =>
      obtain ⟨-, hlex⟩ | ⟨w, lexeme, rest, vs, hnil, -, -⟩ := words?_eq_some h
      · have hblanks := List.dropWhile_eq_nil_iff.mp (lex_eq_endOfText hlex)
        rw [words?_blanks hblanks]
        simp
      · cases hnil
  | cons w ws ih =>
      obtain ⟨hnil, -⟩ | ⟨v, lexeme, rest, vs, hcons, hlex, hrest⟩ := words?_eq_some h
      · cases hnil
      · obtain ⟨rfl, rfl⟩ := List.cons.inj hcons
        obtain ⟨htext, hne, -⟩ := lex_word hlex
        have hdrop : (a ++ b).dropWhile Text.isBlank = lexeme ++ (rest ++ b) := by
          rw [List.dropWhile_append, htext, if_neg (by simp [hne]), List.append_assoc]
        have hcut : CutLike rest (rest ++ b) := by
          cases rest with
          | nil => exact .inr hb
          | cons c rest => exact .inl rfl
        rw [htext] at hlex
        have hlex' := lex_word_append hlex hcut
        rw [← hdrop] at hlex'
        rw [words?_word hlex', ih hrest, Option.map_map]
        rfl

end Formula
