/-
The words of a formula.

A text is cut into words from left to right: blanks are dropped, and the next word is the
longest one that its first character can start.  `lex` takes one word from a text without
blanks in front, and `words?` takes all of them.  A text has no words if a number in it is
none, if quoted text is left open or if a character starts no word at all.
-/
import Formula.Number.Decimal
import Formula.Proofs.Source.Pending

namespace Formula

/-- A word of a formula. -/
inductive Word where
  | number (value : Binary64)
  | text (content : String)
  | name (name : String)
  /-- A name with a bracket right after it, which begins a call. -/
  | function (name : String)
  | operator (op : Operator)
  | opening
  | closing
  | comma
  deriving DecidableEq

/-- What a text starts with. -/
inductive Lexed where
  /-- A word, with the characters that spell it and those behind it. -/
  | word (word : Word) (lexeme rest : List Char)
  /-- Nothing. -/
  | endOfText
  /-- Something that looks like a number but is none that is finite. -/
  | badNumber (literal rest : List Char)
  /-- A quote and the text up to the end, where the second quote is missing. -/
  | openText (content : List Char)
  /-- A character that starts no word. -/
  | stranger (c : Char) (rest : List Char)

/-- Takes a number from a text. -/
def lexNumber (text : List Char) : Lexed :=
  let literal := numberSpan text
  let rest := text.drop literal.length
  match Binary64.ofText? (String.ofList literal) with
  | some value => .word (.number value) literal rest
  | none => .badNumber literal rest

/-- Takes a name that starts with the character `c` from a text. -/
def lexName (c : Char) (text : List Char) : Lexed :=
  let name := c :: text.takeWhile continuesIdentifier
  match text.dropWhile continuesIdentifier with
  | '(' :: rest => .word (.function (String.ofList name)) (name ++ ['(']) rest
  | rest => .word (.name (String.ofList name)) name rest

/-- Takes quoted text from a text, behind its first quote. -/
def lexText (quote : Char) (text : List Char) : Lexed :=
  let content := text.takeWhile (· ≠ quote)
  match text.dropWhile (· ≠ quote) with
  | last :: rest => .word (.text (String.ofList content)) (quote :: content ++ [last]) rest
  | [] => .openText content

/-- Takes a word of the kind that its first character `c` starts. -/
def lexAs (c : Char) (text : List Char) : Lexeme → Lexed
  | .number => lexNumber (c :: text)
  | .identifier => lexName c text
  | .quote => lexText c text
  | .operator op => .word (.operator op) [c] text
  | .openBracket => .word .opening [c] text
  | .closeBracket => .word .closing [c] text
  | .separator => .word .comma [c] text
  | .unknown _ | .blank | .endOfText => .stranger c text

/-- Takes a word from a text that does not start with a blank. -/
def lex : List Char → Lexed
  | [] => .endOfText
  | c :: text => lexAs c text (Lexeme.starting (some c))

/-! ### What is taken from a text -/

/-- Whether a word of this kind is a value or starts one. -/
def Lexeme.startsValue : Lexeme → Bool
  | number | identifier | quote | openBracket => true
  | _ => false

/-- Whether the word is a value or starts one. -/
def Word.startsValue : Word → Bool
  | number _ | text _ | name _ | function _ | opening => true
  | operator _ | closing | comma => false

theorem numberSpan_ne_nil {c : Char} {text : List Char} (h : continuesNumber c = true) :
    numberSpan (c :: text) ≠ [] := by
  simp [numberSpan, h]

theorem continuesNumber_of_starting {c : Char} (h : Lexeme.starting (some c) = .number) :
    continuesNumber c = true := by
  unfold Lexeme.starting Lexeme.ofOther at h
  grind

theorem lexNumber_word {text lexeme rest : List Char} {w : Word}
    (h : lexNumber text = .word w lexeme rest) :
    ∃ value, Binary64.ofText? (String.ofList (numberSpan text)) = some value ∧
      w = .number value ∧ lexeme = numberSpan text ∧ text = lexeme ++ rest := by
  unfold lexNumber at h
  cases hvalue : Binary64.ofText? (String.ofList (numberSpan text)) with
  | none => simp [hvalue] at h
  | some value =>
      simp only [hvalue, Lexed.word.injEq] at h
      obtain ⟨rfl, rfl, rfl⟩ := h
      exact ⟨value, rfl, rfl, rfl, (numberSpan_append_drop _).symm⟩

theorem lexName_word {c : Char} {text lexeme rest : List Char} {w : Word}
    (h : lexName c text = .word w lexeme rest) :
    w.startsValue = true ∧ lexeme ≠ [] ∧ c :: text = lexeme ++ rest := by
  have hsplit := List.takeWhile_append_dropWhile (p := continuesIdentifier) (l := text)
  unfold lexName at h
  split at h
  · next rest' hrest =>
      simp only [Lexed.word.injEq] at h
      obtain ⟨rfl, rfl, rfl⟩ := h
      rw [hrest] at hsplit
      exact ⟨rfl, by simp, by simpa using hsplit.symm⟩
  · simp only [Lexed.word.injEq] at h
    obtain ⟨rfl, rfl, rfl⟩ := h
    exact ⟨rfl, by simp, by simp⟩

theorem lexText_word {quote : Char} {text lexeme rest : List Char} {w : Word}
    (h : lexText quote text = .word w lexeme rest) :
    w.startsValue = true ∧ lexeme ≠ [] ∧ quote :: text = lexeme ++ rest := by
  have hsplit := List.takeWhile_append_dropWhile (p := (· ≠ quote)) (l := text)
  unfold lexText at h
  split at h
  · next last rest' hrest =>
      simp only [Lexed.word.injEq] at h
      obtain ⟨rfl, rfl, rfl⟩ := h
      rw [hrest] at hsplit
      exact ⟨rfl, by simp, by simpa using hsplit.symm⟩
  · simp at h

/-- A word and what is behind it make up the text, and the first character shows whether the
word starts a value. -/
theorem lex_word {text lexeme rest : List Char} {w : Word} (h : lex text = .word w lexeme rest) :
    text = lexeme ++ rest ∧ lexeme ≠ [] ∧
      w.startsValue = (Lexeme.starting text.head?).startsValue := by
  cases text with
  | nil => simp [lex] at h
  | cons c text =>
      rw [List.head?_cons]
      rw [lex] at h
      cases hc : Lexeme.starting (some c) with
      | number =>
          rw [hc] at h
          obtain ⟨value, -, rfl, rfl, hsplit⟩ := lexNumber_word h
          exact ⟨hsplit, numberSpan_ne_nil (continuesNumber_of_starting hc), rfl⟩
      | identifier =>
          rw [hc] at h
          obtain ⟨hvalue, hne, hsplit⟩ := lexName_word h
          exact ⟨hsplit, hne, hvalue⟩
      | quote =>
          rw [hc] at h
          obtain ⟨hvalue, hne, hsplit⟩ := lexText_word h
          exact ⟨hsplit, hne, hvalue⟩
      | operator | openBracket | closeBracket | separator =>
          rw [hc] at h
          simp only [lexAs, Lexed.word.injEq] at h
          obtain ⟨rfl, rfl, rfl⟩ := h
          exact ⟨rfl, by simp, rfl⟩
      | unknown | blank | endOfText =>
          rw [hc] at h
          simp [lexAs] at h

/-- What may be taken from a text, in particular where it starts with no word. -/
inductive Taken : List Char → Lexed → Prop
  | word {text lexeme rest : List Char} {w : Word} : Taken text (.word w lexeme rest)
  | endOfText : Taken [] .endOfText
  | badNumber (text : List Char) :
      Taken text (.badNumber (numberSpan text) (text.drop (numberSpan text).length))
  | openText {quote : Char} {content : List Char} (hquote : Lexeme.starting (some quote) = .quote)
      (hopen : content.dropWhile (· ≠ quote) = []) : Taken (quote :: content) (.openText content)
  | stranger {c : Char} (hlex : ∀ text, lex (c :: text) = .stranger c text) (rest : List Char) :
      Taken (c :: rest) (.stranger c rest)

/-- Nothing else is taken. -/
theorem taken_lex (text : List Char) : Taken text (lex text) := by
  cases text with
  | nil => exact .endOfText
  | cons c text =>
      rw [lex]
      cases hc : Lexeme.starting (some c) with
      | number =>
          rw [lexAs, lexNumber]
          split
          · exact .word
          · exact .badNumber _
      | identifier =>
          rw [lexAs, lexName]
          split
          · exact .word
          · exact .word
      | quote =>
          rw [lexAs, lexText]
          split
          · exact .word
          · next hopen =>
              have hsplit := List.takeWhile_append_dropWhile (p := (· ≠ c)) (l := text)
              rw [hopen, List.append_nil] at hsplit
              rw [hsplit]
              exact .openText hc hopen
      | operator | openBracket | closeBracket | separator => exact .word
      | unknown | blank | endOfText =>
          refine .stranger (fun q => ?_) text
          rw [lex, hc]
          rfl

/-- The end of the text is where no word starts, not even a bad one. -/
theorem lex_eq_endOfText {text : List Char} (h : lex text = .endOfText) : text = [] := by
  have htaken := taken_lex text
  rw [h] at htaken
  cases htaken
  rfl

theorem lex_badNumber {text literal rest : List Char} (h : lex text = .badNumber literal rest) :
    text = literal ++ rest ∧ literal = numberSpan text := by
  have htaken := taken_lex text
  rw [h] at htaken
  cases htaken
  exact ⟨(numberSpan_append_drop text).symm, rfl⟩

theorem lex_openText {text content : List Char} (h : lex text = .openText content) :
    ∃ quote, text = quote :: content ∧ Lexeme.starting (some quote) = .quote ∧
      content.dropWhile (· ≠ quote) = [] := by
  have htaken := taken_lex text
  rw [h] at htaken
  cases htaken with
  | openText hquote hopen => exact ⟨_, rfl, hquote, hopen⟩

theorem lex_stranger {text rest : List Char} {c : Char} (h : lex text = .stranger c rest) :
    text = c :: rest ∧ ∀ q, lex (c :: q) = .stranger c q := by
  have htaken := taken_lex text
  rw [h] at htaken
  cases htaken with
  | stranger hlex => exact ⟨rfl, hlex⟩

/-! ### All words of a text -/

theorem length_rest_lt {text lexeme rest : List Char} {w : Word}
    (h : lex (text.dropWhile Text.isBlank) = .word w lexeme rest) : rest.length < text.length := by
  obtain ⟨htext, hne, -⟩ := lex_word h
  have hlexeme := List.length_pos_iff.mpr hne
  have hdrop := (List.dropWhile_suffix Text.isBlank (l := text)).length_le
  rw [htext, List.length_append] at hdrop
  omega

/-- The words of a text, if it consists of words and blanks. -/
def words? (text : List Char) : Option (List Word) :=
  match _hlex : lex (text.dropWhile Text.isBlank) with
  | .word w _ rest => (words? rest).map (w :: ·)
  | .endOfText => some []
  | .badNumber _ _ | .openText _ | .stranger _ _ => none
termination_by text.length
decreasing_by exact length_rest_lt ‹_›

theorem words?_word {text lexeme rest : List Char} {w : Word}
    (h : lex (text.dropWhile Text.isBlank) = .word w lexeme rest) :
    words? text = (words? rest).map (w :: ·) := by
  rw [words?]
  grind

theorem words?_endOfText {text : List Char}
    (h : lex (text.dropWhile Text.isBlank) = .endOfText) : words? text = some [] := by
  rw [words?]
  grind

/-- A text that starts with no word has no words. -/
theorem words?_eq_some {text : List Char} {ws : List Word} (h : words? text = some ws) :
    (ws = [] ∧ lex (text.dropWhile Text.isBlank) = .endOfText) ∨
    ∃ w lexeme rest ws', ws = w :: ws' ∧
      lex (text.dropWhile Text.isBlank) = .word w lexeme rest ∧ words? rest = some ws' := by
  rw [words?] at h
  split at h
  · next w lexeme rest hlex =>
      obtain ⟨ws', hws, rfl⟩ := Option.map_eq_some_iff.mp h
      exact .inr ⟨w, lexeme, rest, ws', rfl, hlex, hws⟩
  · next hlex =>
      obtain rfl : ws = [] := by simpa using h.symm
      exact .inl ⟨rfl, hlex⟩
  all_goals simp at h

end Formula
