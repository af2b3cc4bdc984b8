/-
Texts that can still become sentences.

What has been read of a text stays the same whatever comes behind it, as long as the last
word is not made longer: `Leads.replace`.  From every stage there is a way to the end, so the
text before it is the beginning of a sentence, `viable_before`; a blank in between keeps the
words apart.
-/
import Formula.Proofs.Grammar.Cuts
import Formula.Proofs.Reading.Stage

namespace Formula

/-- Some text behind it makes the text a sentence. -/
def Viable (text : List Char) : Prop :=
  ∃ behind ws f, words? (text ++ behind) = some ws ∧ Grammar.Sentence ws f

namespace Stage

/-- The stage with another text behind the blanks. -/
def replace (s : Stage) (text : List Char) : Stage :=
  { s with rest := s.rest.takeWhile Text.isBlank ++ text }

variable {limits : Limits} {s t : Stage}

/-- The text behind the blanks does not start with a blank. -/
theorem isBlank_text (s : Stage) : ∀ c ∈ s.text.head?, Text.isBlank c = false := by
  have hall : (s.rest.takeWhile Text.isBlank ++ s.rest.dropWhile Text.isBlank).takeWhile
      Text.isBlank = s.rest.takeWhile Text.isBlank := by
    rw [List.takeWhile_append_dropWhile]
  exact takeWhile_stops hall

theorem takeWhile_replace (s : Stage) {text : List Char}
    (htext : ∀ c ∈ text.head?, Text.isBlank c = false) :
    (s.replace text).rest.takeWhile Text.isBlank = s.rest.takeWhile Text.isBlank ∧
      (s.replace text).text = text := by
  have hall : (s.rest.takeWhile Text.isBlank ++ s.rest.dropWhile Text.isBlank).takeWhile
      Text.isBlank = s.rest.takeWhile Text.isBlank := by
    rw [List.takeWhile_append_dropWhile]
  exact takeWhile_append_eq hall htext

theorem text_replace (s : Stage) {text : List Char}
    (htext : ∀ c ∈ text.head?, Text.isBlank c = false) : (s.replace text).text = text :=
  (s.takeWhile_replace htext).2

theorem before_replace (s : Stage) {text : List Char}
    (htext : ∀ c ∈ text.head?, Text.isBlank c = false) : (s.replace text).before = s.before := by
  rw [before, (s.takeWhile_replace htext).1]
  rfl

/-- A stage and the text in front of it make up the whole text. -/
theorem before_append_text (s : Stage) : s.before ++ s.text = s.passed ++ s.rest := by
  rw [before, text, List.append_assoc, List.takeWhile_append_dropWhile]

theorem replace_text (s : Stage) : s.replace s.text = s := by
  rw [replace, text, List.takeWhile_append_dropWhile]

/-- What looks alike behind the blanks looks alike in front of them. -/
theorem cutLike_replace (s : Stage) {q : List Char} (h : CutLike s.text q) :
    CutLike s.rest (s.replace q).rest := by
  have happend := h.append (s.rest.takeWhile Text.isBlank)
  rw [text, List.takeWhile_append_dropWhile] at happend
  exact happend

/-- A word is taken in the same way from a text that starts with it and goes on alike. -/
theorem Step.replace {w : Word} (h : s.Step limits w t) {b : List Char} (hcut : CutLike t.rest b) :
    ∃ x, s.rest = x ++ t.rest ∧ t.passed = s.passed ++ x ∧
      Step limits { s with rest := x ++ b } w { t with rest := b } := by
  obtain ⟨lexeme, hlex, hpassed⟩ := h.lexes
  obtain ⟨htext, hne, -⟩ := lex_word hlex
  have hhead : ∀ c ∈ (lexeme ++ b).head?, Text.isBlank c = false := by
    have hblank := s.isBlank_text
    obtain ⟨c, lexeme, rfl⟩ := List.exists_cons_of_ne_nil hne
    rw [htext] at hblank
    exact hblank
  have hrest : s.rest = s.rest.takeWhile Text.isBlank ++ (lexeme ++ t.rest) := by
    rw [← htext, text, List.takeWhile_append_dropWhile]
  rw [htext] at hlex
  refine ⟨s.rest.takeWhile Text.isBlank ++ lexeme, ?_, ?_, ?_⟩
  · rw [List.append_assoc]
    exact hrest
  · rw [hpassed, before, List.append_assoc]
  · rw [List.append_assoc]
    refine ⟨⟨lexeme, ?_, ?_⟩, h.feeds, h.admitted⟩
    · rw [show text { s with rest := s.rest.takeWhile Text.isBlank ++ (lexeme ++ b) } = lexeme ++ b
        from s.text_replace hhead]
      exact lex_word_append hlex hcut
    · rw [show before { s with rest := s.rest.takeWhile Text.isBlank ++ (lexeme ++ b) } = s.before
        from s.before_replace hhead]
      exact hpassed

/-- **What has been read stays the same** whatever comes behind it. -/
theorem Leads.replace {ws : List Word} (h : Leads limits s ws t) {b : List Char}
    (hcut : CutLike t.rest b) :
    ∃ x, s.rest = x ++ t.rest ∧ t.passed = s.passed ++ x ∧
      Leads limits { s with rest := x ++ b } ws { t with rest := b } := by
  induction h with
  | nil s => exact ⟨[], rfl, (List.append_nil _).symm, .nil _⟩
  | @cons s t u w ws hstep _ ih =>
      obtain ⟨y, hy, hpassed, hleads⟩ := ih hcut
      have hcut' : CutLike t.rest (y ++ b) := by
        rw [hy]
        exact hcut.append y
      obtain ⟨x, hx, hpassed', hstep'⟩ := hstep.replace hcut'
      refine ⟨x ++ y, ?_, ?_, ?_⟩
      · rw [hx, hy, List.append_assoc]
      · rw [hpassed, hpassed', List.append_assoc]
      · rw [List.append_assoc]
        exact .cons hstep' hleads

/-- The text in front of a stage leads to the stage whatever comes behind, as long as that looks
alike to the words in front. -/
theorem Leads.replace_text {text q : List Char} {ws : List Word}
    (h : Leads limits (start text) ws t) (hcut : CutLike t.text q) :
    Leads limits (start (t.before ++ q)) ws (t.replace q) := by
  obtain ⟨x, -, hpassed, hreplaced⟩ := h.replace (t.cutLike_replace hcut)
  have hx : t.passed = x := hpassed
  rw [before, hx, List.append_assoc]
  exact hreplaced

end Stage

/-! ### Words that complete a text -/

theorem words?_closings (n : Nat) :
    words? (List.replicate n ')') = some (List.replicate n .closing) := by
  induction n with
  | zero => exact words?_endOfText rfl
  | succ n ih =>
      have hlex : lex ((List.replicate (n + 1) ')').dropWhile Text.isBlank) =
          .word .closing [')'] (List.replicate n ')') := rfl
      rw [words?_word hlex, ih]
      rfl

/-- The text of the words that complete a configuration. -/
def closingText (c : Config) (n : Nat) : List Char :=
  ' ' :: ((if c.operand.isNone then ['x'] else []) ++ ' ' :: List.replicate n ')')

theorem words?_closingText (c : Config) (n : Nat) : words? (closingText c n) =
    some ((if c.operand.isNone then [.name "x"] else []) ++ List.replicate n .closing) := by
  have hclosings : words? (' ' :: List.replicate n ')') = some (List.replicate n .closing) :=
    (words?_blank (by decide) _).trans (words?_closings n)
  rw [closingText, words?_blank (by decide)]
  by_cases hoperand : c.operand.isNone
  · have hname : Lexeme.starting (some 'x') = .identifier := by decide +kernel
    have hfirst : lex (['x'] ++ []) = .word (.name "x") ['x'] [] := by
      rw [List.append_nil, lex, hname]
      rfl
    have hlex : lex (('x' :: ' ' :: List.replicate n ')').dropWhile Text.isBlank) =
        .word (.name "x") ['x'] (' ' :: List.replicate n ')') := by
      rw [List.dropWhile_cons_of_neg (by decide)]
      exact lex_word_append hfirst (.space _ _)
    rw [if_pos hoperand, if_pos hoperand, List.singleton_append, words?_word hlex, hclosings]
    rfl
  · rw [if_neg hoperand, if_neg hoperand]
    exact hclosings

/-- Words that go on from a stage to the end make a sentence together with those before. -/
theorem sentence_of_feeds {limits : Limits} {c d : Config} {ws vs : List Word} {f : Option Expr}
    (htakes : Takes limits Config.start ws c) (hfeeds : Feeds c vs d)
    (hfinish : d.finish = .ok f) : Grammar.Sentence (ws ++ vs) f := by
  have hlayered := Config.finish_layered
    (hfeeds.ordered (htakes.ordered Config.start_ordered)) hfinish
  have hwords := Config.finish_words hfinish
  rw [hfeeds.words, htakes.words] at hwords
  exact Grammar.sentence_iff.mpr ⟨hlayered, hwords.symm⟩

section

variable {limits : Limits} {source : List Char} {ws : List Word} {t : Stage}

/-- What has been passed and what is left make up the text. -/
theorem passed_append_rest (h : Stage.Leads limits (Stage.start source) ws t) :
    t.passed ++ t.rest = source := by
  obtain ⟨x, hx, hpassed, -⟩ := h.replace (.refl t.rest)
  have hpassed' : t.passed = x := hpassed
  rw [hpassed']
  exact hx.symm

/-- A text in front of words that go on from a stage to the end. -/
theorem viable_of_feeds (h : Stage.Leads limits (Stage.start source) ws t) {b : List Char}
    {vs : List Word} {d : Config} {f : Option Expr} (hcut : CutLike t.rest b)
    (hwords : words? b = some vs) (hfeeds : Feeds t.config vs d) (hfinish : d.finish = .ok f) :
    words? (t.passed ++ b) = some (ws ++ vs) ∧ Grammar.Sentence (ws ++ vs) f := by
  obtain ⟨x, -, hpassed, hleads⟩ := h.replace hcut
  have hpassed' : t.passed = x := hpassed
  have hall := hleads.words?
  rw [show Formula.words? b = some vs from hwords] at hall
  rw [hpassed']
  exact ⟨hall, sentence_of_feeds h.takes hfeeds hfinish⟩

/-- **The text before a stage is the beginning of a sentence.** -/
theorem viable_before (h : Stage.Leads limits (Stage.start source) ws t) : Viable t.before := by
  obtain ⟨n, d, f, hfeeds, hfinish⟩ := completes t.config "x"
  have hcut : CutLike t.rest (t.rest.takeWhile Text.isBlank ++ closingText t.config n) :=
    t.cutLike_replace (.space _ _)
  have hwords : words? (t.rest.takeWhile Text.isBlank ++ closingText t.config n) = _ :=
    (words?_blanks (List.all_eq_true.mp List.all_takeWhile) _).trans (words?_closingText t.config n)
  obtain ⟨hall, hsentence⟩ := viable_of_feeds h hcut hwords hfeeds hfinish
  refine ⟨closingText t.config n, _, f, ?_, hsentence⟩
  rw [Stage.before, List.append_assoc]
  exact hall

/-- Quoted text that is left open can be closed. -/
theorem viable_openText (h : Stage.Leads limits (Stage.start source) ws t)
    (hoperand : t.config.operand = none) {quote : Char} {content : List Char}
    (htext : t.text = quote :: content) (hquote : Lexeme.starting (some quote) = .quote)
    (hopen : content.dropWhile (· ≠ quote) = []) : Viable source := by
  obtain ⟨n, d, f, hfeeds, hfinish⟩ := completes
    { t.config with operand := some (.text (String.ofList content)) } "x"
  obtain ⟨closing, hclosing⟩ : ∃ closing, closingText
    { t.config with operand := some (.text (String.ofList content)) } n = closing := ⟨_, rfl⟩
  have hrest : t.rest = t.rest.takeWhile Text.isBlank ++ (quote :: content) := by
    rw [← htext, Stage.text, List.takeWhile_append_dropWhile]
  have hcut : CutLike t.rest
      (t.rest.takeWhile Text.isBlank ++ (quote :: (content ++ quote :: closing))) :=
    t.cutLike_replace (by rw [htext]; exact .inl rfl)
  have hlex : lex ((quote :: (content ++ quote :: closing)).dropWhile Text.isBlank) =
      .word (.text (String.ofList content)) (quote :: content ++ [quote]) closing := by
    have hall : (content ++ []).takeWhile (· ≠ quote) = content := by
      have hsplit := List.takeWhile_append_dropWhile (p := (· ≠ quote)) (l := content)
      rw [hopen] at hsplit
      rw [List.append_nil]
      exact (List.append_nil _).symm.trans hsplit
    obtain ⟨htake, hdrop⟩ := takeWhile_append_eq (b := quote :: closing) hall (by simp)
    have hblank : Text.isBlank quote = false := t.isBlank_text quote (by rw [htext]; rfl)
    rw [List.dropWhile_cons_of_neg (by simp [hblank]), lex, hquote, lexAs]
    unfold lexText
    simp only [htake, hdrop]
  have hwords : words? (t.rest.takeWhile Text.isBlank ++
      (quote :: (content ++ quote :: closing))) = _ :=
    (words?_blanks (List.all_eq_true.mp List.all_takeWhile) _).trans (words?_word hlex)
  have htail := words?_closingText
    { t.config with operand := some (.text (String.ofList content)) } n
  rw [hclosing] at htail
  rw [htail] at hwords
  have hfeed : t.config.feed (.text (String.ofList content)) =
      .ok { t.config with operand := some (.text (String.ofList content)) } := by
    rw [Config.feed, hoperand]
    rfl
  obtain ⟨hall, hsentence⟩ := viable_of_feeds h hcut hwords (.cons hfeed hfeeds) hfinish
  refine ⟨quote :: closing, _, f, ?_, hsentence⟩
  rw [← passed_append_rest h, hrest, List.append_assoc, List.append_assoc, List.cons_append]
  exact hall

end

end Formula
