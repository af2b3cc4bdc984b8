/-
Reading character by character, without arrays.

A stage is what has been read of a text, as a configuration and as the text itself, and the
text that is left.  `Stage.next` drops blanks, takes one word and keeps to the limits; where
that is not possible it says at which place reading stops, for which reason, and what the
configuration is at that place.  `Stage.read` goes on until the text is a formula or reading
stops.

This is the whole reader but for the trees.  `read_eq_accepted_iff` says which texts are
formulas.
-/
import Formula.Proofs.Reading.Completeness

namespace Formula

/-- The number of the line behind a text, counted from one. -/
def lineAfter (text : List Char) : Nat := lineBreaks text + 1

theorem lineAfter_append (first last : List Char) :
    lineAfter first + lineBreaks last = lineAfter (first ++ last) := by
  rw [lineAfter, lineAfter, lineBreaks_append]
  omega

/-- A stage of reading a text. -/
structure Stage where
  /-- What has been read. -/
  config : Config
  /-- The text that has been read. -/
  passed : List Char
  /-- The text that is left. -/
  rest : List Char

/-- The place where reading stops. -/
structure Stop where
  /-- What is wrong. -/
  cause : Cause
  /-- The line that the failure is on. -/
  line : Nat
  /-- The text before the place. -/
  before : List Char
  /-- What is quoted in any case. -/
  fragment : List Char
  /-- The text behind that. -/
  rest : List Char
  /-- What has been read. -/
  config : Config

/-- What comes after a stage. -/
inductive Next where
  | onward (s : Stage)
  | accepted (f : Option Expr)
  | refused (stop : Stop)

/-- What reading a text comes to. -/
inductive Outcome where
  | accepted (f : Option Expr)
  | refused (stop : Stop)

namespace Stage

/-- The stage in front of a text. -/
def start (text : List Char) : Stage := ⟨Config.start, [], text⟩

/-- The text that is left, without blanks in front. -/
def text (s : Stage) : List Char := s.rest.dropWhile Text.isBlank

/-- The text before that. -/
def before (s : Stage) : List Char := s.passed ++ s.rest.takeWhile Text.isBlank

/-- Stops at a place behind the stage.  An operator that has no right operand is at fault
itself, so the failure is on its line; any other failure is on the line where the fragment
ends. -/
def stop (s : Stage) (cause : Cause) (before fragment rest : List Char) (c : Config) : Stop :=
  let line := match cause with
    | .missingRight _ => lineAfter s.passed
    | _ => lineAfter (before ++ fragment)
  ⟨cause, line, before, fragment, rest, c⟩

/-- Stops at the first character that is no blank. -/
def stopFirst (s : Stage) (cause : Cause) (c : Config) : Stop :=
  s.stop cause s.before (s.text.take 1) (s.text.drop 1) c

/-- Goes on behind a word, if the limits allow it.  A call too many is refused at its
bracket. -/
def settle (limits : Limits) (s : Stage) (c : Config) (lexeme rest : List Char) : Next :=
  if limits.callDepth < c.outer.length then
    .refused (s.stop (.malformed (.tooManyCalls limits.callDepth)) (s.before ++ lexeme.dropLast)
      ['('] rest s.config)
  else if limits.treeDepth < c.height then
    .refused (s.stop (.malformed (.tooDeep limits.treeDepth)) (s.before ++ lexeme) [] rest c)
  else .onward ⟨c, s.before ++ lexeme, rest⟩

/-- Takes the next word, or the end of the text. -/
def takeWord (limits : Limits) (s : Stage) : Next :=
  match lex s.text with
  | .word w lexeme rest =>
    match s.config.feed w with
    | .ok c => s.settle limits c lexeme rest
    | .error (cause, c) => .refused (s.stopFirst cause c)
  | .endOfText =>
    match s.config.finish with
    | .ok f => .accepted f
    | .error (cause, c) => .refused (s.stopFirst cause c)
  | .badNumber literal rest =>
    .refused (s.stop (.invalidNumber (String.ofList literal)) s.before literal rest s.config)
  | .openText content =>
    .refused (s.stop .unterminatedText (s.before ++ s.text.take 1) content []
      { s.config with operand := some (.text (String.ofList content)) })
  | .stranger c _ => .refused (s.stopFirst (.malformed (.unexpectedCharacter c)) s.config)

/-- Goes on behind the stage.  Where an operand has just been read, a value is refused as soon
as its first character is seen. -/
def next (limits : Limits) (s : Stage) : Next :=
  if s.config.operand.isSome && (Lexeme.starting s.text.head?).startsValue then
    .refused (s.stopFirst (.malformed .noOperator) s.config)
  else s.takeWord limits

/-! ### From stage to stage -/

/-- The word `w` leads from one stage to another. -/
structure Step (limits : Limits) (s : Stage) (w : Word) (t : Stage) : Prop where
  lexes : ∃ lexeme, lex s.text = .word w lexeme t.rest ∧ t.passed = s.before ++ lexeme
  feeds : s.config.feed w = .ok t.config
  admitted : t.config.Admitted limits

theorem startsValue_of_feedAfter {c d : Config} {e : Expr} {w : Word}
    (h : c.feedAfter e w = .ok d) : w.startsValue = false := by
  cases w with
  | operator | closing | comma => rfl
  | number | text | name | function | opening => cases h

/-- A value is looked at only where one has to come. -/
theorem next_of_fits {limits : Limits} {s : Stage}
    (h : s.config.operand = none ∨ (Lexeme.starting s.text.head?).startsValue = false) :
    s.next limits = s.takeWord limits := by
  have hmode : ¬(s.config.operand.isSome && (Lexeme.starting s.text.head?).startsValue) := by
    rcases h with hnone | hvalue
    · simp [hnone]
    · simp [hvalue]
  rw [next, if_neg hmode]

/-- A word that can be taken is a value only where one has to come. -/
theorem fits_of_feed {s : Stage} {w : Word} {lexeme rest : List Char} {c : Config}
    (hlex : lex s.text = .word w lexeme rest) (hfeed : s.config.feed w = .ok c) :
    s.config.operand = none ∨ (Lexeme.starting s.text.head?).startsValue = false := by
  obtain ⟨-, -, hvalue⟩ := lex_word hlex
  cases he : s.config.operand with
  | none => exact .inl rfl
  | some e =>
      rw [Config.feed, he] at hfeed
      exact .inr (hvalue.symm.trans (startsValue_of_feedAfter hfeed))

/-- A word that can be taken is held against the limits. -/
theorem next_of_feed {limits : Limits} {s : Stage} {w : Word} {lexeme rest : List Char}
    {c : Config} (hlex : lex s.text = .word w lexeme rest) (hfeed : s.config.feed w = .ok c) :
    s.next limits = s.settle limits c lexeme rest := by
  rw [next_of_fits (fits_of_feed hlex hfeed), takeWord, hlex]
  simp only [hfeed]

/-- A word that makes the tree too deep is taken, and reading stops behind it. -/
theorem next_of_tooDeep {limits : Limits} {s : Stage} {w : Word} {lexeme rest : List Char}
    {c : Config} (hlex : lex s.text = .word w lexeme rest) (hfeed : s.config.feed w = .ok c)
    (hcalls : c.outer.length ≤ limits.callDepth) (hheight : limits.treeDepth < c.height) :
    s.next limits = .refused (s.stop (.malformed (.tooDeep limits.treeDepth))
      (s.before ++ lexeme) [] rest c) := by
  rw [next_of_feed hlex hfeed, settle, if_neg (Nat.not_lt_of_le hcalls), if_pos hheight]

theorem next_of_step {limits : Limits} {s t : Stage} {w : Word} (h : s.Step limits w t) :
    s.next limits = .onward t := by
  obtain ⟨lexeme, hlex, hpassed⟩ := h.lexes
  obtain ⟨hcalls, hheight⟩ := h.admitted
  rw [next_of_feed hlex h.feeds, settle, if_neg (Nat.not_lt_of_le hcalls),
    if_neg (Nat.not_lt_of_le hheight), ← hpassed]

/-- What comes after a stage, and why. -/
inductive Follows (limits : Limits) (s : Stage) : Next → Prop
  /-- The next stage. -/
  | onward {w : Word} {t : Stage} (hstep : s.Step limits w t) : Follows limits s (.onward t)
  /-- The end of a formula. -/
  | accepted {f : Option Expr} (htext : s.text = []) (hfinish : s.config.finish = .ok f) :
      Follows limits s (.accepted f)
  /-- A value right behind a value. -/
  | value
      (hvalue : (s.config.operand.isSome && (Lexeme.starting s.text.head?).startsValue) = true) :
      Follows limits s (.refused (s.stopFirst (.malformed .noOperator) s.config))
  /-- A call too many. -/
  | tooManyCalls {w : Word} {lexeme rest : List Char} {c : Config}
      (hlex : lex s.text = .word w lexeme rest) (hfeed : s.config.feed w = .ok c)
      (hcalls : limits.callDepth < c.outer.length) :
      Follows limits s (.refused (s.stop (.malformed (.tooManyCalls limits.callDepth))
        (s.before ++ lexeme.dropLast) ['('] rest s.config))
  /-- A word that makes the tree too deep. -/
  | tooDeep {w : Word} {lexeme rest : List Char} {c : Config}
      (hlex : lex s.text = .word w lexeme rest) (hfeed : s.config.feed w = .ok c)
      (hcalls : c.outer.length ≤ limits.callDepth) (hheight : limits.treeDepth < c.height) :
      Follows limits s (.refused (s.stop (.malformed (.tooDeep limits.treeDepth))
        (s.before ++ lexeme) [] rest c))
  /-- A word that cannot be taken. -/
  | word {w : Word} {lexeme rest : List Char} {cause : Cause} {c : Config}
      (hfits : s.config.operand = none ∨ (Lexeme.starting s.text.head?).startsValue = false)
      (hlex : lex s.text = .word w lexeme rest) (hfeed : s.config.feed w = .error (cause, c)) :
      Follows limits s (.refused (s.stopFirst cause c))
  /-- The end of the text where there should be more. -/
  | endOfText {cause : Cause} {c : Config} (htext : s.text = [])
      (hfinish : s.config.finish = .error (cause, c)) :
      Follows limits s (.refused (s.stopFirst cause c))
  /-- A literal that is no number. -/
  | badNumber {literal rest : List Char} (hlex : lex s.text = .badNumber literal rest) :
      Follows limits s (.refused
        (s.stop (.invalidNumber (String.ofList literal)) s.before literal rest s.config))
  /-- Quoted text that is left open. -/
  | openText {content : List Char} (hoperand : s.config.operand = none)
      (hlex : lex s.text = .openText content) :
      Follows limits s (.refused (s.stop .unterminatedText (s.before ++ s.text.take 1) content []
        { s.config with operand := some (.text (String.ofList content)) }))
  /-- A character that starts no word. -/
  | stranger {c : Char} {rest : List Char}
      (hfits : s.config.operand = none ∨ (Lexeme.starting s.text.head?).startsValue = false)
      (hlex : lex s.text = .stranger c rest) :
      Follows limits s (.refused (s.stopFirst (.malformed (.unexpectedCharacter c)) s.config))

/-- A word that can be taken leads on, if the limits allow it. -/
theorem follows_settle (limits : Limits) {s : Stage} {w : Word} {lexeme rest : List Char}
    {c : Config} (hlex : lex s.text = .word w lexeme rest) (hfeed : s.config.feed w = .ok c) :
    s.Follows limits (s.settle limits c lexeme rest) := by
  unfold settle
  by_cases hcalls : limits.callDepth < c.outer.length
  · rw [if_pos hcalls]
    exact .tooManyCalls hlex hfeed hcalls
  · by_cases hheight : limits.treeDepth < c.height
    · rw [if_neg hcalls, if_pos hheight]
      exact .tooDeep hlex hfeed (Nat.le_of_not_lt hcalls) hheight
    · rw [if_neg hcalls, if_neg hheight]
      exact .onward ⟨⟨lexeme, hlex, rfl⟩, hfeed, Nat.le_of_not_lt hcalls, Nat.le_of_not_lt hheight⟩

/-- **Nothing else comes after a stage.** -/
theorem follows_next (limits : Limits) (s : Stage) : s.Follows limits (s.next limits) := by
  by_cases hvalue : s.config.operand.isSome && (Lexeme.starting s.text.head?).startsValue
  · rw [next, if_pos hvalue]
    exact .value hvalue
  · have hfits : s.config.operand = none ∨
        (Lexeme.starting s.text.head?).startsValue = false := by
      cases hoperand : s.config.operand with
      | none => exact .inl rfl
      | some e => exact .inr (by simpa [hoperand] using hvalue)
    rw [next_of_fits hfits, takeWord]
    cases hlex : lex s.text with
    | word w lexeme rest =>
        cases hfeed : s.config.feed w with
        | ok c => simpa only [hfeed] using follows_settle limits hlex hfeed
        | error failure => simpa only [hfeed] using .word hfits hlex hfeed
    | endOfText =>
        have htext := lex_eq_endOfText hlex
        cases hfinish : s.config.finish with
        | ok f => exact .accepted htext hfinish
        | error failure => exact .endOfText htext hfinish
    | badNumber literal rest => exact .badNumber hlex
    | openText content =>
        refine .openText ?_ hlex
        rcases hfits with hnone | hstarts
        · exact hnone
        · obtain ⟨quote, htext, hquote, -⟩ := lex_openText hlex
          rw [htext, List.head?_cons, hquote] at hstarts
          cases hstarts
    | stranger c rest => exact .stranger hfits hlex

theorem step_of_next {limits : Limits} {s t : Stage} (h : s.next limits = .onward t) :
    ∃ w, s.Step limits w t := by
  have hfollows := follows_next limits s
  rw [h] at hfollows
  cases hfollows with
  | onward hstep => exact ⟨_, hstep⟩

theorem next_eq_accepted_iff {limits : Limits} {s : Stage} {f : Option Expr} :
    s.next limits = .accepted f ↔ s.text = [] ∧ s.config.finish = .ok f := by
  constructor
  · intro h
    have hfollows := follows_next limits s
    rw [h] at hfollows
    cases hfollows with
    | accepted htext hfinish => exact ⟨htext, hfinish⟩
  · rintro ⟨htext, hfinish⟩
    rw [next_of_fits (.inr (by rw [htext]; rfl)), takeWord, htext]
    simp only [lex, hfinish]

theorem length_rest_lt_of_next {limits : Limits} {s t : Stage} (h : s.next limits = .onward t) :
    t.rest.length < s.rest.length := by
  obtain ⟨w, hstep⟩ := step_of_next h
  obtain ⟨lexeme, hlex, -⟩ := hstep.lexes
  exact length_rest_lt hlex

/-- Reads on to the end. -/
def read (limits : Limits) (s : Stage) : Outcome :=
  match _hnext : s.next limits with
  | .onward t => t.read limits
  | .accepted f => .accepted f
  | .refused stop => .refused stop
termination_by s.rest.length
decreasing_by exact length_rest_lt_of_next ‹_›

theorem read_onward {limits : Limits} {s t : Stage} (h : s.next limits = .onward t) :
    s.read limits = t.read limits := by
  rw [read]
  grind

theorem read_accepted {limits : Limits} {s : Stage} {f : Option Expr}
    (h : s.next limits = .accepted f) : s.read limits = .accepted f := by
  rw [read]
  grind

theorem read_refused {limits : Limits} {s : Stage} {stop : Stop}
    (h : s.next limits = .refused stop) : s.read limits = .refused stop := by
  rw [read]
  grind

/-- Some words lead from one stage to another. -/
inductive Leads (limits : Limits) : Stage → List Word → Stage → Prop
  | nil (s : Stage) : Leads limits s [] s
  | cons {s t u : Stage} {w : Word} {ws : List Word} (hstep : s.Step limits w t)
      (hrest : Leads limits t ws u) : Leads limits s (w :: ws) u

/-- Reading passes some stages and ends after the last of them. -/
theorem leads_of_read (limits : Limits) (s : Stage) :
    ∃ ws t, Leads limits s ws t ∧
      ((∃ f, s.read limits = .accepted f ∧ t.next limits = .accepted f) ∨
        ∃ stop, s.read limits = .refused stop ∧ t.next limits = .refused stop) := by
  induction hn : s.rest.length using Nat.strongRecOn generalizing s with
  | ind n ih =>
      cases hnext : s.next limits with
      | onward t =>
          obtain ⟨w, hstep⟩ := step_of_next hnext
          have hlt := length_rest_lt_of_next hnext
          obtain ⟨ws, u, hleads, hend⟩ := ih t.rest.length (by omega) t rfl
          rw [← read_onward hnext] at hend
          exact ⟨w :: ws, u, .cons hstep hleads, hend⟩
      | accepted f => exact ⟨[], s, .nil s, .inl ⟨f, read_accepted hnext, hnext⟩⟩
      | refused stop => exact ⟨[], s, .nil s, .inr ⟨stop, read_refused hnext, hnext⟩⟩

/-- A text is read as a formula at the last of some stages. -/
theorem leads_of_accepted {limits : Limits} {s : Stage} {f : Option Expr}
    (h : s.read limits = .accepted f) :
    ∃ ws t, Leads limits s ws t ∧ t.text = [] ∧ t.config.finish = .ok f := by
  obtain ⟨ws, t, hleads, hend⟩ := leads_of_read limits s
  rcases hend with ⟨g, hread, hnext⟩ | ⟨stop, hread, -⟩
  · rw [h] at hread
    obtain rfl := Outcome.accepted.inj hread
    obtain ⟨htext, hfinish⟩ := next_eq_accepted_iff.mp hnext
    exact ⟨ws, t, hleads, htext, hfinish⟩
  · rw [h] at hread
    cases hread

/-- Reading stops behind the last of some stages. -/
theorem leads_of_refused {limits : Limits} {s : Stage} {stop : Stop}
    (h : s.read limits = .refused stop) :
    ∃ ws t, Leads limits s ws t ∧ t.next limits = .refused stop := by
  obtain ⟨ws, t, hleads, hend⟩ := leads_of_read limits s
  rcases hend with ⟨f, hread, -⟩ | ⟨other, hread, hnext⟩
  · rw [h] at hread
    cases hread
  · rw [h] at hread
    obtain rfl := Outcome.refused.inj hread
    exact ⟨ws, t, hleads, hnext⟩

namespace Leads

variable {limits : Limits} {s t : Stage} {ws : List Word}

/-- What every step keeps is kept on the way. -/
theorem preserves {P : Config → Prop} (h : Leads limits s ws t) (hs : P s.config)
    (hstep : ∀ {s t : Stage} {w : Word}, s.Step limits w t → P s.config → P t.config) :
    P t.config := by
  induction h with
  | nil => exact hs
  | cons hfirst _ ih => exact ih (hstep hfirst hs)

theorem read_eq (h : Leads limits s ws t) : s.read limits = t.read limits := by
  induction h with
  | nil => rfl
  | cons hstep _ ih => rw [read_onward (next_of_step hstep), ih]

/-- The words on the way are the first words of the text. -/
theorem words? (h : Leads limits s ws t) :
    Formula.words? s.rest = (Formula.words? t.rest).map (ws ++ ·) := by
  induction h with
  | nil => simp
  | cons hstep _ ih =>
      obtain ⟨lexeme, hlex, -⟩ := hstep.lexes
      rw [words?_word hlex, ih, Option.map_map]
      rfl

theorem takes (h : Leads limits s ws t) : Takes limits s.config ws t.config := by
  induction h with
  | nil => exact .nil _
  | cons hstep _ ih => exact .cons hstep.feeds hstep.admitted ih

end Leads

/-- Words that can be taken lead onwards in any text that starts with them. -/
theorem leads_of_takes {limits : Limits} {s : Stage} {d : Config} {ws us : List Word}
    (h : Takes limits s.config ws d) (hwords : words? s.rest = some (ws ++ us)) :
    ∃ t, Leads limits s ws t ∧ t.config = d ∧ words? t.rest = some us := by
  induction ws generalizing s with
  | nil =>
      cases h
      exact ⟨s, .nil s, rfl, hwords⟩
  | cons w ws ih =>
      cases h with
      | @cons _ c _ _ _ hfeed hadmitted hrest =>
          rcases words?_eq_some hwords with ⟨hnil, -⟩ | ⟨v, lexeme, rest, vs, hcons, hlex, hvs⟩
          · cases hnil
          · rw [List.cons_append] at hcons
            obtain ⟨rfl, rfl⟩ := List.cons.inj hcons
            have hstep : s.Step limits w ⟨c, s.before ++ lexeme, rest⟩ :=
              ⟨⟨lexeme, hlex, rfl⟩, hfeed, hadmitted⟩
            obtain ⟨t, hleads, hconfig, hus⟩ :=
              @ih ⟨c, s.before ++ lexeme, rest⟩ hrest hvs
            exact ⟨t, .cons hstep hleads, hconfig, hus⟩

end Stage

/-! ### Which texts are formulas -/

namespace Takes

variable {limits : Limits} {c d : Config} {ws : List Word}

theorem words (h : Takes limits c ws d) : d.words = c.words ++ ws := by
  induction h with
  | nil => simp
  | cons hfeed _ _ ih => rw [ih, Config.feed_words hfeed, List.append_assoc]; rfl

theorem ordered (h : Takes limits c ws d) (hc : c.Ordered) : d.Ordered := by
  induction h with
  | nil => exact hc
  | cons hfeed _ _ ih => exact ih (Config.feed_ordered hc hfeed)

theorem height_le (h : Takes limits c ws d) (hc : c.height ≤ limits.treeDepth) :
    d.height ≤ limits.treeDepth := by
  induction h with
  | nil => exact hc
  | cons _ hadmitted _ ih => exact ih hadmitted.2

theorem callDepth_le (h : Takes limits c ws d) (hc : c.callDepth ≤ limits.callDepth) :
    d.callDepth ≤ limits.callDepth := by
  induction h with
  | nil => exact hc
  | cons hfeed hadmitted _ ih =>
      have hnext := Config.feed_callDepth hfeed
      have houter := hadmitted.1
      exact ih (by omega)

end Takes

/-- **A text is read as a formula exactly if its words are the words of that formula**, the
formula is in layers and it keeps to the limits. -/
theorem Stage.read_eq_accepted_iff {limits : Limits} {text : List Char} {f : Option Expr} :
    (Stage.start text).read limits = .accepted f ↔
      words? text = some (formulaWords f) ∧ (∀ e ∈ f, e.Layered) ∧
        formulaCallDepth f ≤ limits.callDepth ∧ formulaHeight f ≤ limits.treeDepth := by
  constructor
  · intro h
    obtain ⟨ws, t, hleads, htext, hfinish⟩ := leads_of_accepted h
    have hlex : lex (t.rest.dropWhile Text.isBlank) = .endOfText := congrArg lex htext
    have htakes := hleads.takes
    have hwords := hleads.words?
    have hread := htakes.words
    rw [words?_endOfText hlex] at hwords
    rw [← Config.finish_words hfinish] at hread
    refine ⟨?_, Config.finish_layered (htakes.ordered Config.start_ordered) hfinish, ?_, ?_⟩
    · have hall : Formula.words? text = some (ws ++ []) := hwords
      rw [hall, hread, List.append_nil]
      rfl
    · exact Nat.le_trans (Config.finish_callDepth hfinish)
        (htakes.callDepth_le (Nat.zero_le _))
    · rw [Config.finish_height hfinish]
      exact htakes.height_le (Nat.zero_le _)
  · rintro ⟨hwords, hlayered, hcalls, hheight⟩
    obtain ⟨c, htakes, hfinish⟩ := takes_formula hlayered hcalls hheight
    obtain ⟨t, hleads, hconfig, hrest⟩ :=
      @leads_of_takes limits (Stage.start text) c (formulaWords f) [] htakes
        (by rw [List.append_nil]; exact hwords)
    rcases words?_eq_some hrest with ⟨-, hlex⟩ | ⟨w, lexeme, rest, ws, hnil, -, -⟩
    · rw [hleads.read_eq]
      exact read_accepted (next_eq_accepted_iff.mpr
        ⟨lex_eq_endOfText hlex, by rw [hconfig]; exact hfinish⟩)
    · cases hnil

end Formula
