/-
Where reading stops.

Reading stops at a character, at a number, at quoted text that is left open, at the end of
the text, or because of a limit: `Stage.Refusal`.  At a character it stops whatever comes
behind that character.
-/
import Formula.Proofs.Reading.Brackets
import Formula.Proofs.Reading.Prefixes

namespace Formula

/-- Whether something is refused only because of a limit. -/
def Cause.IsLimit (cause : Cause) : Prop :=
  (∃ limit, cause = .malformed (.tooDeep limit)) ∨
    ∃ limit, cause = .malformed (.tooManyCalls limit)

/-! ### Words that are refused -/

/-- A word that starts no value is a single character, whatever comes behind it. -/
theorem lex_single {c : Char} {text lexeme rest : List Char} {w : Word}
    (h : lex (c :: text) = .word w lexeme rest) (hw : w.startsValue = false) :
    (∀ q, lex (c :: q) = .word w [c] q) ∧ (w = .closing → c = ')') := by
  obtain ⟨-, -, hvalue⟩ := lex_word h
  rw [hw, List.head?_cons] at hvalue
  cases hc : Lexeme.starting (some c) with
  | number | identifier | quote | openBracket =>
      rw [hc] at hvalue
      cases hvalue
  | closeBracket =>
      rw [lex, hc] at h
      obtain ⟨rfl, -, -⟩ := Lexed.word.inj h
      refine ⟨fun q => ?_, fun _ => eq_of_starting_closeBracket hc⟩
      rw [lex, hc]
      rfl
  | operator | separator =>
      rw [lex, hc] at h
      obtain ⟨rfl, -, -⟩ := Lexed.word.inj h
      refine ⟨fun q => ?_, fun hclosing => by cases hclosing⟩
      rw [lex, hc]
      rfl
  | unknown | blank | endOfText =>
      rw [lex, hc] at h
      cases h

namespace Config

variable {c d : Config} {cause : Cause}

theorem missing_cases (c : Config) (otherwise : Cause) :
    (∃ symbol, c.missing otherwise = .missingRight symbol) ∨
      c.missing otherwise = otherwise := by
  unfold missing
  split
  · exact .inl ⟨_, rfl⟩
  · exact .inr rfl

/-- What is wrong with a word has nothing to do with numbers and quoted text, and only a
closing bracket can be without its partner. -/
theorem feed_error_cause {w : Word} (h : c.feed w = .error (cause, d)) :
    cause ≠ .unterminatedText ∧ (∀ literal, cause ≠ .invalidNumber literal) ∧
      (cause = .unclosedGroup → w = .closing) := by
  have hmissing : ∀ {otherwise : Cause}, otherwise ≠ .unterminatedText →
      (∀ literal, otherwise ≠ .invalidNumber literal) → otherwise ≠ .unclosedGroup →
      c.missing otherwise ≠ .unterminatedText ∧
        (∀ literal, c.missing otherwise ≠ .invalidNumber literal) ∧
        (c.missing otherwise = .unclosedGroup → w = .closing) := by
    intro otherwise htext hnumber hgroup
    rcases c.missing_cases otherwise with ⟨symbol, heq⟩ | heq
    · simp [heq]
    · rw [heq]
      exact ⟨htext, hnumber, fun h => absurd h hgroup⟩
  cases refuses_of_feed h with
  | operator | comma | emptyBrackets => exact hmissing (by simp) (by simp) (by simp)
  | emptyArgument | unopened | noOperator | outsideCall | insideBrackets => simp

theorem finish_error_cause (h : c.finish = .error (cause, d)) :
    cause = .unclosedGroup ∨ ∃ symbol, cause = .missingRight symbol := by
  cases unfinished_of_finish h with
  | missing => exact (c.missing_cases _).symm
  | openArgument | openCall | openBracket => exact .inl rfl

end Config

/-! ### The places -/

/-- The place where reading stops behind a stage. -/
inductive Stage.Refusal (limits : Limits) (s : Stage) (stop : Stop) : Prop
  /-- Reading stops at a character, whatever comes behind it. -/
  | atCharacter (c : Char) (rest : List Char) (d : Config) (htext : s.text = c :: rest)
      (hcause : stop.cause ≠ .unterminatedText ∧ (∀ literal, stop.cause ≠ .invalidNumber literal) ∧
        (stop.cause = .unclosedGroup → c = ')'))
      (halways : ∀ q, (s.replace (c :: q)).next limits =
        .refused ((s.replace (c :: q)).stopFirst stop.cause d))
  /-- Reading stops at a number. -/
  | atNumber (literal rest : List Char) (htext : s.text = literal ++ rest)
      (hspan : literal = numberSpan s.text)
      (hcause : stop.cause = .invalidNumber (String.ofList literal))
  /-- Reading stops at quoted text that is left open. -/
  | atQuote (quote : Char) (content : List Char) (htext : s.text = quote :: content)
      (hquote : Lexeme.starting (some quote) = .quote)
      (hopen : content.dropWhile (· ≠ quote) = []) (hoperand : s.config.operand = none)
      (hcause : stop.cause = .unterminatedText)
  /-- Reading stops at the end of the text. -/
  | atEnd (d : Config) (htext : s.text = [])
      (hcause : stop.cause = .unclosedGroup ∨ ∃ symbol, stop.cause = .missingRight symbol)
      (hstop : stop = s.stopFirst stop.cause d)
  /-- Something is too much for the limits. -/
  | overLimit (hcause : stop.cause.IsLimit)

namespace Stage

variable {limits : Limits} {s : Stage} {stop : Stop}

/-- A stage in front of another text that starts with the same character. -/
theorem text_replace_cons {c : Char} {rest : List Char} (htext : s.text = c :: rest)
    (q : List Char) : (s.replace (c :: q)).text = c :: q := by
  have hblank := s.isBlank_text
  rw [htext] at hblank
  exact s.text_replace hblank

/-- A value is refused where an operator may come, whatever comes behind its first
character. -/
theorem refusal_of_startsValue
    (hvalue : (s.config.operand.isSome && (Lexeme.starting s.text.head?).startsValue) = true)
    (hstop : stop = s.stopFirst (.malformed .noOperator) s.config) : s.Refusal limits stop := by
  cases htext : s.text with
  | nil =>
      rw [htext, Bool.and_eq_true] at hvalue
      cases hvalue.2
  | cons c rest =>
      subst hstop
      refine .atCharacter c rest s.config htext ⟨by simp [stopFirst, stop],
        by simp [stopFirst, stop], by simp [stopFirst, stop]⟩ fun q => ?_
      rw [htext] at hvalue
      rw [next, if_pos]
      · rfl
      · rw [text_replace_cons htext]
        exact hvalue

/-- A word is refused whatever comes behind it. -/
theorem refusal_of_feed_error {w : Word} {lexeme rest : List Char} {cause : Cause} {d : Config}
    (hfits : s.config.operand = none ∨ (Lexeme.starting s.text.head?).startsValue = false)
    (hlex : lex s.text = .word w lexeme rest) (hfeed : s.config.feed w = .error (cause, d)) :
    s.Refusal limits (s.stopFirst cause d) := by
  have hcause := Config.feed_error_cause hfeed
  have hsingle : w.startsValue = false := by
    obtain ⟨-, -, hstarts⟩ := lex_word hlex
    rcases hfits with hoperand | hvalue
    · rw [Config.feed, hoperand] at hfeed
      cases w with
      | number | text | name | function | opening => cases hfeed
      | operator | closing | comma => rfl
    · exact hstarts.trans hvalue
  cases htext : s.text with
  | nil =>
      rw [htext] at hlex
      cases hlex
  | cons c text =>
      rw [htext] at hlex hfits
      obtain ⟨hlexes, hclosing⟩ := lex_single hlex hsingle
      refine .atCharacter c text d htext ⟨hcause.1, hcause.2.1, fun hbracket => ?_⟩ fun q => ?_
      · exact hclosing (hcause.2.2 hbracket)
      · have hreplaced := text_replace_cons htext q
        exact next_of_feed_error (by rw [hreplaced]; exact hfits)
          (by rw [hreplaced]; exact hlexes q) hfeed

/-- **Reading stops at one of these places.** -/
theorem refusal_of_next (h : s.next limits = .refused stop) : s.Refusal limits stop := by
  have hfollows := follows_next limits s
  rw [h] at hfollows
  cases hfollows with
  | value hvalue => exact refusal_of_startsValue hvalue rfl
  | tooManyCalls => exact .overLimit (.inr ⟨_, rfl⟩)
  | tooDeep => exact .overLimit (.inl ⟨_, rfl⟩)
  | word hfits hlex hfeed => exact refusal_of_feed_error hfits hlex hfeed
  | endOfText htext hfinish => exact .atEnd _ htext (Config.finish_error_cause hfinish) rfl
  | badNumber hlex =>
      obtain ⟨htext, hspan⟩ := lex_badNumber hlex
      exact .atNumber _ _ htext hspan rfl
  | openText hoperand hlex =>
      obtain ⟨quote, htext, hquote, hopen⟩ := lex_openText hlex
      exact .atQuote quote _ htext hquote hopen hoperand rfl
  | @stranger c rest hfits hlex =>
      obtain ⟨htext, hlexes⟩ := lex_stranger hlex
      refine .atCharacter c rest s.config htext ⟨by simp [stopFirst, stop],
        by simp [stopFirst, stop], by simp [stopFirst, stop]⟩ fun q => ?_
      have hreplaced := text_replace_cons htext q
      rw [htext] at hfits
      rw [next_of_fits (by rw [hreplaced]; exact hfits), takeWord, hreplaced, hlexes q]
      rfl

end Stage

end Formula
