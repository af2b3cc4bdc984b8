/-
Steps of the machine that look at the next character.

Where a value has to come, a character that starts none is refused, unless it is the bracket
that ends a call without arguments; if an operator waits for the value, the operator is at
fault itself.  Where an operator may come, a character that starts a value is refused.
-/
import Formula.Proofs.Reading.Brackets

namespace Formula

/-! ### What stands at the cursor -/

namespace Config

/-- At the cursor is an operator that waits, a pair of brackets, or the root. -/
theorem head_cases (c : Config) :
    (∃ op, headToken (rootToken c.outer) c.parts = .operator op ∧ c.waiting = some op ∧
      c.parts ≠ []) ∨
    (headToken (rootToken c.outer) c.parts = .group .paren ∧ c.waiting = none ∧ c.parts ≠ []) ∨
    ((headToken (rootToken c.outer) c.parts = .empty ∨
      headToken (rootToken c.outer) c.parts = .group .scope) ∧ c.waiting = none ∧
        c.parts = []) := by
  obtain ⟨parts, operand, outer⟩ := c
  cases parts with
  | nil =>
      refine .inr (.inr ⟨?_, rfl, rfl⟩)
      cases outer with
      | nil => exact .inl rfl
      | cons => exact .inr rfl
  | cons part parts =>
      cases part with
      | bracket => exact .inr (.inl ⟨rfl, rfl, by simp⟩)
      | operator op => exact .inl ⟨op, rfl, rfl, by simp⟩

theorem missing_of_waiting {c : Config} {op : Operator} (h : c.waiting = some op)
    (otherwise : Cause) : c.missing otherwise = .missingRight op.symbol := by
  rw [missing, h]

theorem missing_of_none {c : Config} (h : c.waiting = none) (otherwise : Cause) :
    c.missing otherwise = otherwise := by
  rw [missing, h]

theorem closeEmpty_of_parts {c : Config} (h : c.parts ≠ []) :
    c.closeEmpty = .error (c.missing (.malformed .emptyBrackets), c) := by
  unfold closeEmpty
  split
  · next hnil _ => exact absurd hnil h
  · next hnil _ => exact absurd hnil h
  · rfl

theorem finish_of_parts {c : Config} (hoperand : c.operand = none) (hparts : c.parts ≠ []) :
    c.finish = .error (c.missing .unclosedGroup, c) := by
  unfold finish
  rw [hoperand]
  simp only
  split
  · next hnil _ => exact absurd hnil hparts
  · next hnil _ => exact absurd hnil hparts
  · rfl

end Config

theorem starting_ne_endOfText (c : Char) : Lexeme.starting (some c) ≠ .endOfText := by
  unfold Lexeme.starting Lexeme.ofOther
  grind

namespace Ready

variable {limits : Limits} {outcome : Outcome} {s : Stage} {m : Machine}

/-- A word that is no value where one has to come.  An operator that waits for the value is at
fault itself. -/
theorem refusesWord (h : Ready limits outcome s m) (hoperand : s.config.operand = none)
    {cause : Cause} {c : Char} {rest : List Char} {w : Word} (htext : s.text = c :: rest)
    (hlex : lex s.text = .word w [c] rest) (hcause : ∀ symbol, cause ≠ .missingRight symbol)
    (hfeed : s.config.feed w = .error (s.config.missing cause, s.config)) :
    Advances limits outcome (3 * s.text.length + m.calls.length)
      ((match headToken (rootToken s.config.outer) s.config.parts with
        | .operator op => m.refuseOn limits (.missingRight op.symbol) (lineAfter s.passed)
        | _ => m.refuse limits cause).checkHeight limits) := by
  have hnext : s.next limits = .refused (s.stopFirst (s.config.missing cause) s.config) :=
    Stage.next_of_feed_error (.inl hoperand) hlex hfeed
  rcases s.config.head_cases with
      ⟨op, hhead, hwaiting, -⟩ | ⟨hhead, hwaiting, -⟩ | ⟨hhead | hhead, hwaiting, -⟩
  · rw [Config.missing_of_waiting hwaiting] at hnext
    simp only [hhead]
    exact h.refusesOn htext hnext rfl
  all_goals
    rw [Config.missing_of_none hwaiting] at hnext
    simp only [hhead]
    exact h.refuses htext hcause hnext

/-- A character that starts no word. -/
theorem refusesUnknown (h : Ready limits outcome s m) {c d : Char} {rest : List Char}
    (htext : s.text = c :: rest) (hkind : Lexeme.starting (some c) = .unknown d) :
    Advances limits outcome (3 * s.text.length + m.calls.length)
      ((m.refuse limits (.malformed (.unexpectedCharacter d))).checkHeight limits) := by
  obtain rfl := eq_of_starting_unknown hkind
  have hnext : s.next limits =
      .refused (s.stopFirst (.malformed (.unexpectedCharacter d)) s.config) := by
    rw [Stage.next_of_fits (.inr (by rw [htext, List.head?_cons, hkind]; rfl)), Stage.takeWord,
      htext, lex, hkind]
    rfl
  exact h.refuses htext (by simp) hnext

/-- The end of the text where a value has to come. -/
theorem endsValue (h : Ready limits outcome s m) (hoperand : s.config.operand = none)
    (htext : s.text = []) : Advances limits outcome (3 * s.text.length + m.calls.length + 1)
      ((match headToken (rootToken s.config.outer) s.config.parts with
        | .operator op => m.failOn limits (.missingRight op.symbol) (lineAfter s.passed)
        | _ => m.endOfText limits).checkHeight limits) := by
  rcases s.config.head_cases with
      ⟨op, hhead, hwaiting, hparts⟩ | ⟨hhead, hwaiting, -⟩ | ⟨hhead | hhead, hwaiting, -⟩
  · have hfinish : s.config.finish = .error (.missingRight op.symbol, s.config) := by
      rw [Config.finish_of_parts hoperand hparts, Config.missing_of_waiting hwaiting]
    simp only [hhead]
    exact (h.failsOn htext hfinish rfl).mono (Nat.le_succ _)
  all_goals
    simp only [hhead]
    exact h.endOfText htext fun _ => hwaiting

/-- A closing bracket where a value has to come.  It may end a call without arguments. -/
theorem closesValue (h : Ready limits outcome s m) (hoperand : s.config.operand = none)
    {rest : List Char} (htext : s.text = ')' :: rest) :
    Advances limits outcome (3 * s.text.length + m.calls.length + 1)
      ((match headToken (rootToken s.config.outer) s.config.parts with
        | .operator op => m.refuseOn limits (.missingRight op.symbol) (lineAfter s.passed)
        | .group .paren => m.refuse limits (.malformed .emptyBrackets)
        | _ => m.enter .exitGroup).checkHeight limits) := by
  have hlex : lex s.text = .word .closing [')'] rest := by rw [htext]; rfl
  have hfeed : s.config.feed .closing = s.config.closeEmpty := by
    rw [Config.feed, hoperand]
    rfl
  have hrefuse := fun hparts : s.config.parts ≠ [] => h.refusesWord hoperand htext hlex (by simp)
    (hfeed.trans (Config.closeEmpty_of_parts hparts))
  rcases s.config.head_cases with
      ⟨op, hhead, -, hparts⟩ | ⟨hhead, -, hparts⟩ | ⟨hhead | hhead, -, hparts⟩
  · simp only [hhead] at hrefuse ⊢
    exact (hrefuse hparts).mono (Nat.le_succ _)
  · simp only [hhead] at hrefuse ⊢
    exact (hrefuse hparts).mono (Nat.le_succ _)
  all_goals
    simp only [hhead]
    exact h.enters .exitGroup ⟨⟨rest, htext⟩, fun _ => hparts⟩

/-- **Reading where a value has to come.** -/
theorem readValue (h : Ready limits outcome s (m.scan Scanner.skipBlanks))
    (hoperand : s.config.operand = none) (hline : m.scanner.lineNumber = lineAfter s.passed) :
    Advances limits outcome (3 * s.text.length + m.calls.length + 1)
      ((m.readValue limits).checkHeight limits) := by
  have hfeed : ∀ w, s.config.feed w = s.config.feedValue w := by
    intro w
    rw [Config.feed, hoperand]
  unfold Machine.readValue Machine.reject
  simp only [h.scan.peek_eq, h.current, hline]
  cases htext : s.text with
  | nil =>
      have hend : Lexeme.starting none = .endOfText := rfl
      have hends := h.endsValue hoperand htext
      rw [List.head?_nil, hend, ← htext]
      rcases s.config.head_cases with ⟨op, hhead, -⟩ | ⟨hhead, -⟩ | ⟨hhead | hhead, -⟩
      all_goals
        simp only [hhead] at hends ⊢
        exact hends
  | cons c rest =>
      rw [List.head?_cons, ← htext]
      cases hkind : Lexeme.starting (some c) with
      | number => exact (h.readNumber hoperand htext hkind).mono (Nat.le_succ _)
      | identifier => exact (h.readIdentifier hoperand htext hkind).mono (Nat.le_succ _)
      | quote => exact h.enters .readText ⟨hoperand, c, rest, htext, hkind⟩
      | openBracket =>
          have hbracket := eq_of_starting_openBracket hkind
          exact h.enters .enterGroup ⟨hoperand, rest, by rw [htext, hbracket]⟩
      | closeBracket =>
          have hbracket := eq_of_starting_closeBracket hkind
          have hcloses := h.closesValue hoperand (by rw [htext, hbracket])
          rcases s.config.head_cases with ⟨op, hhead, -⟩ | ⟨hhead, -⟩ | ⟨hhead | hhead, -⟩
          all_goals
            simp only [hhead] at hcloses ⊢
            exact hcloses
      | operator op =>
          have hlex : lex s.text = .word (.operator op) [c] rest := by rw [htext, lex, hkind]; rfl
          have hrefuse := h.refusesWord hoperand htext hlex (by simp) (hfeed _)
          rcases s.config.head_cases with ⟨op, hhead, -⟩ | ⟨hhead, -⟩ | ⟨hhead | hhead, -⟩
          all_goals
            simp only [hhead] at hrefuse ⊢
            exact hrefuse.mono (Nat.le_succ _)
      | separator =>
          have hlex : lex s.text = .word .comma [c] rest := by rw [htext, lex, hkind]; rfl
          have hrefuse := h.refusesWord hoperand htext hlex (by simp) (hfeed _)
          rcases s.config.head_cases with ⟨op, hhead, -⟩ | ⟨hhead, -⟩ | ⟨hhead | hhead, -⟩
          all_goals
            simp only [hhead] at hrefuse ⊢
            exact hrefuse.mono (Nat.le_succ _)
      | unknown d => exact (h.refusesUnknown htext hkind).mono (Nat.le_succ _)
      | blank => exact absurd (by rw [htext]; exact hkind) s.starting_ne_blank
      | endOfText => exact absurd hkind (starting_ne_endOfText c)

/-- **Reading where an operator may come.** -/
theorem readOperator (h : Ready limits outcome s (m.scan Scanner.skipBlanks)) {e : Expr}
    (hoperand : s.config.operand = some e) :
    Advances limits outcome (3 * s.text.length + m.calls.length + 1)
      ((m.readOperator limits).checkHeight limits) := by
  unfold Machine.readOperator Machine.reject
  simp only [h.scan.peek_eq]
  cases htext : s.text with
  | nil =>
      have hend : Lexeme.starting none = .endOfText := rfl
      rw [List.head?_nil, hend, ← htext]
      exact h.endOfText htext (by simp [hoperand])
  | cons c rest =>
      rw [List.head?_cons, ← htext]
      have hvalue : (Lexeme.starting (some c)).startsValue = true →
          s.next limits = .refused (s.stopFirst (.malformed .noOperator) s.config) := by
        intro hstarts
        rw [Stage.next, if_pos (by rw [hoperand, htext, List.head?_cons, hstarts]; rfl)]
      cases hkind : Lexeme.starting (some c) with
      | number | identifier | quote | openBracket =>
          rw [hkind] at hvalue
          exact (h.refuses htext (by simp) (hvalue rfl)).mono (Nat.le_succ _)
      | closeBracket =>
          have hbracket := eq_of_starting_closeBracket hkind
          exact h.enters .exitGroup ⟨⟨rest, by rw [htext, hbracket]⟩, by simp [hoperand]⟩
      | operator op => exact (h.readInfix hoperand htext hkind).mono (Nat.le_succ _)
      | separator =>
          have hcomma := eq_of_starting_separator hkind
          exact h.readSeparator hoperand (by rw [htext, hcomma])
      | unknown d => exact (h.refusesUnknown htext hkind).mono (Nat.le_succ _)
      | blank => exact absurd (by rw [htext]; exact hkind) s.starting_ne_blank
      | endOfText => exact absurd hkind (starting_ne_endOfText c)

end Ready

end Formula
