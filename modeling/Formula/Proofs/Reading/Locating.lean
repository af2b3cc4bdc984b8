/-
What stands in front of the place where reading stops.

The text in front of a stage is read up to its end, `readTo_before`: it consists of words, and
all that can be wrong with it is that something is missing behind it.  And where an operator
waits for its right operand, it is the last word in front, `awaits_before`, because every
other word either is the operand or opens something new around the place where it goes.
-/
import Formula.Proofs.Earliest

namespace Formula

/-! ### An operator that waits -/

namespace Config

variable {c d : Config}

/-- No word is refused because of a limit. -/
theorem feed_error_within {w : Word} {cause : Cause} (h : c.feed w = .error (cause, d)) :
    ¬cause.IsLimit := by
  have hmissing : ∀ {otherwise : Cause}, ¬otherwise.IsLimit → ¬(c.missing otherwise).IsLimit := by
    intro otherwise hother
    rcases c.missing_cases otherwise with ⟨symbol, heq⟩ | heq
    · simp [heq, Cause.IsLimit]
    · rw [heq]
      exact hother
  cases refuses_of_feed h with
  | operator | comma | emptyBrackets => exact hmissing (by simp [Cause.IsLimit])
  | emptyArgument | unopened | noOperator | outsideCall | insideBrackets => simp [Cause.IsLimit]

/-- Only the name of a function opens a call. -/
theorem function_of_feed {w : Word} (h : c.feed w = .ok d)
    (hcalls : c.outer.length < d.outer.length) : ∃ name, w = .function name := by
  cases fed_of_feed h with
  | function name => exact ⟨name, rfl⟩
  | number | text | name | opening | operator | closeGroup | separate => simp at hcalls
  | closeEmpty | closeCall =>
      simp only [OpenCall.close, List.length_cons] at hcalls
      omega

/-- Only an operator leaves an operator waiting. -/
theorem operator_of_feed {w : Word} {op : Operator} (h : c.feed w = .ok d)
    (hoperand : d.operand = none) (hwaiting : d.waiting = some op) : w = .operator op := by
  cases fed_of_feed h with
  | operator e op' =>
      obtain rfl := Option.some.inj hwaiting
      rfl
  | function | opening | separate => cases hwaiting
  | number | text | name | closeEmpty | closeGroup | closeCall => cases hoperand

theorem waiting_of_missing {otherwise : Cause} {symbol : Char}
    (h : c.missing otherwise = .missingRight symbol)
    (hother : otherwise ≠ .missingRight symbol) :
    ∃ op, c.waiting = some op ∧ op.symbol = symbol := by
  unfold missing at h
  split at h
  · next op hop => exact ⟨op, hop, Cause.missingRight.inj h⟩
  · exact absurd h hother

/-- A word in place of the right operand. -/
theorem waiting_of_feed_error {w : Word} {cause : Cause} {symbol : Char}
    (h : c.feed w = .error (cause, d)) (hcause : cause = .missingRight symbol) :
    c.operand = none ∧ ∃ op, c.waiting = some op ∧ op.symbol = symbol := by
  cases hoperand : c.operand with
  | none =>
      refine ⟨rfl, ?_⟩
      cases refuses_of_feed h with
      | operator | comma | emptyBrackets => exact waiting_of_missing hcause (by simp)
      | emptyArgument | unopened | noOperator | outsideCall | insideBrackets => cases hcause
  | some e =>
      -- Behind an operand nothing is missing.
      subst hcause
      rw [feed, hoperand] at h
      cases w with
      | closing =>
          simp only [feedAfter, closeAfter] at h
          split at h <;> cases h
      | comma =>
          simp only [feedAfter, separateAfter] at h
          split at h <;> cases h
      | number | text | name | function | opening | operator => cases h

/-- The end of the text in place of the right operand. -/
theorem waiting_of_finish_error {cause : Cause} {symbol : Char}
    (h : c.finish = .error (cause, d)) (hcause : cause = .missingRight symbol) :
    c.operand = none ∧ ∃ op, c.waiting = some op ∧ op.symbol = symbol := by
  cases hoperand : c.operand with
  | none =>
      refine ⟨rfl, ?_⟩
      cases unfinished_of_finish h with
      | missing => exact waiting_of_missing hcause (by simp)
      | openArgument | openCall | openBracket => cases hcause
  | some e =>
      subst hcause
      simp only [finish, hoperand] at h
      split at h <;> cases h

end Config

/-! ### Stages of other texts -/

theorem eq_of_starting_operator {c : Char} {op : Operator}
    (h : Lexeme.starting (some c) = .operator op) : c = op.symbol := by
  unfold Lexeme.starting Operator.ofSymbol? Lexeme.ofOther at h
  grind [Operator.symbol]

/-- The character of an operator is all there is of it. -/
theorem lex_operator {text lexeme rest : List Char} {op : Operator}
    (h : lex text = .word (.operator op) lexeme rest) : lexeme = [op.symbol] := by
  cases text with
  | nil => cases h
  | cons c text =>
      obtain ⟨-, -, hvalue⟩ := lex_word h
      rw [List.head?_cons] at hvalue
      cases hc : Lexeme.starting (some c) with
      | operator other =>
          rw [lex, hc] at h
          obtain ⟨hw, rfl, -⟩ := Lexed.word.inj h
          obtain rfl := Word.operator.inj hw
          rw [eq_of_starting_operator hc]
      | number | identifier | quote | openBracket =>
          rw [hc] at hvalue
          cases hvalue
      | closeBracket | separator | unknown | blank | endOfText =>
          rw [lex, hc] at h
          cases h

namespace Stage

variable {limits : Limits} {s t : Stage} {ws : List Word}

/-- The last word on the way. -/
theorem Leads.last (h : Leads limits s ws t) : (ws = [] ∧ t = s) ∨
    ∃ us w r, ws = us ++ [w] ∧ Leads limits s us r ∧ Step limits r w t := by
  induction h with
  | nil s => exact .inl ⟨rfl, rfl⟩
  | @cons s r t w ws hstep hrest ih =>
      refine .inr ?_
      obtain ⟨rfl, rfl⟩ | ⟨us, v, q, rfl, hleads, hlast⟩ := ih
      · exact ⟨[], w, s, rfl, .nil s, hstep⟩
      · exact ⟨w :: us, v, q, rfl, .cons hstep hleads, hlast⟩

/-- The text in front of a stage leads to the stage if the next word stays the same. -/
theorem Leads.replace_word {text lexeme rest q : List Char} {w : Word}
    (h : Leads limits (start text) ws t) (hlex : lex t.text = .word w lexeme rest)
    (hword : lex (lexeme ++ q) = .word w lexeme q) :
    Leads limits (start (t.before ++ (lexeme ++ q))) ws (t.replace (lexeme ++ q)) ∧
      lex (t.replace (lexeme ++ q)).text = .word w lexeme q ∧
      (t.replace (lexeme ++ q)).before = t.before := by
  obtain ⟨htext, hne, -⟩ := lex_word hlex
  obtain ⟨c, lexeme, rfl⟩ := List.exists_cons_of_ne_nil hne
  have hhead : ∀ d ∈ (c :: lexeme ++ q).head?, Text.isBlank d = false := by
    have hblank := t.isBlank_text
    rw [htext] at hblank
    exact hblank
  have hcut : CutLike t.text (c :: lexeme ++ q) := by
    rw [htext]
    exact .inl rfl
  exact ⟨h.replace_text hcut, by rw [t.text_replace hhead, hword], t.before_replace hhead⟩

end Stage

section

variable {limits : Limits} {ws : List Word} {t : Stage}

/-- The text is read up to its end: it consists of words, and all that can be wrong with it is
that something is missing at the end. -/
structure ReadTo (limits : Limits) (text : List Char) : Prop where
  words_isSome : (words? text).isSome = true
  atEnd : ∀ failure, (parse limits (String.ofList text)).failure = some failure →
    failure.context = "" ∧
      (failure.cause = .unclosedGroup ∨ ∃ symbol, failure.cause = .missingRight symbol)

/-- **The text in front of a stage is read up to its end.** -/
theorem readTo_before {text : List Char} (h : Stage.Leads limits (Stage.start text) ws t) :
    ReadTo limits t.before := by
  have hend : Stage.Leads limits (Stage.start (t.before ++ [])) ws (t.replace []) :=
    h.replace_text (.inr (by simp))
  have htext : (t.replace []).text = [] := t.text_replace (by simp)
  rw [List.append_nil] at hend
  refine ⟨?_, fun failure hfailure => ?_⟩
  · have hwords : words? t.before = (words? (t.replace []).rest).map (ws ++ ·) := hend.words?
    have hlex : lex ((t.replace []).rest.dropWhile Text.isBlank) = .endOfText := congrArg lex htext
    rw [hwords, words?_endOfText hlex]
    rfl
  · cases hfinish : (t.replace []).config.finish with
    | ok f =>
        have haccepted : (Stage.start t.before).read limits = .accepted f :=
          hend.read_eq.trans (Stage.read_accepted (Stage.next_of_finish htext hfinish))
        rw [← @String.toList_ofList t.before] at haccepted
        rw [parse_of_accepted haccepted] at hfailure
        cases hfailure
    | error e =>
        obtain ⟨cause, d⟩ := e
        have hparse := failure_of_next hend (Stage.next_of_finish_error htext hfinish)
        rw [hfailure, Stage.failure_stopFirst_nil htext] at hparse
        obtain rfl := Option.some.inj hparse
        exact ⟨by simp [quotation], Config.finish_error_cause hfinish⟩

/-- The text ends with an operator, apart from blanks, and the text in front of that is read up
to its end. -/
inductive Awaits (limits : Limits) (symbol : Char) : (text front : List Char) → Prop
  | intro {front blanks : List Char} {op : Operator} (hop : op.symbol = symbol)
      (hblanks : ∀ c ∈ blanks, Text.isBlank c = true) (hfront : ReadTo limits front) :
      Awaits limits symbol (front ++ symbol :: blanks) front

/-- **An operator that waits for its right operand is the last word in front of a stage.** -/
theorem awaits_before {text : List Char} {op : Operator}
    (h : Stage.Leads limits (Stage.start text) ws t) (hoperand : t.config.operand = none)
    (hwaiting : t.config.waiting = some op) :
    ∃ front, t.passed = front ++ [op.symbol] ∧ Awaits limits op.symbol t.before front := by
  obtain ⟨-, rfl⟩ | ⟨us, w, r, -, hleads, hstep⟩ := h.last
  · cases hwaiting
  · obtain rfl := Config.operator_of_feed hstep.feeds hoperand hwaiting
    obtain ⟨lexeme, hlex, hpassed⟩ := hstep.lexes
    obtain rfl := lex_operator hlex
    refine ⟨r.before, hpassed, ?_⟩
    have hbefore : t.before = r.before ++ op.symbol :: t.rest.takeWhile Text.isBlank := by
      rw [Stage.before, hpassed, List.append_assoc]
      rfl
    rw [hbefore]
    exact .intro rfl (List.all_eq_true.mp List.all_takeWhile) (readTo_before hleads)

end

end Formula
