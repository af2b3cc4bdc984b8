/-
Steps of the machine that read an operator or a bracket, and steps that refuse a word.

As with the words that are values, there is one lemma for each kind.  A closing bracket and a
comma may belong to a call; then the machine only ends the argument, and the text stays as it
is until the call goes on.
-/
import Formula.Proofs.Reading.Lexemes

namespace Formula

/-! ### The characters that start brackets -/

theorem eq_of_starting_openBracket {c : Char} (h : Lexeme.starting (some c) = .openBracket) :
    c = '(' := by
  unfold Lexeme.starting Lexeme.ofOther at h
  grind

theorem eq_of_starting_closeBracket {c : Char} (h : Lexeme.starting (some c) = .closeBracket) :
    c = ')' := by
  unfold Lexeme.starting Lexeme.ofOther at h
  grind

theorem eq_of_starting_separator {c : Char} (h : Lexeme.starting (some c) = .separator) :
    c = ',' := by
  unfold Lexeme.starting Lexeme.ofOther at h
  grind

theorem eq_of_starting_unknown {c d : Char} (h : Lexeme.starting (some c) = .unknown d) :
    d = c := by
  unfold Lexeme.starting Lexeme.ofOther at h
  grind

theorem isBlank_of_starting {c : Char} (h : Lexeme.starting (some c) = .blank) :
    Text.isBlank c = true := by
  unfold Lexeme.starting Lexeme.ofOther at h
  grind

/-- The text behind the blanks of a stage does not start with a blank. -/
theorem Stage.starting_ne_blank (s : Stage) : Lexeme.starting s.text.head? ≠ .blank := by
  have hhead := List.head?_dropWhile_not Text.isBlank s.rest
  intro hblank
  unfold Stage.text at hblank
  cases hc : (s.rest.dropWhile Text.isBlank).head? with
  | none =>
      rw [hc] at hblank
      cases hblank
  | some c =>
      rw [hc] at hblank hhead
      have hnot : Text.isBlank c = false := hhead
      rw [isBlank_of_starting hblank] at hnot
      cases hnot

/-! ### What is refused -/

namespace Stage

variable {limits : Limits} {s : Stage} {c : Config} {cause : Cause}

theorem next_of_feed_error {w : Word} {lexeme rest : List Char}
    (hfits : s.config.operand = none ∨ (Lexeme.starting s.text.head?).startsValue = false)
    (hlex : lex s.text = .word w lexeme rest) (hfeed : s.config.feed w = .error (cause, c)) :
    s.next limits = .refused (s.stopFirst cause c) := by
  rw [next_of_fits hfits, takeWord, hlex]
  simp only [hfeed]

theorem next_of_finish_error (htext : s.text = []) (hfinish : s.config.finish = .error (cause, c)) :
    s.next limits = .refused (s.stopFirst cause c) := by
  rw [next_of_fits (.inr (by rw [htext]; rfl)), takeWord, htext]
  simp only [lex, hfinish]

theorem next_of_finish {f : Option Expr} (htext : s.text = [])
    (hfinish : s.config.finish = .ok f) : s.next limits = .accepted f :=
  next_eq_accepted_iff.mpr ⟨htext, hfinish⟩

theorem failure_stopFirst (s : Stage) (cause : Cause) (c : Config) :
    (s.stopFirst cause c).failure limits = ⟨cause, (s.stopFirst cause c).line,
      quotation limits (s.text.take 1) (s.text.drop 1)⟩ := rfl

/-- The failure at the first character. -/
theorem failure_stopFirst_cons {d : Char} {rest : List Char} (htext : s.text = d :: rest) :
    (s.stopFirst cause c).failure limits =
      ⟨cause, (s.stopFirst cause c).line, quotation limits [d] rest⟩ := by
  rw [failure_stopFirst, htext]
  rfl

/-- The failure at the end of the text. -/
theorem failure_stopFirst_nil (htext : s.text = []) :
    (s.stopFirst cause c).failure limits =
      ⟨cause, (s.stopFirst cause c).line, quotation limits [] []⟩ := by
  rw [failure_stopFirst, htext]
  rfl

/-- A failure that is not about a missing right operand is on the line where the fragment
ends. -/
theorem line_stopFirst (hcause : ∀ symbol, cause ≠ .missingRight symbol) :
    (s.stopFirst cause c).line = lineAfter (s.before ++ s.text.take 1) := by
  cases cause with
  | missingRight symbol => exact absurd rfl (hcause symbol)
  | _ => rfl

end Stage

/-- A tree that is low enough passes the check of its height. -/
theorem Machine.checkHeight_of_le {limits : Limits} {m : Machine}
    (h : m.builder.tree.height ≤ limits.treeDepth) : m.checkHeight limits = m := by
  simp [Machine.checkHeight, Nat.not_lt_of_le h]

/-- The root of the tree at hand is no pair of brackets that the text has. -/
theorem isParen_rootToken (outer : List OpenCall) : (rootToken outer).isParen = false := by
  cases outer <;> rfl

theorem operator?_rootToken (outer : List OpenCall) : (rootToken outer).operator? = none := by
  cases outer <;> rfl

/-- A closing bracket closes nothing inside an argument that is complete. -/
theorem closes_of_openBrackets (root : Token) {parts : List OpenPart}
    (h : openBrackets parts = 0) : closes root parts = closes root [] := by
  induction parts with
  | nil => rfl
  | cons part parts ih =>
      cases part with
      | bracket => cases h
      | operator op left => exact ih h

/-- A closing bracket closes the pair of brackets that `enclose` finds. -/
theorem closes_of_enclose (root : Token) {parts rest : List OpenPart} {e inner : Expr}
    (h : enclose parts e = (inner, some rest)) :
    closes root parts = some (.group (Spine.cursor (partsFrames rest))) := by
  induction parts generalizing e with
  | nil => cases h
  | cons part parts ih =>
      cases part with
      | bracket =>
          obtain ⟨-, hrest⟩ := Prod.mk.inj h
          obtain rfl := Option.some.inj hrest
          rfl
      | operator op left => exact ih h

/-! ### Complete trees -/

namespace Config

variable {c : Config}

theorem isComplete_of_openBrackets (hopen : openBrackets c.parts = 0)
    (hwaiting : c.operand = none → c.waiting = none) : c.IsComplete := by
  refine ⟨hopen, fun hoperand => ?_⟩
  have hnone := hwaiting hoperand
  rw [waiting] at hnone
  cases hparts : c.parts with
  | nil => rfl
  | cons part parts =>
      rw [hparts] at hnone hopen
      cases part with
      | bracket => cases hopen
      | operator op left => cases hnone

/-- A formula ends where the tree at hand is complete and no call is open. -/
theorem finish_of_isComplete (h : c.IsComplete) (houter : c.outer = []) :
    ∃ f, c.finish = .ok f ∧ c.draft.arena = (formulaDraft f).arena := by
  obtain ⟨parts, operand, outer⟩ := c
  obtain ⟨hopen, hparts⟩ := h
  subst houter
  cases operand with
  | none =>
      obtain rfl : parts = [] := hparts rfl
      exact ⟨none, rfl, rfl⟩
  | some e =>
      rcases enclose_brackets parts e with ⟨inner, henclose, -⟩ | ⟨inner, rest, -, hrest⟩
      · refine ⟨some inner, ?_, arena_enclose henclose⟩
        rw [finish]
        simp only [henclose]
      · simp only at hopen
        omega

/-- A formula does not end inside brackets. -/
theorem finish_of_openBrackets (hopen : openBrackets c.parts ≠ 0)
    (hwaiting : c.operand = none → c.waiting = none) : c.finish = .error (.unclosedGroup, c) := by
  obtain ⟨parts, operand, outer⟩ := c
  cases operand with
  | none =>
      have hnone := hwaiting rfl
      cases parts with
      | nil => exact absurd rfl hopen
      | cons part parts =>
          rw [finish]
          simp only [missing, hnone]
  | some e =>
      rcases enclose_brackets parts e with ⟨inner, -, hzero⟩ | ⟨inner, rest, henclose, -⟩
      · exact absurd hzero hopen
      · rw [finish]
        simp only [henclose]

end Config

namespace Ready

variable {limits : Limits} {outcome : Outcome} {s : Stage} {m : Machine}

theorem openParen?_isSome (h : Ready limits outcome s m) :
    m.builder.openParen?.isSome = decide (openBrackets s.config.parts ≠ 0) := by
  rw [h.builder]
  exact openParen?_builder (isParen_rootToken _) _ _

theorem current (h : Ready limits outcome s m) :
    m.builder.current = headToken (rootToken s.config.outer) s.config.parts := by
  rw [h.builder]
  exact current_builder _ _ _

theorem closing? (h : Ready limits outcome s m) :
    m.builder.closing? = closes (rootToken s.config.outer) s.config.parts := by
  rw [h.builder]
  exact closing?_builder (isParen_rootToken _) _ _

theorem height_le (h : Ready limits outcome s m) :
    m.builder.tree.height ≤ limits.treeDepth := by
  rw [h.carries.tree, height_draft]
  exact h.carries.admitted.2

/-! ### Refusing -/

/-- The next character is refused, on the line that the stop says. -/
theorem refusesOn (h : Ready limits outcome s m) {cause : Cause} {c : Char} {rest : List Char}
    {line : Nat} (htext : s.text = c :: rest)
    (hnext : s.next limits = .refused (s.stopFirst cause s.config))
    (hline : (s.stopFirst cause s.config).line = line) :
    Advances limits outcome (3 * s.text.length + m.calls.length)
      ((m.refuseOn limits cause line).checkHeight limits) := by
  have hscan := h.scan
  rw [htext] at hscan
  have hfails := Machine.refuseOn_fails limits cause hscan h.carries.failure line
  refine h.fails hnext rfl ?_
  rw [Stage.failure_stopFirst_cons htext, hline]
  exact hfails

theorem refuses (h : Ready limits outcome s m) {cause : Cause} {c : Char} {rest : List Char}
    (htext : s.text = c :: rest) (hcause : ∀ symbol, cause ≠ .missingRight symbol)
    (hnext : s.next limits = .refused (s.stopFirst cause s.config)) :
    Advances limits outcome (3 * s.text.length + m.calls.length)
      ((m.refuse limits cause).checkHeight limits) := by
  have hscan := h.scan
  rw [htext] at hscan
  have hfails := Machine.refuse_fails limits cause hscan h.carries.failure
  refine h.fails hnext rfl ?_
  have hline := @Stage.line_stopFirst s s.config cause hcause
  rw [htext, List.take_succ_cons, List.take_zero, ← lineAfter_append] at hline
  rw [Stage.failure_stopFirst_cons htext, hline]
  exact hfails

/-- The end of the text is refused, on the line that the stop says. -/
theorem failsOn (h : Ready limits outcome s m) {cause : Cause} {line : Nat} (htext : s.text = [])
    (hfinish : s.config.finish = .error (cause, s.config))
    (hline : (s.stopFirst cause s.config).line = line) :
    Advances limits outcome (3 * s.text.length + m.calls.length)
      ((m.failOn limits cause line).checkHeight limits) := by
  have hscan := h.scan
  rw [htext] at hscan
  have hfails := Machine.failOn_fails limits cause hscan h.carries.failure line
  refine h.fails (Stage.next_of_finish_error htext hfinish) rfl ?_
  rw [Stage.failure_stopFirst_nil htext, hline]
  exact hfails

/-! ### Seeing what comes next -/

/-- The machine turns to what it has seen. -/
theorem enters (h : Ready limits outcome s m) (state : State) (hpromise : s.Promises state) :
    Advances limits outcome (3 * s.text.length + m.calls.length + 1)
      ((m.enter state).checkHeight limits) := by
  have hcheck : (m.enter state).checkHeight limits = m.enter state :=
    Machine.checkHeight_of_le h.height_le
  have hrank : state.rank ≤ 1 := by
    cases state with
    | readValue | readOperator => exact hpromise.elim
    | _ => decide
  rw [hcheck]
  refine ⟨.inside s h.read ?_ (.inl h.cursor) h.scan hpromise, ?_⟩
  · obtain ⟨htree, hcalls, hfailure, hquiet, hordered, hadmitted⟩ := h.carries
    exact ⟨htree, hcalls, hfailure, hquiet, hordered, hadmitted⟩
  · show 3 * m.scanner.rest.length + m.calls.length + state.rank ≤ _
    rw [h.scan.rest_eq]
    omega

/-- The end of the text where no operator waits for an operand. -/
theorem endOfText (h : Ready limits outcome s m) (htext : s.text = [])
    (hwaiting : s.config.operand = none → s.config.waiting = none) :
    Advances limits outcome (3 * s.text.length + m.calls.length + 1)
      ((m.endOfText limits).checkHeight limits) := by
  unfold Machine.endOfText
  rw [h.openParen?_isSome]
  by_cases hopen : openBrackets s.config.parts = 0
  · rw [if_neg (by simp [hopen])]
    have hcomplete := Config.isComplete_of_openBrackets hopen hwaiting
    by_cases houter : s.config.outer = []
    · obtain ⟨f, hfinish, htree⟩ := Config.finish_of_isComplete hcomplete houter
      have hcheck : (m.enter .done).checkHeight limits = m.enter .done :=
        Machine.checkHeight_of_le h.height_le
      rw [hcheck]
      refine ⟨.complete f ?_ rfl ?_ ?_ h.carries.failure h.carries.quiet, ?_⟩
      · rw [← h.read]
        exact Stage.read_accepted (Stage.next_of_finish htext hfinish)
      · rw [← htree]
        exact h.carries.tree
      · show m.calls = []
        rw [h.carries.calls, houter]
        rfl
      · show 3 * m.scanner.rest.length + m.calls.length + 0 ≤ _
        rw [h.scan.rest_eq]
        omega
    · exact h.enters .done ⟨houter, hcomplete, .inl htext⟩
  · rw [if_pos (by simp [hopen])]
    have hline : (s.stopFirst .unclosedGroup s.config).line = m.scanner.lineNumber := by
      rw [Stage.line_stopFirst (by simp), htext, h.scan.line_eq, List.take_nil, List.append_nil]
    exact (h.failsOn htext (Config.finish_of_openBrackets hopen hwaiting) hline).mono
      (Nat.le_succ _)

/-! ### Commas -/

theorem isArgument (h : Ready limits outcome s m) :
    m.builder.isArgument = !s.config.outer.isEmpty := by
  rw [h.builder, Config.draft, isArgument_builder]
  cases s.config.outer <;> rfl

/-- A comma after a value. -/
theorem readSeparator (h : Ready limits outcome s m) {e : Expr}
    (hoperand : s.config.operand = some e) {rest : List Char} (htext : s.text = ',' :: rest) :
    Advances limits outcome (3 * s.text.length + m.calls.length + 1)
      ((m.readSeparator limits).checkHeight limits) := by
  have hlex : lex s.text = .word .comma [','] rest := by rw [htext]; rfl
  have hfits : s.config.operand = none ∨ (Lexeme.starting s.text.head?).startsValue = false :=
    .inr (by rw [htext]; rfl)
  have hfeed : s.config.feed .comma = s.config.separateAfter e := by
    rw [Config.feed, hoperand]
    rfl
  unfold Machine.readSeparator Machine.reject
  rw [h.isArgument, h.openParen?_isSome]
  by_cases houter : s.config.outer = []
  · rw [if_pos (by simp [houter])]
    have hnext : s.next limits =
        .refused (s.stopFirst (.malformed .commaOutsideCall) s.config) := by
      refine Stage.next_of_feed_error hfits hlex (hfeed.trans ?_)
      rw [Config.separateAfter, houter]
    exact (h.refuses htext (by simp) hnext).mono (Nat.le_succ _)
  · rw [if_neg (by simp [houter])]
    obtain ⟨call, outer, hcons⟩ := List.exists_cons_of_ne_nil houter
    rcases enclose_brackets s.config.parts e with
        ⟨inner, henclose, hopen⟩ | ⟨inner, parts, henclose, hopen⟩
    · rw [if_neg (by simp [hopen])]
      have hcomplete : s.config.IsComplete := ⟨hopen, by simp [hoperand]⟩
      exact h.enters .done ⟨houter, hcomplete, .inr (.inr ⟨by simp [hoperand], rest, htext⟩)⟩
    · rw [if_pos (by simp [hopen])]
      have hnext : s.next limits =
          .refused (s.stopFirst (.malformed .commaInsideBrackets) s.config) := by
        refine Stage.next_of_feed_error hfits hlex (hfeed.trans ?_)
        rw [Config.separateAfter, hcons, henclose]
      exact (h.refuses htext (by simp) hnext).mono (Nat.le_succ _)

/-! ### Operators -/

/-- That an operator has found its place is only recorded, and is no failure. -/
theorem notePlacement_eq (m : Machine) (op : Operator) (place : Placement) :
    ∃ log, m.notePlacement op place = { m with log := log } ∧ warnings log = warnings m.log := by
  cases place with
  | first | level => exact ⟨m.log, rfl, rfl⟩
  | tighter current => exact ⟨.descending op current :: m.log, rfl, rfl⟩
  | looser current => exact ⟨.resurfaced op current :: m.log, rfl, rfl⟩

theorem readInfix (h : Ready limits outcome s m) {e : Expr} (hoperand : s.config.operand = some e)
    {op : Operator} {c : Char} {rest : List Char} (htext : s.text = c :: rest)
    (hkind : Lexeme.starting (some c) = .operator op) :
    Advances limits outcome (3 * s.text.length + m.calls.length)
      ((m.readInfix limits op).checkHeight limits) := by
  have hlex : lex s.text = .word (.operator op) [c] rest := by rw [htext, lex, hkind]; rfl
  have hfeed : s.config.feed (.operator op) = .ok (s.config.infixAfter e op) := by
    rw [Config.feed, hoperand]
    rfl
  have hscanned := h.scan
  rw [htext] at hscanned
  have hscan := hscanned.advance.ignore
  have hbuilder : m.builder =
      (partsDraft (rootToken s.config.outer) s.config.parts (some e)).builder := by
    rw [h.builder, Config.draft, hoperand]
  obtain ⟨place, hplace, hinsert⟩ :=
    insert_builder (operator?_rootToken s.config.outer) h.carries.ordered.parts e op
  rw [← hbuilder] at hplace hinsert
  have hplaced : (m.scan fun s => s.advance.ignore).builder.placement? op = some place := hplace
  obtain ⟨log, hnote, hlog⟩ := notePlacement_eq (m.scan fun s => s.advance.ignore) op place
  have hquiet : warnings log = [] := hlog.trans h.carries.quiet
  unfold Machine.readInfix
  simp only [hplaced, hnote]
  have hadvances := h.takes
    { (m.scan fun s => s.advance.ignore) with
      log, builder := m.builder.insert op place, state := .readValue }
    hlex hfeed hinsert h.carries.calls h.carries.failure hquiet h.carries.admitted.1 hscan rfl
  exact hadvances.mono (Nat.sub_le _ _)

/-! ### Brackets -/

theorem enterGroup (h : Ready limits outcome s m) (hoperand : s.config.operand = none)
    {rest : List Char} (htext : s.text = '(' :: rest) :
    Advances limits outcome (3 * s.text.length + m.calls.length)
      (m.enterGroup.checkHeight limits) := by
  have hlex : lex s.text = .word .opening ['('] rest := by rw [htext]; rfl
  have hscanned := h.scan
  rw [htext] at hscanned
  have hscan := hscanned.advance.ignore
  have hbuilder : m.builder.openParen =
      (Config.mk (.bracket :: s.config.parts) none s.config.outer).draft.builder := by
    rw [h.builder_of_none hoperand]
    exact openParen_builder _ _
  have hadvances := h.takes m.enterGroup hlex
    (by rw [Config.feed, hoperand, Config.feedValue, hoperand]) hbuilder h.carries.calls
    h.carries.failure h.carries.quiet h.carries.admitted.1 hscan rfl
  exact hadvances.mono (Nat.sub_le _ _)

/-- A closing bracket that closes no pair of brackets ends the argument, or is refused where
there is none. -/
theorem exitTree (h : Ready limits outcome s m) (hcomplete : s.config.IsComplete)
    {rest : List Char} (htext : s.text = ')' :: rest)
    (hfeed : s.config.outer = [] → s.config.feed .closing = .error (.unclosedGroup, s.config)) :
    Advances limits outcome (3 * s.text.length + m.calls.length)
      ((m.exitGroup limits).checkHeight limits) := by
  have hcloses : m.builder.closing? = closes (rootToken s.config.outer) [] := by
    rw [h.closing?, closes_of_openBrackets _ hcomplete.1]
  unfold Machine.exitGroup
  cases houter : s.config.outer with
  | nil =>
      have hclosing : m.builder.closing? = none := by rw [hcloses, houter]; rfl
      have hlex : lex s.text = .word .closing [')'] rest := by rw [htext]; rfl
      have hnext : s.next limits = .refused (s.stopFirst .unclosedGroup s.config) :=
        Stage.next_of_feed_error (.inr (by rw [htext]; rfl)) hlex (hfeed houter)
      simp only [hclosing]
      exact h.refuses htext (by simp) hnext
  | cons call outer =>
      have hclosing : m.builder.closing? = some (.call Arena.root) := by rw [hcloses, houter]; rfl
      simp only [hclosing]
      have hcheck := @Machine.checkHeight_of_le limits
        { m.note .endOfCall with
          builder := { m.builder with cursor := Arena.root }, state := .done } h.height_le
      rw [hcheck]
      obtain ⟨htree, hcalls, hfailure, hquiet, hordered, hadmitted⟩ := h.carries
      refine ⟨.inside s h.read ⟨htree, hcalls, hfailure, hquiet, hordered, hadmitted⟩ (.inr rfl)
        h.scan ⟨by simp [houter], hcomplete, .inr (.inl ⟨rest, htext⟩)⟩, ?_⟩
      show 3 * m.scanner.rest.length + m.calls.length + 0 ≤ _
      rw [h.scan.rest_eq]
      omega

theorem exitGroup (h : Ready limits outcome s m) {rest : List Char} (htext : s.text = ')' :: rest)
    (hparts : s.config.operand = none → s.config.parts = []) :
    Advances limits outcome (3 * s.text.length + m.calls.length)
      ((m.exitGroup limits).checkHeight limits) := by
  cases hoperand : s.config.operand with
  | none =>
      have hnil := hparts hoperand
      refine h.exitTree ⟨by rw [hnil]; rfl, fun _ => hnil⟩ htext fun houter => ?_
      rw [Config.feed, hoperand, Config.feedValue, Config.closeEmpty, hnil, houter]
  | some e =>
      have hfeed : s.config.feed .closing = s.config.closeAfter e := by
        rw [Config.feed, hoperand]
        rfl
      rcases enclose_brackets s.config.parts e with
          ⟨inner, henclose, hopen⟩ | ⟨inner, parts, henclose, -⟩
      · refine h.exitTree ⟨hopen, by simp [hoperand]⟩ htext fun houter => ?_
        rw [hfeed, Config.closeAfter, henclose, houter]
      · have hclosing : m.builder.closing? = some (.group (Spine.cursor (partsFrames parts))) := by
          rw [h.closing?, closes_of_enclose _ henclose]
        have hlex : lex s.text = .word .closing [')'] rest := by rw [htext]; rfl
        have hscanned := h.scan
        rw [htext] at hscanned
        have hscan := hscanned.advance.ignore
        have hclose : s.config.feed .closing =
            .ok ⟨parts, some (.paren inner), s.config.outer⟩ := by
          rw [hfeed, Config.closeAfter, henclose]
        have hbuilder : { m.builder with cursor := Spine.cursor (partsFrames parts) } =
            (Config.mk parts (some (.paren inner)) s.config.outer).draft.builder := by
          refine builder_eq ?_ rfl
          show m.builder.tree = _
          rw [h.carries.tree, Config.draft, hoperand]
          exact arena_paren henclose
        unfold Machine.exitGroup
        simp only [hclosing]
        have hadvances := h.takes
          { (m.scan fun s => s.advance.ignore) with
            builder := { m.builder with cursor := Spine.cursor (partsFrames parts) }
            state := .readOperator }
          hlex hclose hbuilder h.carries.calls h.carries.failure h.carries.quiet
          h.carries.admitted.1 hscan rfl
        exact hadvances.mono (Nat.sub_le _ _)

end Ready

end Formula
