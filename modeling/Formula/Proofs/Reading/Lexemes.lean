/-
Steps of the machine that read a word.

The machine has dropped the blanks, and what comes next is known by its first character.  For
each kind of word there is one lemma: the machine comes to the next moment on its way, and it
has used up what the word takes of its potential.
-/
import Formula.Proofs.Reading.Tracks

namespace Formula

/-- The machine is behind the blanks of a stage. -/
structure Ready (limits : Limits) (outcome : Outcome) (s : Stage) (m : Machine) : Prop where
  read : s.read limits = outcome
  carries : Carries limits s m
  cursor : m.builder.cursor = s.config.draft.cursor
  scan : m.scanner.Holds [] s.text (lineAfter s.before)

/-- The machine is on its way and has at most the given potential. -/
def Advances (limits : Limits) (outcome : Outcome) (bound : Nat) (m : Machine) : Prop :=
  Tracks limits outcome m ∧ m.potential ≤ bound

theorem Advances.mono {limits : Limits} {outcome : Outcome} {bound more : Nat} {m : Machine}
    (h : Advances limits outcome bound m) (hle : bound ≤ more) : Advances limits outcome more m :=
  ⟨h.1, Nat.le_trans h.2 hle⟩

namespace Ready

variable {limits : Limits} {outcome : Outcome} {s : Stage} {m : Machine}

theorem builder (h : Ready limits outcome s m) : m.builder = s.config.draft.builder :=
  builder_eq h.carries.tree h.cursor

/-- Where a value has to come, nothing hangs below the cursor. -/
theorem builder_of_none (h : Ready limits outcome s m) (hoperand : s.config.operand = none) :
    m.builder = (partsDraft (rootToken s.config.outer) s.config.parts none).builder := by
  rw [h.builder, Config.draft, hoperand]

/-- The machine has taken a word.  The word has a character at least, which pays for what the
machine may still do before it passes the next one. -/
theorem takes (h : Ready limits outcome s m) (m' : Machine) {w : Word}
    {lexeme rest : List Char} {c : Config}
    (hlex : lex s.text = .word w lexeme rest) (hfeed : s.config.feed w = .ok c)
    (hbuilder : m'.builder = c.draft.builder) (hcalls : m'.calls = pendingCalls c.outer)
    (hfailure : m'.failure = none) (hquiet : warnings m'.log = [])
    (hdepth : c.outer.length ≤ limits.callDepth)
    (hscan : m'.scanner.Holds [] rest (lineAfter s.before + lineBreaks lexeme))
    (hstate : m'.state = c.state) :
    Advances limits outcome (3 * s.text.length + m'.calls.length - 1)
      (m'.checkHeight limits) := by
  have hpaid : rest.length + 1 ≤ s.text.length := by
    obtain ⟨htext, hne, -⟩ := lex_word hlex
    have hpos := List.length_pos_iff.mpr hne
    rw [htext, List.length_append]
    omega
  rw [lineAfter_append] at hscan
  have hsettle : Advances limits outcome (3 * rest.length + m'.calls.length + 2)
      (m'.checkHeight limits) :=
    tracks_settle h.read (Stage.next_of_feed hlex hfeed) hbuilder hcalls hfailure hquiet
      (Config.feed_ordered h.carries.ordered hfeed) hdepth hscan hstate
  exact hsettle.mono (by omega)

/-- The machine has failed. -/
theorem fails (h : Ready limits outcome s m) {stop : Stop} {m' : Machine}
    (hnext : s.next limits = .refused stop) (hconfig : stop.config = s.config)
    (hfails : FailsWith m m' (stop.failure limits)) :
    Advances limits outcome (3 * s.text.length + m.calls.length) (m'.checkHeight limits) := by
  have htracks := tracks_fails h.read hnext hfails (by rw [hconfig]; exact h.builder)
    (by rw [hconfig]; exact h.carries.calls) h.carries.quiet
  rw [h.scan.rest_eq] at htracks
  exact htracks

/-! ### Leaves -/

/-- The machine has hung a leaf below its cursor. -/
theorem takesLeaf (h : Ready limits outcome s m) (hoperand : s.config.operand = none) {w : Word}
    {lexeme rest : List Char} {e : Expr} {token : Token} (move : Scanner → Scanner)
    (hlex : lex s.text = .word w lexeme rest)
    (hfeed : s.config.feed w = .ok { s.config with operand := some e })
    (hleaf : e.piece = .leaf token token.levels)
    (hscan : (move m.scanner).Holds [] rest (lineAfter s.before + lineBreaks lexeme)) :
    Advances limits outcome (3 * s.text.length + m.calls.length)
      ((((m.scan move).attach token).enter .readOperator).checkHeight limits) := by
  have hbuilder : m.builder.attach token =
      (Config.mk s.config.parts (some e) s.config.outer).draft.builder := by
    rw [h.builder_of_none hoperand]
    exact attach_operand hleaf
  have hadvances := h.takes (((m.scan move).attach token).enter .readOperator) hlex hfeed hbuilder
    h.carries.calls h.carries.failure h.carries.quiet h.carries.admitted.1 hscan rfl
  exact hadvances.mono (Nat.sub_le _ _)

theorem readNumber (h : Ready limits outcome s m) (hoperand : s.config.operand = none) {c : Char}
    {text : List Char} (htext : s.text = c :: text)
    (hkind : Lexeme.starting (some c) = .number) :
    Advances limits outcome (3 * s.text.length + m.calls.length)
      ((m.readNumber limits).checkHeight limits) := by
  have hlex : lex s.text = lexNumber s.text := by rw [htext, lex, hkind]; rfl
  have hpassed : (m.scan Scanner.passNumber).scanner.Holds (numberSpan s.text)
      (s.text.drop (numberSpan s.text).length)
      (lineAfter s.before + lineBreaks (numberSpan s.text)) := h.scan.passNumber
  have hscan : ((m.scan Scanner.passNumber).scan Scanner.ignore).scanner.Holds []
      (s.text.drop (numberSpan s.text).length)
      (lineAfter s.before + lineBreaks (numberSpan s.text)) := hpassed.ignore
  unfold lexNumber at hlex
  unfold Machine.readNumber
  simp only [hpassed.pending_eq, hscan.line_eq]
  unfold Token.ofLiteral
  cases hvalue : Binary64.ofText? (String.ofList (numberSpan s.text)) with
  | some value =>
      simp only [hvalue] at hlex ⊢
      exact h.takesLeaf hoperand (fun s => s.passNumber.ignore) hlex
        (by rw [Config.feed, hoperand]; rfl) (by rw [Expr.piece]; rfl) hscan
  | none =>
      -- A bad number is quoted as a whole.
      simp only [hvalue] at hlex ⊢
      have hnext : s.next limits = .refused (s.stop (.invalidNumber
          (String.ofList (numberSpan s.text))) s.before (numberSpan s.text)
          (s.text.drop (numberSpan s.text).length) s.config) := by
        rw [Stage.next_of_fits (.inl hoperand), Stage.takeWord, hlex]
      have hreport := Machine.report_fails limits (.invalidNumber
        (String.ofList (numberSpan s.text))) (numberSpan s.text) hscan h.carries.failure
          (lineAfter s.before + lineBreaks (numberSpan s.text))
      have hle : (m.scan Scanner.passNumber).scanner.rest.length ≤ m.scanner.rest.length := by
        rw [hpassed.rest_eq, h.scan.rest_eq, List.length_drop]
        exact Nat.sub_le _ _
      have hback := (hreport.of_scan (Nat.le_refl _)).of_scan hle
      rw [lineAfter_append] at hback ⊢
      exact h.fails hnext rfl hback

/-! ### Names and calls -/

/-- A name with a bracket right after it begins a call, or is refused at the bracket if there
are too many calls around it. -/
theorem beginCall (h : Ready limits outcome s m) (hoperand : s.config.operand = none)
    {name : String} {lexeme rest : List Char} (move : Scanner → Scanner)
    (hlex : lex s.text = .word (.function name) (lexeme ++ ['(']) rest)
    (hscan : (move m.scanner).Holds [] ('(' :: rest) (lineAfter s.before + lineBreaks lexeme)) :
    Advances limits outcome (3 * s.text.length + m.calls.length)
      (((m.scan move).beginCall limits name).checkHeight limits) := by
  have hfeed : s.config.feed (.function name) =
      .ok ⟨[], none, ⟨name, s.config.parts, []⟩ :: s.config.outer⟩ := by
    rw [Config.feed, hoperand]
    rfl
  have hlength : (m.scan move).calls.length = s.config.outer.length := by
    show m.calls.length = _
    rw [h.carries.calls, length_pendingCalls]
  unfold Machine.beginCall
  by_cases hmany : limits.callDepth ≤ (m.scan move).calls.length
  · have hnext : s.next limits = .refused (s.stop (.malformed (.tooManyCalls limits.callDepth))
        (s.before ++ lexeme) ['('] rest s.config) := by
      rw [Stage.next_of_fits (.inl hoperand), Stage.takeWord, hlex]
      simp only [hfeed]
      rw [Stage.settle, if_pos (by rw [List.length_cons]; omega), List.dropLast_concat]
    have hrefuse := Machine.refuse_fails limits (.malformed (.tooManyCalls limits.callDepth))
      (m := m.scan move) hscan h.carries.failure
    have hle : (move m.scanner).rest.length ≤ m.scanner.rest.length := by
      obtain ⟨htext, -, -⟩ := lex_word hlex
      rw [hscan.rest_eq, h.scan.rest_eq, htext, List.length_append, List.length_append,
        List.length_cons, List.length_singleton]
      omega
    have hback := hrefuse.of_scan hle
    rw [lineAfter_append, lineAfter_append] at hback
    rw [if_pos hmany]
    exact h.fails hnext rfl hback
  · rw [if_neg hmany]
    have hcalls : (⟨name, m.builder, []⟩ :: m.calls : List PendingCall) =
        pendingCalls (⟨name, s.config.parts, []⟩ :: s.config.outer) := by
      rw [h.builder_of_none hoperand, h.carries.calls]
      rfl
    have hbegun := hscan.advance.ignore
    rw [Nat.add_assoc, ← lineBreaks_append] at hbegun
    have hadvances := h.takes
      (((m.scan move).scan fun s => s.advance.ignore).beginArgument ⟨name, m.builder, []⟩)
      hlex hfeed (ofRoot_builder _ rfl) hcalls h.carries.failure h.carries.quiet
      (by rw [List.length_cons]; omega) hbegun rfl
    exact hadvances

theorem readIdentifier (h : Ready limits outcome s m) (hoperand : s.config.operand = none)
    {c : Char} {text : List Char} (htext : s.text = c :: text)
    (hkind : Lexeme.starting (some c) = .identifier) :
    Advances limits outcome (3 * s.text.length + m.calls.length)
      ((m.readIdentifier limits).checkHeight limits) := by
  have hlex : lex s.text = lexName c text := by rw [htext, lex, hkind]; rfl
  have hscanned := h.scan
  rw [htext] at hscanned
  have hpassed : (m.scan Scanner.passIdentifier).scanner.Holds
      (c :: text.takeWhile continuesIdentifier) (text.dropWhile continuesIdentifier)
      (lineAfter s.before + lineBreaks (c :: text.takeWhile continuesIdentifier)) :=
    hscanned.passIdentifier
  have hscan : ((m.scan Scanner.passIdentifier).scan Scanner.ignore).scanner.Holds []
      (text.dropWhile continuesIdentifier)
      (lineAfter s.before + lineBreaks (c :: text.takeWhile continuesIdentifier)) :=
    hpassed.ignore
  unfold lexName at hlex
  unfold Machine.readIdentifier
  simp only [hpassed.pending_eq, hscan.peek_eq]
  by_cases hbracket : (text.dropWhile continuesIdentifier).head? = some '('
  · obtain ⟨rest, hrest⟩ := List.head?_eq_some_iff.mp hbracket
    rw [if_pos hbracket]
    rw [hrest] at hlex hscan
    exact h.beginCall hoperand (fun s => s.passIdentifier.ignore) hlex hscan
  · rw [if_neg hbracket]
    have hname : lex s.text =
        .word (.name (String.ofList (c :: text.takeWhile continuesIdentifier)))
        (c :: text.takeWhile continuesIdentifier) (text.dropWhile continuesIdentifier) := by
      rw [hlex]
      split
      · next rest hrest => rw [hrest] at hbracket; exact absurd rfl hbracket
      · rfl
    exact h.takesLeaf hoperand (fun s => s.passIdentifier.ignore) hname
      (by rw [Config.feed, hoperand]; rfl) (by rw [Expr.piece]; rfl) hscan

/-! ### Quoted text -/

/-- Quoted text that is left open is hung below the cursor before the mark of the failure. -/
theorem openText (h : Ready limits outcome s m) (hoperand : s.config.operand = none) {c : Char}
    {content : List Char} (move : Scanner → Scanner) (htext : s.text.take 1 = [c])
    (hlex : lex s.text = .openText content)
    (hscan : (move m.scanner).Holds [] [] (lineAfter (s.before ++ [c] ++ content))) :
    Advances limits outcome (3 * s.text.length + m.calls.length)
      ((((m.scan move).attach (.text (String.ofList content))).report limits .unterminatedText
        (lineAfter (s.before ++ [c] ++ content)) (String.ofList content)).checkHeight
          limits) := by
  have hnext : s.next limits = .refused (s.stop .unterminatedText (s.before ++ [c]) content []
      { s.config with operand := some (.text (String.ofList content)) }) := by
    rw [Stage.next_of_fits (.inl hoperand), Stage.takeWord, hlex, htext]
  have hbuilder : m.builder.attach (.text (String.ofList content)) = (Config.mk s.config.parts
      (some (.text (String.ofList content))) s.config.outer).draft.builder := by
    rw [h.builder_of_none hoperand]
    exact attach_operand (by rw [Expr.piece]; rfl)
  have hfails := Machine.report_fails limits .unterminatedText content
    (m := (m.scan move).attach (.text (String.ofList content))) hscan h.carries.failure
    (lineAfter (s.before ++ [c] ++ content))
  have htracks : Advances limits outcome _ _ := tracks_fails
    (m := (m.scan move).attach (.text (String.ofList content))) h.read hnext hfails
    hbuilder h.carries.calls h.carries.quiet
  refine htracks.mono ?_
  show 3 * (move m.scanner).rest.length + m.calls.length ≤ _
  rw [hscan.rest_eq, List.length_nil]
  omega

theorem readText (h : Ready limits outcome s m) (hoperand : s.config.operand = none) {c : Char}
    {text : List Char} (htext : s.text = c :: text)
    (hkind : Lexeme.starting (some c) = .quote) :
    Advances limits outcome (3 * s.text.length + m.calls.length)
      ((m.readText limits).checkHeight limits) := by
  have hlex : lex s.text = lexText c text := by rw [htext, lex, hkind]; rfl
  have hscanned := h.scan
  rw [htext] at hscanned
  have hpassed : (m.scan (Scanner.passQuoted c)).scanner.Holds
      (text.takeWhile (· ≠ c)) (text.dropWhile (· ≠ c))
      (lineAfter s.before + lineBreaks (c :: text.takeWhile (· ≠ c))) := hscanned.passQuoted
  have hscan : (((m.scan (Scanner.passQuoted c)).scan Scanner.ignore).attach
      (.text (String.ofList (text.takeWhile (· ≠ c))))).scanner.Holds []
      (text.dropWhile (· ≠ c))
      (lineAfter s.before + lineBreaks (c :: text.takeWhile (· ≠ c))) := hpassed.ignore
  unfold lexText at hlex
  unfold Machine.readText
  rw [hscanned.peek_eq, List.head?_cons]
  simp only [hpassed.pending_eq, hscan.atEnd_eq]
  cases hrest : text.dropWhile (· ≠ c) with
  | nil =>
      have hline : lineAfter s.before + lineBreaks (c :: text.takeWhile (· ≠ c)) =
          lineAfter (s.before ++ [c] ++ text.takeWhile (· ≠ c)) := by
        rw [lineAfter_append, List.append_assoc]
        rfl
      rw [hrest, hline] at hscan
      simp only [hrest] at hlex
      rw [List.isEmpty_nil, if_pos rfl, hscan.line_eq]
      exact h.openText hoperand (fun s => (s.passQuoted c).ignore) (by rw [htext]; rfl) hlex hscan
  | cons last rest =>
      rw [hrest] at hscan
      simp only [hrest] at hlex
      have hpast := hscan.advance.ignore
      rw [Nat.add_assoc, ← lineBreaks_append] at hpast
      exact h.takesLeaf hoperand (fun s => (s.passQuoted c).ignore.advance.ignore) hlex
        (by rw [Config.feed, hoperand]; rfl) (by rw [Expr.piece]; rfl) hpast

end Ready

end Formula
