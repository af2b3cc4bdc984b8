/-
The machine reads as the stages say.

Every step of the machine keeps it on its way and lowers its potential, `Tracks.step`.  Since
a machine runs until its potential is used up, it comes to the outcome of the stages:
`read_holds` says what it holds then.
-/
import Formula.Parsed
import Formula.Proofs.Reading.Choices

namespace Formula

/-! ### Going on with a call -/

/-- The machine has ended an argument and has taken its call off the stack. -/
structure Resumes (limits : Limits) (outcome : Outcome) (s : Stage) (call : OpenCall)
    (outer : List OpenCall) (m : Machine) : Prop where
  outer_eq : s.config.outer = call :: outer
  complete : s.config.IsComplete
  read : s.read limits = outcome
  tree : m.builder.tree = s.config.draft.arena
  calls : m.calls = pendingCalls outer
  failure : m.failure = none
  quiet : warnings m.log = []
  ordered : s.config.Ordered
  depth : outer.length + 1 ≤ limits.callDepth
  scan : m.scanner.Holds [] s.text (lineAfter s.before)

namespace Resumes

variable {limits : Limits} {outcome : Outcome} {s : Stage} {call : OpenCall}
  {outer : List OpenCall} {m : Machine}

/-- An argument is complete, or there is none. -/
theorem argument_cases (h : Resumes limits outcome s call outer m) :
    (s.config.operand = none ∧ m.builder.tree.first? = none) ∨
    ∃ e inner, s.config.operand = some e ∧ enclose s.config.parts e = (inner, none) ∧
      m.builder.tree = inner.argumentTree ∧ m.builder.tree.first? ≠ none := by
  obtain ⟨hopen, hparts⟩ := h.complete
  have hdraft : s.config.draft = partsDraft (.group .scope) s.config.parts s.config.operand := by
    rw [Config.draft, h.outer_eq, rootToken]
  cases hoperand : s.config.operand with
  | none =>
      refine .inl ⟨rfl, ?_⟩
      rw [h.tree, hdraft, hoperand, hparts hoperand]
      exact (Draft.first?_arena_eq_none _).mpr ⟨rfl, rfl⟩
  | some e =>
      rcases enclose_brackets s.config.parts e with ⟨inner, henclose, -⟩ | ⟨inner, rest, -, hrest⟩
      · have htree : m.builder.tree = inner.argumentTree := by
          rw [h.tree, hdraft, hoperand]
          exact arena_enclose henclose
        refine .inr ⟨e, inner, rfl, henclose, htree, fun hnone => ?_⟩
        rw [htree] at hnone
        obtain ⟨-, hnil⟩ := (Draft.first?_arena_eq_none _).mp hnone
        cases hnil
      · omega

/-- The tree that the call belongs to, with the call as its last operand. -/
theorem endCall_builder (m : Machine) {last : OpenCall} (hname : last.name = call.name)
    (hparts : last.parts = call.parts) :
    (m.endCall (call.pending outer) (last.done.map Expr.argumentTree)).builder =
      (last.close outer).draft.builder := by
  rw [← close_builder, hname, hparts]
  rfl

/-- The call ends with the arguments of `last`, and an operator may come. -/
theorem closes (h : Resumes limits outcome s call outer m) {rest : List Char}
    (htext : s.text = ')' :: rest) (last : OpenCall) (hname : last.name = call.name)
    (hparts : last.parts = call.parts)
    (hfeed : s.config.feed .closing = .ok (last.close outer)) (count : Nat) :
    Advances limits outcome (3 * s.text.length + m.calls.length)
      (((((m.scan fun s => s.advance.ignore).note (.call call.name count)).endCall
        (call.pending outer) (last.done.map Expr.argumentTree)).enter .readOperator).checkHeight
          limits) := by
  have hlex : lex s.text = .word .closing [')'] rest := by rw [htext]; rfl
  have hscanned := h.scan
  rw [htext] at hscanned
  have hscan := hscanned.advance.ignore
  rw [lineAfter_append] at hscan
  have hsettle : Advances limits outcome _ _ := tracks_settle (m :=
    ((((m.scan fun s => s.advance.ignore).note (.call call.name count)).endCall
      (call.pending outer) (last.done.map Expr.argumentTree)).enter .readOperator))
    h.read (Stage.next_of_feed hlex hfeed) (endCall_builder ((m.scan fun s =>
      s.advance.ignore).note (.call call.name count)) hname hparts) h.calls h.failure h.quiet
    (Config.feed_ordered h.ordered hfeed) (Nat.le_of_succ_le h.depth) hscan rfl
  refine hsettle.mono ?_
  show 3 * rest.length + m.calls.length + 2 ≤ _
  rw [htext, List.length_cons]
  omega

/-- The call is refused after the arguments of `last`. -/
theorem refuses (h : Resumes limits outcome s call outer m) (last : OpenCall) {cause : Cause}
    (hname : last.name = call.name) (hparts : last.parts = call.parts)
    (hcause : ∀ symbol, cause ≠ .missingRight symbol)
    (hnext : s.next limits = .refused (s.stopFirst cause (last.close outer))) :
    Advances limits outcome (3 * s.text.length + m.calls.length)
      ((((m.scan Scanner.advance).endCall (call.pending outer)
        (last.done.map Expr.argumentTree)).fail limits cause).checkHeight limits) := by
  have hscan : m.scanner.advance.Holds (s.text.take 1) (s.text.drop 1)
      (lineAfter (s.before ++ s.text.take 1)) := by
    have hscanned := h.scan
    cases htext : s.text with
    | nil =>
        rw [htext] at hscanned
        have hstay := hscanned.advance_nil
        rw [List.take_nil, List.append_nil]
        exact hstay
    | cons c rest =>
        rw [htext] at hscanned
        have hmoved := hscanned.advance
        rw [lineAfter_append] at hmoved
        exact hmoved
  have hfails := Machine.fail_fails limits cause
    (m := (m.scan Scanner.advance).endCall (call.pending outer)
      (last.done.map Expr.argumentTree)) hscan h.failure
  rw [← Stage.line_stopFirst hcause] at hfails
  have htracks : Advances limits outcome _ _ := tracks_fails h.read hnext hfails
    (endCall_builder (m.scan Scanner.advance) hname hparts) h.calls h.quiet
  refine htracks.mono ?_
  show 3 * m.scanner.advance.rest.length + m.calls.length ≤ _
  rw [hscan.rest_eq, List.length_drop]
  omega

/-- The next argument begins. -/
theorem separates (h : Resumes limits outcome s call outer m) {inner : Expr} {rest : List Char}
    (htext : s.text = ',' :: rest) (htree : m.builder.tree = inner.argumentTree)
    (hfeed : s.config.feed .comma = .ok ⟨[], none, call.push inner :: outer⟩) :
    Advances limits outcome (3 * s.text.length + m.calls.length)
      (((m.scan fun s => s.advance.ignore).beginArgument { call.pending outer with
        arguments := m.builder.tree :: (call.pending outer).arguments }).checkHeight limits) := by
  have hlex : lex s.text = .word .comma [','] rest := by rw [htext]; rfl
  have hscanned := h.scan
  rw [htext] at hscanned
  have hscan := hscanned.advance.ignore
  rw [lineAfter_append] at hscan
  have hcalls : { call.pending outer with
      arguments := m.builder.tree :: (call.pending outer).arguments } :: m.calls =
        pendingCalls (call.push inner :: outer) := by
    rw [h.calls, htree]
    rfl
  have hsettle : Advances limits outcome _ _ := tracks_settle (m :=
    (m.scan fun s => s.advance.ignore).beginArgument { call.pending outer with
      arguments := m.builder.tree :: (call.pending outer).arguments })
    h.read (Stage.next_of_feed hlex hfeed) (ofRoot_builder _ rfl) hcalls h.failure h.quiet
    (Config.feed_ordered h.ordered hfeed) h.depth hscan rfl
  refine hsettle.mono ?_
  show 3 * rest.length + (m.calls.length + 1) + 2 ≤ _
  rw [htext, List.length_cons]
  omega

/-- There is no argument, which only a call without arguments allows. -/
theorem resumeEmpty (h : Resumes limits outcome s call outer m)
    (hoperand : s.config.operand = none) (hnone : m.builder.tree.first? = none)
    (htext : s.text = [] ∨ ∃ rest, s.text = ')' :: rest) :
    Advances limits outcome (3 * s.text.length + m.calls.length)
      ((m.resumeCall limits (call.pending outer)).checkHeight limits) := by
  have hnil := h.complete.2 hoperand
  have hempty : (call.pending outer).arguments.isEmpty = call.done.isEmpty := List.isEmpty_map
  unfold Machine.resumeCall
  simp only [h.scan.peek_eq, hnone, Option.isNone_none, if_true, Bool.true_and]
  rcases htext with htext | ⟨rest, htext⟩
  · have hfinish : s.config.finish = .error (.unclosedGroup, call.close outer) := by
      rw [Config.finish, hoperand, hnil, h.outer_eq]
    have hrefuse := h.refuses call rfl rfl (by simp) (Stage.next_of_finish_error htext hfinish)
    rw [htext] at hrefuse ⊢
    exact hrefuse
  · have hlex : lex s.text = .word .closing [')'] rest := by rw [htext]; rfl
    have hfeed : s.config.feed .closing = s.config.closeEmpty := by
      rw [Config.feed, hoperand]
      rfl
    rw [Config.closeEmpty, hnil, h.outer_eq] at hfeed
    by_cases hdone : call.done.isEmpty
    · simp only [hdone, if_true] at hfeed
      have hcloses := h.closes htext call rfl rfl hfeed (call.pending outer).arguments.length
      simp only [htext, List.head?_cons, hempty, hdone]
      rw [← htext]
      exact hcloses
    · simp only [hdone, Bool.false_eq_true, if_false] at hfeed
      have hrefuse := h.refuses call rfl rfl (by simp)
        (Stage.next_of_feed_error (.inr (by rw [htext]; rfl)) hlex hfeed)
      simp only [htext, List.head?_cons, hempty, hdone]
      rw [← htext]
      exact hrefuse

/-- There is an argument, which becomes the last one of the call. -/
theorem resumeArgument (h : Resumes limits outcome s call outer m) {e inner : Expr}
    (hoperand : s.config.operand = some e) (henclose : enclose s.config.parts e = (inner, none))
    (htree : m.builder.tree = inner.argumentTree) (hsome : m.builder.tree.first? ≠ none)
    (htext : s.text = [] ∨ (∃ rest, s.text = ')' :: rest) ∨ ∃ rest, s.text = ',' :: rest) :
    Advances limits outcome (3 * s.text.length + m.calls.length)
      ((m.resumeCall limits (call.pending outer)).checkHeight limits) := by
  have hisSome : m.builder.tree.first?.isNone = false := by
    cases hfirst : m.builder.tree.first? with
    | none => exact absurd hfirst hsome
    | some => rfl
  have harguments : m.builder.tree :: (call.pending outer).arguments =
      (call.push inner).done.map Expr.argumentTree := by
    rw [htree]
    rfl
  unfold Machine.resumeCall
  simp only [h.scan.peek_eq, hisSome, Bool.false_eq_true, if_false, Bool.false_and]
  rcases htext with htext | ⟨rest, htext⟩ | ⟨rest, htext⟩
  · have hfinish : s.config.finish = .error (.unclosedGroup, (call.push inner).close outer) := by
      rw [Config.finish, hoperand]
      simp only [henclose, h.outer_eq]
    have hrefuse := h.refuses (call.push inner) rfl rfl (by simp)
      (Stage.next_of_finish_error htext hfinish)
    rw [← harguments] at hrefuse
    rw [htext] at hrefuse ⊢
    exact hrefuse
  · have hfeed : s.config.feed .closing = .ok ((call.push inner).close outer) := by
      rw [Config.feed, hoperand]
      simp only [Config.feedAfter, Config.closeAfter, henclose, h.outer_eq]
    have hcloses := h.closes htext (call.push inner) rfl rfl hfeed
      (m.builder.tree :: (call.pending outer).arguments).length
    rw [← harguments] at hcloses
    simp only [htext, List.head?_cons]
    rw [← htext]
    exact hcloses
  · have hfeed : s.config.feed .comma = .ok ⟨[], none, call.push inner :: outer⟩ := by
      rw [Config.feed, hoperand]
      simp only [Config.feedAfter, Config.separateAfter, henclose, h.outer_eq]
    have hseparates := h.separates htext htree hfeed
    simp only [htext, List.head?_cons]
    rw [← htext]
    exact hseparates

/-- **Going on with a call** after its argument. -/
theorem resumeCall (h : Resumes limits outcome s call outer m)
    (htext : s.text = [] ∨ (∃ rest, s.text = ')' :: rest) ∨
      (s.config.operand.isSome ∧ ∃ rest, s.text = ',' :: rest)) :
    Advances limits outcome (3 * s.text.length + m.calls.length)
      ((m.resumeCall limits (call.pending outer)).checkHeight limits) := by
  rcases h.argument_cases with ⟨hoperand, hnone⟩ | ⟨e, inner, hoperand, henclose, htree, hsome⟩
  · rcases htext with htext | hbracket | ⟨hisSome, -⟩
    · exact h.resumeEmpty hoperand hnone (.inl htext)
    · exact h.resumeEmpty hoperand hnone (.inr hbracket)
    · rw [hoperand] at hisSome
      cases hisSome
  · rcases htext with htext | hbracket | ⟨-, hcomma⟩
    · exact h.resumeArgument hoperand henclose htree hsome (.inl htext)
    · exact h.resumeArgument hoperand henclose htree hsome (.inr (.inl hbracket))
    · exact h.resumeArgument hoperand henclose htree hsome (.inr (.inr hcomma))

end Resumes

/-! ### Steps and runs -/

section

variable {limits : Limits} {outcome : Outcome} {s : Stage} {m : Machine}

/-- Recording that a step begins is no failure. -/
theorem Carries.noteStep (h : Carries limits s m) (state : State) (token : Token) :
    Carries limits s (m.note (.step state token)) :=
  ⟨h.tree, h.calls, h.failure, h.quiet, h.ordered, h.admitted⟩

/-- Behind the blanks of a stage. -/
theorem Ready.ofReading (hread : s.read limits = outcome) (hcarries : Carries limits s m)
    (hcursor : m.builder.cursor = s.config.draft.cursor)
    (hscan : m.scanner.Holds [] s.rest (lineAfter s.passed)) :
    Ready limits outcome s (m.scan Scanner.skipBlanks) := by
  obtain ⟨htree, hcalls, hfailure, hquiet, hordered, hadmitted⟩ := hcarries
  have hskipped := hscan.skipBlanks
  rw [lineAfter_append] at hskipped
  exact ⟨hread, ⟨htree, hcalls, hfailure, hquiet, hordered, hadmitted⟩, hcursor, hskipped⟩

/-- A machine with an unfinished tree does what its state says. -/
theorem step_active (h : m.state.isTerminal = false) : m.step limits =
    ((m.note (.step m.state m.builder.current)).act limits).checkHeight limits := by
  rw [Machine.step, h]
  rfl

/-- A machine with a finished tree goes on with the innermost call. -/
theorem step_terminal {call : PendingCall} {outer : List PendingCall}
    (h : m.state.isTerminal = true) (hcalls : m.calls = call :: outer) : m.step limits =
      (({ m with calls := outer } : Machine).resume limits call).checkHeight limits := by
  rw [Machine.step, h, hcalls]
  rfl

/-- A call is ended because reading failed in its argument. -/
theorem step_failing {d : Draft Token} {call : OpenCall} {outer : List OpenCall}
    (hstate : m.state = .failed) (htree : m.builder.tree = d.arena)
    (hcalls : m.calls = pendingCalls (call :: outer)) :
    m.step limits = { m with
      builder := ((partsDraft (rootToken outer) call.parts none).hang
        (callLeaf call.name ((call.done.map Expr.argumentTree).reverse ++ [d.arena]))).builder
      calls := pendingCalls outer } := by
  have hterminal : m.state.isTerminal = true := by rw [hstate]; rfl
  have hresume : ({ m with calls := pendingCalls outer } : Machine).resume limits
      (call.pending outer) = { m with
        builder := ((partsDraft (rootToken outer) call.parts none).hang
          (callLeaf call.name ((call.done.map Expr.argumentTree).reverse ++ [d.arena]))).builder
        calls := pendingCalls outer } := by
    rw [Machine.resume, if_pos hstate, Machine.endCall, htree, List.reverse_cons,
      OpenCall.pending, Draft.attach_builder]
    rfl
  rw [step_terminal hterminal hcalls, hresume]
  exact Machine.checkHeight_of_isTerminal limits hterminal

/-- A step at a word. -/
theorem step_reading (hread : s.read limits = outcome) (hcarries : Carries limits s m)
    (hcursor : m.builder.cursor = s.config.draft.cursor)
    (hscan : m.scanner.Holds [] s.rest (lineAfter s.passed)) (hstate : m.state = s.config.state) :
    Tracks limits outcome (m.step limits) ∧ (m.step limits).potential < m.potential := by
  have hready : Ready limits outcome s
      ((m.note (.step m.state m.builder.current)).scan Scanner.skipBlanks) :=
    .ofReading hread (hcarries.noteStep _ _) hcursor hscan
  have hle := (List.dropWhile_suffix Text.isBlank (l := s.rest)).length_le
  suffices hadvances : Advances limits outcome (3 * s.text.length + m.calls.length + 1)
      (m.step limits) by
    have hrank : m.state.rank = 2 := by
      rw [hstate, Config.state]
      split <;> rfl
    refine ⟨hadvances.1, Nat.lt_of_le_of_lt hadvances.2 ?_⟩
    rw [Machine.potential, hrank, hscan.rest_eq, Stage.text]
    omega
  have hactive : m.state.isTerminal = false := by
    rw [hstate, Config.state]
    split <;> rfl
  rw [step_active hactive, Machine.act]
  rw [Config.state] at hstate
  cases hoperand : s.config.operand with
  | none =>
      have hvalue : (m.note (.step m.state m.builder.current)).state = .readValue := by
        show m.state = _
        rw [hstate, hoperand]
      simp only [hvalue]
      exact hready.readValue hoperand hscan.line_eq
  | some e =>
      have hoperator : (m.note (.step m.state m.builder.current)).state = .readOperator := by
        show m.state = _
        rw [hstate, hoperand]
      simp only [hoperator]
      exact hready.readOperator hoperand

/-- A step at something that the machine has seen, the end of an argument apart. -/
theorem step_seen (hready : Ready limits outcome s (m.note (.step m.state m.builder.current)))
    (hactive : m.state.isTerminal = false) (hstate : s.Promises m.state) :
    Advances limits outcome (3 * s.text.length + m.calls.length) (m.step limits) := by
  have hnoted : (m.note (.step m.state m.builder.current)).state = m.state := rfl
  rw [step_active hactive, Machine.act, hnoted]
  cases hcase : m.state with
  | readValue | readOperator => rw [hcase] at hstate; exact hstate.elim
  | failed | done => rw [hcase] at hactive; cases hactive
  | enterGroup =>
      rw [hcase] at hstate hready
      obtain ⟨hoperand, rest, htext⟩ := hstate
      exact hready.enterGroup hoperand htext
  | exitGroup =>
      rw [hcase] at hstate hready
      obtain ⟨⟨rest, htext⟩, hparts⟩ := hstate
      exact hready.exitGroup htext hparts
  | readText =>
      rw [hcase] at hstate hready
      obtain ⟨hoperand, quote, rest, htext, hkind⟩ := hstate
      exact hready.readText hoperand htext hkind

/-- A step at the end of an argument, which takes the call off the stack. -/
theorem step_done (hread : s.read limits = outcome) (hcarries : Carries limits s m)
    (hscan : m.scanner.Holds [] s.text (lineAfter s.before)) (hdone : m.state = .done)
    (hstate : s.Promises .done) :
    Advances limits outcome (3 * s.text.length + (m.calls.length - 1)) (m.step limits) := by
  obtain ⟨houter, hcomplete, htext⟩ := hstate
  obtain ⟨call, outer, hcons⟩ := List.exists_cons_of_ne_nil houter
  have hcalls : m.calls = call.pending outer :: pendingCalls outer := by
    rw [hcarries.calls, hcons]
    rfl
  have hdepth := hcarries.admitted.1
  rw [hcons, List.length_cons] at hdepth
  have hresumes : Resumes limits outcome s call outer { m with calls := pendingCalls outer } :=
    ⟨hcons, hcomplete, hread, hcarries.tree, rfl, hcarries.failure, hcarries.quiet,
      hcarries.ordered, hdepth, hscan⟩
  have hfailed : ¬({ m with calls := pendingCalls outer } : Machine).state = .failed := by
    show ¬m.state = _
    rw [hdone]
    decide
  rw [step_terminal (by rw [hdone]; rfl) hcalls, Machine.resume, if_neg hfailed, hcalls]
  exact hresumes.resumeCall htext

/-- A step at something that the machine has seen. -/
theorem step_inside (hread : s.read limits = outcome) (hcarries : Carries limits s m)
    (hcursor : m.builder.cursor = s.config.draft.cursor ∨ m.state = .done)
    (hscan : m.scanner.Holds [] s.text (lineAfter s.before)) (hstate : s.Promises m.state) :
    Tracks limits outcome (m.step limits) ∧ (m.step limits).potential < m.potential := by
  rw [Machine.potential.eq_def m, hscan.rest_eq]
  by_cases hdone : m.state = .done
  · rw [hdone] at hstate
    obtain ⟨htracks, hpotential⟩ := step_done hread hcarries hscan hdone hstate
    have hcalls : 0 < m.calls.length := by
      rw [hcarries.calls, length_pendingCalls]
      exact List.length_pos_iff.mpr hstate.1
    exact ⟨htracks, by omega⟩
  · have hactive : m.state.isTerminal = false := by
      cases hcase : m.state with
      | done => exact absurd hcase hdone
      | failed => rw [hcase] at hstate; exact hstate.elim
      | _ => rfl
    have hrank : 0 < m.state.rank := by
      cases hcase : m.state with
      | done | failed => rw [hcase] at hactive; cases hactive
      | _ => decide
    have hready : Ready limits outcome s (m.note (.step m.state m.builder.current)) :=
      ⟨hread, hcarries.noteStep _ _, hcursor.resolve_right hdone, hscan⟩
    obtain ⟨htracks, hpotential⟩ := step_seen hready hactive hstate
    exact ⟨htracks, by omega⟩

/-- **A step keeps the machine on its way** and lowers its potential. -/
theorem Tracks.step (h : Tracks limits outcome m) (hactive : m.isFinished = false) :
    Tracks limits outcome (m.step limits) ∧ (m.step limits).potential < m.potential := by
  cases h with
  | reading s hread hcarries hcursor hscan hstate =>
      exact step_reading hread hcarries hcursor hscan hstate
  | inside s hread hcarries hcursor hscan hstate =>
      exact step_inside hread hcarries hcursor hscan hstate
  | failing stop houtcome d outer hdraft hstate htree hcalls hfailure hwarnings =>
      cases outer with
      | nil =>
          rw [Machine.isFinished, hstate, hcalls] at hactive
          cases hactive
      | cons call outer =>
          rw [step_failing hstate htree hcalls]
          refine ⟨.failing stop houtcome _ outer hdraft hstate rfl rfl hfailure hwarnings, ?_⟩
          rw [Machine.potential, Machine.potential, hcalls]
          show 3 * m.scanner.rest.length + (pendingCalls outer).length + m.state.rank < _
          rw [pendingCalls, List.length_cons]
          omega
  | complete f houtcome hstate htree hcalls hfailure hwarnings =>
      rw [Machine.isFinished, hstate, hcalls] at hactive
      cases hactive

/-- **A run keeps the machine on its way** and ends, since there is fuel for it. -/
theorem Tracks.run (h : Tracks limits outcome m) {fuel : Nat} (hfuel : m.potential ≤ fuel) :
    Tracks limits outcome (m.run limits fuel) ∧ (m.run limits fuel).isFinished = true := by
  induction fuel generalizing m with
  | zero =>
      refine ⟨h, ?_⟩
      rw [Machine.potential] at hfuel
      have hcalls : m.calls = [] := List.length_eq_zero_iff.mp (by omega)
      have hterminal : m.state.isTerminal = true := by
        cases hstate : m.state with
        | failed | done => rfl
        | _ =>
            rw [hstate] at hfuel
            simp [State.rank] at hfuel
      rw [Machine.run, Machine.isFinished, hterminal, hcalls]
      rfl
  | succ fuel ih =>
      rw [Machine.run]
      by_cases hfinished : m.isFinished
      · rw [if_pos hfinished]
        exact ⟨h, hfinished⟩
      · rw [if_neg hfinished]
        obtain ⟨hstep, hlower⟩ := h.step (by simpa using hfinished)
        exact ih hstep (by omega)

theorem tracks_start (limits : Limits) (source : String) :
    Tracks limits ((Stage.start source.toList).read limits) (Machine.start source) :=
  .reading (Stage.start source.toList) rfl
    ⟨rfl, rfl, rfl, rfl, Config.start_ordered, Nat.zero_le _, Nat.zero_le _⟩ rfl
    (Scanner.holds_ofText source) rfl

end

/-! ### What has been read at the end -/

/-- What the machine holds when it has come to an outcome. -/
def Outcome.Holds (limits : Limits) (m : Machine) : Outcome → Prop
  | .accepted f => m.state = .done ∧ m.builder.tree = (formulaDraft f).arena ∧
      m.failure = none ∧ warnings m.log = []
  | .refused stop => m.state = .failed ∧ m.builder.tree = (stop.draft limits).arena ∧
      m.failure = some (stop.failure limits) ∧
      warnings m.log = [.failing (stop.failure limits)]

theorem Tracks.holds {limits : Limits} {outcome : Outcome} {m : Machine}
    (h : Tracks limits outcome m) (hfinished : m.isFinished = true) : outcome.Holds limits m := by
  rw [Machine.isFinished, Bool.and_eq_true] at hfinished
  obtain ⟨hterminal, hempty⟩ := hfinished
  cases h with
  | reading s hread hcarries hcursor hscan hstate =>
      rw [hstate, Config.state] at hterminal
      split at hterminal <;> cases hterminal
  | inside s hread hcarries hcursor hscan hstate =>
      have houter : s.config.outer ≠ [] := by
        cases hcase : m.state with
        | done => rw [hcase] at hstate; exact hstate.1
        | failed => rw [hcase] at hstate; exact hstate.elim
        | _ => rw [hcase] at hterminal; cases hterminal
      obtain ⟨call, outer, hcons⟩ := List.exists_cons_of_ne_nil houter
      rw [hcarries.calls, hcons] at hempty
      cases hempty
  | failing stop houtcome d outer hdraft hstate htree hcalls hfailure hwarnings =>
      cases outer with
      | nil =>
          rw [houtcome]
          refine ⟨hstate, ?_, hfailure, hwarnings⟩
          rw [htree, ← hdraft]
          rfl
      | cons call outer =>
          rw [hcalls] at hempty
          cases hempty
  | complete f houtcome hstate htree hcalls hfailure hwarnings =>
      rw [houtcome]
      exact ⟨hstate, htree, hfailure, hwarnings⟩

/-- **The machine comes to the outcome of the stages**, for every text and all limits. -/
theorem read_holds (limits : Limits) (source : String) :
    ((Stage.start source.toList).read limits).Holds limits (read limits source) := by
  obtain ⟨htracks, hfinished⟩ := (tracks_start limits source).run (Nat.le_refl _)
  exact htracks.holds hfinished

section

variable {limits : Limits} {source : String}

/-- What is read of a text that the stages take for a formula. -/
theorem parse_of_accepted {f : Option Expr}
    (h : (Stage.start source.toList).read limits = .accepted f) :
    parse limits source = ⟨(formulaDraft f).arena, none⟩ := by
  have hholds := read_holds limits source
  rw [h] at hholds
  obtain ⟨-, htree, hfailure, -⟩ := hholds
  rw [parse, htree, hfailure]

/-- What is read of a text that the stages refuse. -/
theorem parse_of_refused {stop : Stop}
    (h : (Stage.start source.toList).read limits = .refused stop) :
    parse limits source = ⟨(stop.draft limits).arena, some (stop.failure limits)⟩ := by
  have hholds := read_holds limits source
  rw [h] at hholds
  obtain ⟨-, htree, hfailure, -⟩ := hholds
  rw [parse, htree, hfailure]

end

end Formula
