/-
What one step of the machine does.

Most steps work on the tree at hand, `Works`: they pass characters and let the tree grow, and
leave the calls around it alone.  A step can also begin a call, end one, or end an argument and
begin the next one.  `Proceeds` lists these cases, and every step is one of them, whatever the
machine.  So what is kept by each of them is kept by all steps.
-/
import Formula.Proofs.Reading.Building
import Formula.Proofs.Reading.Simulation
import Formula.Proofs.Source.Places

namespace Formula.Machine

/-- The trees under construction, the tree at hand first. -/
def builders (m : Machine) : List Builder := m.builder :: m.calls.map (·.builder)

/-- The machine works on the tree at hand. -/
structure Works (m m' : Machine) : Prop where
  scanner : m.scanner.Passes m'.scanner
  builder : m.builder.Grows m'.builder
  calls : m'.calls = m.calls

/-- What one step of a machine does. -/
inductive Proceeds (m m' : Machine) : Prop
  /-- It works on the tree at hand. -/
  | works (hactive : m.state.isTerminal = false) (hworks : m.Works m')
  /-- It begins a call, whose first argument becomes the tree at hand. -/
  | begins (name : String) (hactive : m.state.isTerminal = false)
      (hscanner : m.scanner.Passes m'.scanner) (hstate : m'.state = .readValue)
      (hbuilder : m'.builder = .ofRoot (.group .scope))
      (hcalls : m'.calls = ⟨name, m.builder, []⟩ :: m.calls)
  /-- It passes a comma behind an argument, and the next argument becomes the tree at hand. -/
  | separates (call : PendingCall) (outer : List PendingCall)
      (hterminal : m.state.isTerminal = true) (hbefore : m.calls = call :: outer)
      (hscanner : m.scanner.Passes m'.scanner) (hcomma : m.scanner.rest = ',' :: m'.scanner.rest)
      (hstate : m'.state = .readValue) (hbuilder : m'.builder = .ofRoot (.group .scope))
      (hcalls : m'.calls = { call with arguments := m.builder.tree :: call.arguments } :: outer)
  /-- It ends a call, and the tree that the call belongs to becomes the tree at hand. -/
  | ends (call : PendingCall) (outer : List PendingCall)
      (hterminal : m.state.isTerminal = true) (hbefore : m.calls = call :: outer)
      (hscanner : m.scanner.Passes m'.scanner) (hbuilder : call.builder.Grows m'.builder)
      (hcalls : m'.calls = outer)
  /-- It does nothing, since the whole text has been dealt with. -/
  | rests (hfinished : m.isFinished = true) (hsame : m' = m)

/-! ### Working on a tree -/

namespace Works

variable {m k : Machine}

theorem refl (m : Machine) : m.Works m := ⟨.refl, .refl, rfl⟩

theorem note (h : m.Works k) (event : Event) : m.Works (k.note event) :=
  ⟨h.scanner, h.builder, h.calls⟩

theorem enter (h : m.Works k) (state : State) : m.Works (k.enter state) :=
  ⟨h.scanner, h.builder, h.calls⟩

theorem attach (h : m.Works k) (token : Token) : m.Works (k.attach token) :=
  ⟨h.scanner, h.builder.attach token, h.calls⟩

theorem scan (h : m.Works k) {move : Scanner → Scanner}
    (hmove : k.scanner.Passes (move k.scanner)) : m.Works (k.scan move) :=
  ⟨h.scanner.trans hmove, h.builder, h.calls⟩

theorem ignore (h : m.Works k) : m.Works (k.scan Scanner.ignore) := h.scan (.ignore .refl)

theorem advance (h : m.Works k) : m.Works (k.scan Scanner.advance) := h.scan (.advance .refl)

/-- Passing a lexeme of one character. -/
theorem pass (h : m.Works k) : m.Works (k.scan fun s => s.advance.ignore) :=
  h.scan (.ignore (.advance .refl))

theorem skipBlanks (h : m.Works k) : m.Works (k.scan Scanner.skipBlanks) :=
  h.scan (.skipBlanks .refl)

/-! ### Failures -/

theorem report (h : m.Works k) (limits : Limits) (cause : Cause) (line : Nat)
    (fragment : String) : m.Works (k.report limits cause line fragment) := by
  have hahead : m.Works ((k.scan (Scanner.advanceBy (limits.window - fragment.length))).scan
      Scanner.ignore) := (h.scan (.advanceBy _ .refl)).ignore
  unfold Machine.report
  dsimp only
  split
  · exact (hahead.attach _).enter _
  · obtain ⟨hscanner, hbuilder, hcalls⟩ := (hahead.attach _).enter .failed
    exact ⟨hscanner, hbuilder, hcalls⟩

theorem failOn (h : m.Works k) (limits : Limits) (cause : Cause) (line : Nat) :
    m.Works (k.failOn limits cause line) := h.ignore.report _ _ _ _

theorem fail (h : m.Works k) (limits : Limits) (cause : Cause) : m.Works (k.fail limits cause) :=
  h.failOn _ _ _

theorem refuseOn (h : m.Works k) (limits : Limits) (cause : Cause) (line : Nat) :
    m.Works (k.refuseOn limits cause line) := h.advance.failOn _ _ _

theorem refuse (h : m.Works k) (limits : Limits) (cause : Cause) :
    m.Works (k.refuse limits cause) := h.advance.fail _ _

theorem reject (h : m.Works k) (limits : Limits) (problem : Problem) :
    m.Works (k.reject limits problem) := h.refuse _ _

theorem checkHeight (h : m.Works k) (limits : Limits) : m.Works (k.checkHeight limits) := by
  rw [Machine.checkHeight]
  split
  · exact h.fail _ _
  · exact h

/-! ### Values -/

theorem readNumber (h : m.Works k) (limits : Limits) : m.Works (k.readNumber limits) := by
  have hpassed : m.Works ((k.scan Scanner.passNumber).scan Scanner.ignore) :=
    (h.scan (.passNumber .refl)).ignore
  unfold Machine.readNumber
  dsimp only
  split
  · exact (hpassed.attach _).enter _
  · exact hpassed.report _ _ _ _

theorem readText (h : m.Works k) (limits : Limits) : m.Works (k.readText limits) := by
  unfold Machine.readText
  split
  · exact h.fail _ _
  · next quote _ =>
      have hpassed : m.Works ((k.scan (Scanner.passQuoted quote)).scan Scanner.ignore) :=
        (h.scan (.passQuoted quote .refl)).ignore
      dsimp only
      split
      · exact (hpassed.attach _).report _ _ _ _
      · exact (hpassed.attach _).pass.enter _

/-! ### Brackets and operators -/

theorem endOfText (h : m.Works k) (limits : Limits) : m.Works (k.endOfText limits) := by
  rw [Machine.endOfText]
  split
  · exact h.fail _ _
  · exact h.enter _

theorem readSeparator (h : m.Works k) (limits : Limits) : m.Works (k.readSeparator limits) := by
  rw [Machine.readSeparator]
  split
  · exact h.reject _ _
  · split
    · exact h.reject _ _
    · exact h.enter _

theorem readInfix (h : m.Works k) (limits : Limits) (op : Operator) :
    m.Works (k.readInfix limits op) := by
  unfold Machine.readInfix
  dsimp only
  split
  · exact h.pass.report _ _ _ _
  · next place hplace =>
      obtain ⟨hscanner, hbuilder, hcalls⟩ := h.pass
      cases place <;> exact ⟨hscanner, hbuilder.insert hplace, hcalls⟩

theorem readOperator (h : m.Works k) (limits : Limits) : m.Works (k.readOperator limits) := by
  have hskipped := h.skipBlanks
  unfold Machine.readOperator
  dsimp only
  cases Lexeme.starting (k.scan Scanner.skipBlanks).scanner.peek with
  | operator op => exact hskipped.readInfix _ _
  | closeBracket => exact hskipped.enter _
  | separator => exact hskipped.readSeparator _
  | endOfText => exact hskipped.endOfText _
  | number | identifier | quote | openBracket => exact hskipped.reject _ _
  | unknown c => exact hskipped.reject _ _
  | blank => exact hskipped

theorem enterGroup (h : m.Works k) : m.Works k.enterGroup := by
  obtain ⟨hscanner, hbuilder, hcalls⟩ := h.pass
  exact ⟨hscanner, hbuilder.openParen, hcalls⟩

theorem exitGroup (h : m.Works k) (limits : Limits) : m.Works (k.exitGroup limits) := by
  rw [Machine.exitGroup]
  split
  · next parent hclosing =>
      obtain ⟨hscanner, hbuilder, hcalls⟩ := h.pass
      exact ⟨hscanner, hbuilder.close hclosing, hcalls⟩
  · next root hclosing => exact ⟨h.scanner, h.builder.close hclosing, h.calls⟩
  · exact h.refuse _ _

/-- Expecting a value, unless a name comes, which may begin a call. -/
theorem readValue (h : m.Works k) (limits : Limits)
    (hname : Lexeme.starting k.scanner.skipBlanks.peek ≠ .identifier) :
    m.Works (k.readValue limits) := by
  have hskipped := h.skipBlanks
  unfold Machine.readValue
  dsimp only
  split
  · exact hskipped.readNumber _
  · next hidentifier => exact absurd hidentifier hname
  · exact hskipped.enter _
  · exact hskipped.enter _
  -- a closing bracket
  · exact hskipped.refuseOn _ _ _
  · exact hskipped.reject _ _
  · exact hskipped.enter _
  -- an operator
  · exact hskipped.refuseOn _ _ _
  · exact hskipped.refuse _ _
  -- a comma
  · exact hskipped.refuseOn _ _ _
  · exact hskipped.reject _ _
  -- the end of the text
  · exact hskipped.failOn _ _ _
  · exact hskipped.endOfText _
  -- anything else
  · exact hskipped.reject _ _
  · exact hskipped

end Works

/-! ### Steps -/

section

variable {m k : Machine} (limits : Limits)

/-- A tree of a root alone is not too high. -/
theorem checkHeight_of_ofRoot (h : m.builder = .ofRoot (.group .scope)) :
    m.checkHeight limits = m := by
  have hheight : m.builder.tree.height = 0 := by rw [h]; rfl
  rw [checkHeight, hheight]
  simp

/-- A name is a value, or begins a call. -/
theorem proceeds_readIdentifier (hactive : m.state.isTerminal = false) (h : m.Works k)
    (hbuilder : k.builder = m.builder) :
    m.Proceeds ((k.readIdentifier limits).checkHeight limits) := by
  have hpassed : m.Works ((k.scan Scanner.passIdentifier).scan Scanner.ignore) :=
    (h.scan (.passIdentifier .refl)).ignore
  unfold readIdentifier
  dsimp only
  split
  · rw [beginCall]
    split
    · exact .works hactive ((hpassed.reject _ _).checkHeight limits)
    · rw [checkHeight_of_ofRoot limits rfl]
      refine .begins (k.scan Scanner.passIdentifier).scanner.pending hactive
        hpassed.pass.scanner rfl rfl ?_
      rw [← hbuilder, ← h.calls]
      rfl
  · exact .works hactive (((hpassed.attach _).enter _).checkHeight limits)

theorem proceeds_readValue (hactive : m.state.isTerminal = false) (h : m.Works k)
    (hbuilder : k.builder = m.builder) :
    m.Proceeds ((k.readValue limits).checkHeight limits) := by
  by_cases hname : Lexeme.starting k.scanner.skipBlanks.peek = .identifier
  · have hread : k.readValue limits = (k.scan Scanner.skipBlanks).readIdentifier limits := by
      have hnext : Lexeme.starting (k.scan Scanner.skipBlanks).scanner.peek = .identifier := hname
      rw [readValue]
      simp only [hnext]
    rw [hread]
    exact proceeds_readIdentifier limits hactive h.skipBlanks hbuilder
  · exact .works hactive ((h.readValue limits hname).checkHeight limits)

/-- A machine with an unfinished tree works on it or begins a call. -/
theorem proceeds_active (hactive : m.state.isTerminal = false) : m.Proceeds (m.step limits) := by
  have hnoted : m.Works (m.note (.step m.state m.builder.current)) := (Works.refl m).note _
  have hbuilder : (m.note (.step m.state m.builder.current)).builder = m.builder := rfl
  rw [step_active hactive]
  generalize m.note (.step m.state m.builder.current) = k at hnoted hbuilder ⊢
  rw [act]
  cases k.state with
  | readValue => exact proceeds_readValue limits hactive hnoted hbuilder
  | readOperator => exact .works hactive ((hnoted.readOperator _).checkHeight limits)
  | enterGroup => exact .works hactive (hnoted.enterGroup.checkHeight limits)
  | exitGroup => exact .works hactive ((hnoted.exitGroup _).checkHeight limits)
  | readText => exact .works hactive ((hnoted.readText _).checkHeight limits)
  | failed | done => exact .works hactive (hnoted.checkHeight limits)

/-- A machine with a finished tree ends the innermost call or begins its next argument. -/
theorem proceeds_resume (hterminal : m.state.isTerminal = true) {call : PendingCall}
    {outer : List PendingCall} (hbefore : m.calls = call :: outer) :
    m.Proceeds ((({ m with calls := outer } : Machine).resume limits call).checkHeight limits) := by
  -- the machine as it would be if the call had never begun
  obtain ⟨base, hscanner, hbuilder, hcalls⟩ : ∃ base : Machine, base.scanner = m.scanner ∧
      base.builder = call.builder ∧ base.calls = outer :=
    ⟨{ m with builder := call.builder, calls := outer }, rfl, rfl, rfl⟩
  have hended : ∀ (k : Machine) (arguments : List Tree), m.scanner.Passes k.scanner →
      k.calls = outer → base.Works (k.endCall call arguments) := by
    intro k arguments hpasses houter
    exact ⟨hscanner ▸ hpasses, hbuilder ▸ .attach .refl _, houter.trans hcalls.symm⟩
  have hends : ∀ k : Machine, base.Works k → m.Proceeds k := fun k h =>
    .ends call outer hterminal hbefore (hscanner ▸ h.scanner) (hbuilder ▸ h.builder)
      (h.calls.trans hcalls)
  rw [resume]
  split
  · exact hends _ ((hended { m with calls := outer } _ .refl rfl).checkHeight limits)
  · unfold resumeCall
    dsimp only
    split
    · next hpeek =>
        obtain ⟨rest, hrest⟩ : ∃ rest, m.scanner.rest = ',' :: rest :=
          List.head?_eq_some_iff.mp hpeek
        rw [checkHeight_of_ofRoot limits rfl]
        refine .separates call outer hterminal hbefore (.ignore (.advance .refl)) ?_ rfl rfl rfl
        have hpassed : m.scanner.advance.ignore.rest = rest := by
          rw [Scanner.rest_ignore, Scanner.rest_advance, hrest]
          rfl
        exact hrest.trans (congrArg _ hpassed.symm)
    · split
      · exact hends _ (((hended _ _ (.advance .refl) rfl).fail _ _).checkHeight limits)
      · exact hends _ (((hended _ _ (.ignore (.advance .refl)) rfl).enter _).checkHeight limits)
    · exact hends _ (((hended _ _ (.advance .refl) rfl).fail _ _).checkHeight limits)

/-- **A step does nothing else**, whatever the machine. -/
theorem step_proceeds (m : Machine) : m.Proceeds (m.step limits) := by
  by_cases hterminal : m.state.isTerminal
  · cases hcalls : m.calls with
    | nil =>
        have hfinished : m.isFinished = true := by rw [isFinished, hterminal, hcalls]; rfl
        exact .rests hfinished (step_of_isFinished hfinished)
    | cons call outer =>
        rw [step_terminal hterminal hcalls]
        exact proceeds_resume limits hterminal hcalls
  · exact proceeds_active limits (by simpa using hterminal)

end

/-! ### What every step keeps -/

namespace Proceeds

variable {m m' : Machine}

/-- A step moves the scanner by passing characters and moving the mark. -/
theorem scanner (h : m.Proceeds m') : m.scanner.Passes m'.scanner := by
  cases h with
  | works _ hworks => exact hworks.scanner
  | begins _ _ hscanner => exact hscanner
  | separates _ _ _ _ hscanner => exact hscanner
  | ends _ _ _ _ hscanner => exact hscanner
  | rests _ hsame =>
      rw [hsame]
      exact .refl

/-- A step keeps the trees under construction in order. -/
theorem sound (h : m.Proceeds m') (hsound : ∀ b ∈ m.builders, b.Sound) :
    ∀ b ∈ m'.builders, b.Sound := by
  have hargument : (Builder.ofRoot (.group .scope)).Sound := .ofRoot rfl
  obtain ⟨hbuilder, hcalls⟩ := List.forall_mem_cons.mp hsound
  cases h with
  | works _ hworks =>
      rw [builders, hworks.calls]
      exact List.forall_mem_cons.mpr ⟨hbuilder.grows hworks.builder, hcalls⟩
  | begins name _ _ _ hroot hpushed =>
      rw [builders, hroot, hpushed]
      exact List.forall_mem_cons.mpr ⟨hargument, hsound⟩
  | separates call outer _ hbefore _ _ _ hroot hpushed =>
      rw [hbefore] at hcalls
      rw [builders, hroot, hpushed]
      exact List.forall_mem_cons.mpr ⟨hargument, hcalls⟩
  | ends call outer _ hbefore _ hgrows hpopped =>
      rw [hbefore] at hcalls
      obtain ⟨hcall, houter⟩ := List.forall_mem_cons.mp hcalls
      rw [builders, hpopped]
      exact List.forall_mem_cons.mpr ⟨hcall.grows hgrows, houter⟩
  | rests _ hsame =>
      rw [hsame]
      exact hsound

/-- A run that is under way goes on, unless it has just come to its end: the calls around it
stay where they are. -/
theorem outer_suffix (h : m.Proceeds m') {outer : List PendingCall} (houter : outer <:+ m.calls) :
    (m.state.isTerminal = true ∧ m.calls = outer) ∨ outer <:+ m'.calls := by
  cases h with
  | works _ hworks =>
      rw [hworks.calls]
      exact .inr houter
  | begins name _ _ _ _ hcalls =>
      rw [hcalls]
      exact .inr (houter.trans (List.suffix_cons _ _))
  | separates call rest hterminal hbefore _ _ _ _ hcalls =>
      rw [hbefore] at houter ⊢
      rw [hcalls]
      rcases List.suffix_cons_iff.mp houter with rfl | hrest
      · exact .inl ⟨hterminal, rfl⟩
      · exact .inr (hrest.trans (List.suffix_cons _ _))
  | ends call rest hterminal hbefore _ _ hcalls =>
      rw [hbefore] at houter ⊢
      rw [hcalls]
      rcases List.suffix_cons_iff.mp houter with rfl | hrest
      · exact .inl ⟨hterminal, rfl⟩
      · exact .inr hrest
  | rests _ hsame =>
      rw [hsame]
      exact .inr houter

end Proceeds

/-! ### Runs -/

section

variable {limits : Limits} {outcome : Outcome} {m : Machine}

/-- A run of one more step. -/
theorem run_succ (limits : Limits) (n : Nat) (m : Machine) :
    m.run limits (n + 1) = (m.run limits n).step limits := by
  rw [← run_run]
  by_cases hfinished : (m.run limits n).isFinished
  · rw [run_of_isFinished hfinished, step_of_isFinished hfinished]
  · rw [run, if_neg hfinished]
    rfl

/-- **What every step keeps holds all along a run.** -/
theorem run_keeps {P : Machine → Prop} (hstep : ∀ m, P m → P (m.step limits)) (h : P m) (n : Nat) :
    P (m.run limits n) := by
  induction n with
  | zero => exact h
  | succ n ih =>
      rw [run_succ]
      exact hstep _ ih

theorem run_passes (limits : Limits) (m : Machine) (n : Nat) :
    m.scanner.Passes (m.run limits n).scanner :=
  run_keeps (P := fun k => m.scanner.Passes k.scanner)
    (fun k hk => hk.trans (step_proceeds limits k).scanner) .refl n

/-- A machine that is on its way stays on it. -/
theorem tracks_run (h : Tracks limits outcome m) (n : Nat) :
    Tracks limits outcome (m.run limits n) := by
  refine run_keeps (fun k hk => ?_) h n
  by_cases hfinished : k.isFinished
  · rw [step_of_isFinished hfinished]
    exact hk
  · exact (hk.step (by simpa using hfinished)).1

end

end Formula.Machine
