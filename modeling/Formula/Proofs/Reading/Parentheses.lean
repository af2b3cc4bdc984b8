/-
What a step does with pairs of brackets.

A bracket of the text belongs to a pair of brackets or to a call.  The machine decides which when
it passes the bracket, so the brackets of pairs are told by the steps (`Machine.parenthesis?`).  A
closing bracket that is left to a call, or refused, is none of them.

Where a step works on the tree at hand, it passes at most one such bracket: `Handles` lists what
becomes of the tree.  Everything else that a step does to a tree is to hang leaves below the cursor,
the mark of a failure among them, and to put operators in their places (`Builder.Fills`).
-/
import Formula.Proofs.Reading.Pairs
import Formula.Proofs.Reading.Work

namespace Formula

/-- A bracket of the text that belongs to a pair of brackets, not to a call. -/
inductive Parenthesis where
  /-- An opening bracket, with the node of the pair. -/
  | opening (id : NodeId)
  | closing
  deriving DecidableEq

namespace Machine

/-- The bracket of a pair that is passed in the step from `m` to `m'`, if one is. -/
def parenthesis? (m m' : Machine) : Option Parenthesis :=
  if m'.scanner.rest.length < m.scanner.rest.length then
    match m.state, m.scanner.peek with
    | .enterGroup, some '(' => some (.opening m.builder.tree.size)
    | .exitGroup, some ')' => if m'.state = .failed then none else some .closing
    | _, _ => none
  else none

/-- No bracket of a pair is read on the way from one machine to the other. -/
def Fills (m k : Machine) : Prop := m.builder.Fills k.builder

namespace Fills

variable {m k : Machine}

theorem refl (m : Machine) : m.Fills m := Builder.Fills.refl

theorem note (h : m.Fills k) (event : Event) : m.Fills (k.note event) := h

theorem enter (h : m.Fills k) (state : State) : m.Fills (k.enter state) := h

theorem scan (h : m.Fills k) (move : Scanner → Scanner) : m.Fills (k.scan move) := h

theorem attach (h : m.Fills k) (token : Token) : m.Fills (k.attach token) :=
  Builder.Fills.attach h token

/-! ### Failures -/

theorem report (h : m.Fills k) (limits : Limits) (cause : Cause) (line : Nat)
    (fragment : String) : m.Fills (k.report limits cause line fragment) := by
  have hahead : m.Fills ((k.scan (Scanner.advanceBy (limits.window - fragment.length))).scan
      Scanner.ignore) := (h.scan _).scan _
  unfold Machine.report
  dsimp only
  split
  · exact (hahead.attach _).enter _
  · exact (hahead.attach _).enter .failed

theorem failOn (h : m.Fills k) (limits : Limits) (cause : Cause) (line : Nat) :
    m.Fills (k.failOn limits cause line) := (h.scan _).report _ _ _ _

theorem fail (h : m.Fills k) (limits : Limits) (cause : Cause) : m.Fills (k.fail limits cause) :=
  h.failOn _ _ _

theorem refuseOn (h : m.Fills k) (limits : Limits) (cause : Cause) (line : Nat) :
    m.Fills (k.refuseOn limits cause line) := (h.scan _).failOn _ _ _

theorem refuse (h : m.Fills k) (limits : Limits) (cause : Cause) :
    m.Fills (k.refuse limits cause) := (h.scan _).fail _ _

theorem reject (h : m.Fills k) (limits : Limits) (problem : Problem) :
    m.Fills (k.reject limits problem) := h.refuse _ _

theorem checkHeight (h : m.Fills k) (limits : Limits) : m.Fills (k.checkHeight limits) := by
  rw [Machine.checkHeight]
  split
  · exact h.fail _ _
  · exact h

/-! ### Values -/

theorem readNumber (h : m.Fills k) (limits : Limits) : m.Fills (k.readNumber limits) := by
  have hpassed : m.Fills ((k.scan Scanner.passNumber).scan Scanner.ignore) := (h.scan _).scan _
  unfold Machine.readNumber
  dsimp only
  split
  · exact (hpassed.attach _).enter _
  · exact hpassed.report _ _ _ _

/-- A name is a leaf, unless it begins a call. -/
theorem readIdentifier (h : m.Fills k) (limits : Limits)
    (hcalls : (k.readIdentifier limits).calls = k.calls) :
    m.Fills (k.readIdentifier limits) := by
  have hpassed : m.Fills ((k.scan Scanner.passIdentifier).scan Scanner.ignore) :=
    (h.scan _).scan _
  unfold Machine.readIdentifier beginCall at hcalls ⊢
  dsimp only at hcalls ⊢
  by_cases hbracket : ((k.scan Scanner.passIdentifier).scan Scanner.ignore).scanner.peek = some '('
  · rw [if_pos hbracket] at hcalls ⊢
    split
    · exact hpassed.reject _ _
    · next hlimit =>
        rw [if_neg hlimit] at hcalls
        exact absurd (congrArg List.length hcalls) (Nat.succ_ne_self _)
  · rw [if_neg hbracket]
    exact (hpassed.attach _).enter _

theorem readText (h : m.Fills k) (limits : Limits) : m.Fills (k.readText limits) := by
  unfold Machine.readText
  split
  · exact h.fail _ _
  · next quote _ =>
      have hpassed : m.Fills ((k.scan (Scanner.passQuoted quote)).scan Scanner.ignore) :=
        (h.scan _).scan _
      dsimp only
      split
      · exact (hpassed.attach _).report _ _ _ _
      · exact ((hpassed.attach _).scan _).enter _

/-! ### Operators and ends -/

theorem endOfText (h : m.Fills k) (limits : Limits) : m.Fills (k.endOfText limits) := by
  rw [Machine.endOfText]
  split
  · exact h.fail _ _
  · exact h.enter _

theorem readSeparator (h : m.Fills k) (limits : Limits) : m.Fills (k.readSeparator limits) := by
  rw [Machine.readSeparator]
  split
  · exact h.reject _ _
  · split
    · exact h.reject _ _
    · exact h.enter _

theorem readInfix (h : m.Fills k) (limits : Limits) (op : Operator) :
    m.Fills (k.readInfix limits op) := by
  have hpassed : m.Fills (k.scan fun s => s.advance.ignore) := h.scan _
  unfold Machine.readInfix
  dsimp only
  split
  · exact hpassed.report _ _ _ _
  · next place hplace => cases place <;> exact Builder.Fills.insert hpassed hplace

theorem readOperator (h : m.Fills k) (limits : Limits) : m.Fills (k.readOperator limits) := by
  have hskipped : m.Fills (k.scan Scanner.skipBlanks) := h.scan _
  unfold Machine.readOperator
  dsimp only
  cases Lexeme.starting (k.scan Scanner.skipBlanks).scanner.peek with
  | operator op => exact hskipped.readInfix _ _
  | closeBracket => exact hskipped.enter _
  | separator => exact hskipped.readSeparator _
  | endOfText => exact hskipped.endOfText _
  | number | identifier | quote | openBracket => exact hskipped.reject _ _
  | unknown c => exact hskipped.reject _ _
  | blank => exact hskipped

theorem readValue (h : m.Fills k) (limits : Limits)
    (hcalls : (k.readValue limits).calls = k.calls) : m.Fills (k.readValue limits) := by
  have hskipped : m.Fills (k.scan Scanner.skipBlanks) := h.scan _
  unfold Machine.readValue at hcalls ⊢
  dsimp only at hcalls ⊢
  split
  · exact hskipped.readNumber _
  · next hname =>
      simp only [hname] at hcalls
      exact hskipped.readIdentifier _ hcalls
  · exact hskipped.enter _
  · exact hskipped.enter _
  -- a closing bracket
  · exact hskipped.refuseOn _ _ _
  · exact hskipped.reject _ _
  · exact hskipped.enter _
  -- an operator
  · exact hskipped.refuseOn _ _ _
  · exact hskipped.refuse _ _
  -- a comma
  · exact hskipped.refuseOn _ _ _
  · exact hskipped.reject _ _
  -- the end of the text
  · exact hskipped.failOn _ _ _
  · exact hskipped.endOfText _
  -- anything else
  · exact hskipped.reject _ _
  · exact hskipped

/-- Going on with a call ends it, unless its next argument begins. -/
theorem resume (k : Machine) (limits : Limits) (call : PendingCall)
    (hcalls : (k.resume limits call).calls = k.calls) :
    ({ k with builder := call.builder } : Machine).Fills (k.resume limits call) := by
  have hended : ∀ (l : Machine) (arguments : List Tree),
      ({ k with builder := call.builder } : Machine).Fills (l.endCall call arguments) :=
    fun _ _ => Builder.Fills.attach .refl _
  unfold Machine.resume resumeCall at hcalls ⊢
  dsimp only at hcalls ⊢
  split
  · exact hended k _
  · next hfailed =>
      rw [if_neg hfailed] at hcalls
      split
      · next hpeek =>
          simp only [hpeek] at hcalls
          exact absurd (congrArg List.length hcalls) (Nat.succ_ne_self _)
      · split
        · exact (hended _ _).fail _ _
        · exact (hended _ _).enter _
      · exact (hended _ _).fail _ _

end Fills

/-! ### Steps -/

section

variable {limits : Limits} {outcome : Outcome} {m m' : Machine}

/-- What a step that works on the tree at hand does with pairs of brackets. -/
inductive Handles (m m' : Machine) : Prop
  /-- It passes no bracket of a pair. -/
  | fills (hnone : m.parenthesis? m' = none) (hfills : m.Fills m')
  /-- It opens a pair. -/
  | opens (hopening : m.parenthesis? m' = some (.opening m.builder.tree.size))
      (hfills : m.builder.openParen.Fills m'.builder)
  /-- It closes a pair. -/
  | closes (parent : NodeId) (hclosing : m.parenthesis? m' = some .closing)
      (hgroup : m.builder.closing? = some (.group parent))
      (hbuilder : m'.builder = { m.builder with cursor := parent })
  /-- It leaves a closing bracket to the call around the tree. -/
  | leaves (root : NodeId) (hnone : m.parenthesis? m' = none)
      (hcall : m.builder.closing? = some (.call root))
      (hbuilder : m'.builder = { m.builder with cursor := root })

/-- The brackets of pairs are passed where the machine has seen them. -/
theorem parenthesis?_eq_none (henter : m.state ≠ .enterGroup) (hexit : m.state ≠ .exitGroup) :
    m.parenthesis? m' = none := by
  unfold parenthesis?
  split
  · split
    · next hstate _ => exact absurd hstate henter
    · next hstate _ => exact absurd hstate hexit
    · rfl
  · rfl

theorem parenthesis?_of_enterGroup (hstate : m.state = .enterGroup)
    (hpeek : m.scanner.peek = some '(')
    (hpassed : m'.scanner.rest.length < m.scanner.rest.length) :
    m.parenthesis? m' = some (.opening m.builder.tree.size) := by
  rw [parenthesis?, if_pos hpassed, hstate, hpeek]
  rfl

theorem parenthesis?_of_exitGroup (hstate : m.state = .exitGroup)
    (hpeek : m.scanner.peek = some ')')
    (hpassed : m'.scanner.rest.length < m.scanner.rest.length) :
    m.parenthesis? m' = if m'.state = .failed then none else some .closing := by
  rw [parenthesis?, if_pos hpassed, hstate, hpeek]
  rfl

/-- A closing bracket that is refused is that of no pair. -/
theorem parenthesis?_of_failed (hstate : m.state = .exitGroup)
    (hpeek : m.scanner.peek = some ')') (hfailed : m'.state = .failed) :
    m.parenthesis? m' = none := by
  by_cases hpassed : m'.scanner.rest.length < m.scanner.rest.length
  · rw [parenthesis?_of_exitGroup hstate hpeek hpassed, if_pos hfailed]
  · exact if_neg hpassed

/-- A failure leaves its mark below the cursor, and nothing else. -/
theorem marks_refuse (limits : Limits) (cause : Cause) (m : Machine) :
    (m.refuse limits cause).state = .failed ∧
      ∃ message, (m.refuse limits cause).builder = m.builder.attach (.error message) := by
  unfold refuse fail failOn report
  dsimp only
  split <;> exact ⟨rfl, _, rfl⟩

/-- What the machine knows where it has seen a bracket of a pair. -/
theorem exists_promises (h : Tracks limits outcome m)
    (hstate : m.state = .enterGroup ∨ m.state = .exitGroup) : ∃ s : Stage,
      m.scanner.rest = s.text ∧ s.Promises m.state ∧ m.builder.tree.height ≤ limits.treeDepth := by
  cases h with
  | reading s _ _ _ _ hexpected =>
      rw [hexpected, Config.state] at hstate
      split at hstate <;> simp at hstate
  | inside s _ hcarries _ hscan hpromises =>
      refine ⟨s, hscan.rest_eq, hpromises, ?_⟩
      rw [hcarries.tree, height_draft]
      exact hcarries.admitted.2
  | failing _ _ _ _ _ hfailed => simp [hfailed] at hstate
  | complete _ _ hdone => simp [hdone] at hstate

theorem length_advance_lt {c : Char} {rest : List Char} (hrest : m.scanner.rest = c :: rest) :
    m.scanner.advance.ignore.rest.length < m.scanner.rest.length := by
  rw [Scanner.rest_ignore, Scanner.rest_advance, hrest]
  exact Nat.lt_succ_self _

/-- A step that has seen an opening bracket opens a pair. -/
theorem handles_enterGroup (h : Tracks limits outcome m) (hstate : m.state = .enterGroup) :
    m.Handles (m.step limits) := by
  obtain ⟨s, hrest, hpromises, -⟩ := exists_promises h (.inl hstate)
  rw [hstate] at hpromises
  obtain ⟨-, rest, htext⟩ := hpromises
  rw [htext] at hrest
  let k := m.note (.step m.state m.builder.current)
  have hstep : m.step limits = k.enterGroup.checkHeight limits := by
    rw [step_active (by rw [hstate]; rfl), act]
    simp only [k, note, hstate]
  -- the bracket has been passed even if the tree is too high now
  have hle : (m.step limits).scanner.rest.length ≤ k.enterGroup.scanner.rest.length := by
    rw [hstep]
    exact ((Works.refl k.enterGroup).checkHeight limits).scanner.length_rest_le
  have hpassed : (m.step limits).scanner.rest.length < m.scanner.rest.length :=
    Nat.lt_of_le_of_lt hle (length_advance_lt hrest)
  refine .opens (parenthesis?_of_enterGroup hstate (congrArg List.head? hrest) hpassed) ?_
  rw [hstep]
  exact (Fills.refl k.enterGroup).checkHeight limits

/-- A step that has seen a closing bracket closes a pair, leaves the bracket to the call, or
refuses it. -/
theorem handles_exitGroup (h : Tracks limits outcome m) (hstate : m.state = .exitGroup) :
    m.Handles (m.step limits) := by
  obtain ⟨s, hrest, hpromises, hheight⟩ := exists_promises h (.inr hstate)
  rw [hstate] at hpromises
  obtain ⟨⟨rest, htext⟩, -⟩ := hpromises
  rw [htext] at hrest
  have hpeek : m.scanner.peek = some ')' := congrArg List.head? hrest
  let k := m.note (.step m.state m.builder.current)
  have hstep : m.step limits = (k.exitGroup limits).checkHeight limits := by
    rw [step_active (by rw [hstate]; rfl), act]
    simp only [k, note, hstate]
  cases hclosing : m.builder.closing? with
  | none =>
      have hfailed := (marks_refuse limits .unclosedGroup k).1
      have hrefuse : m.step limits = k.refuse limits .unclosedGroup := by
        rw [hstep, exitGroup, show k.builder.closing? = none from hclosing]
        exact checkHeight_of_isTerminal limits (by rw [hfailed]; rfl)
      rw [hrefuse]
      exact .fills (parenthesis?_of_failed hstate hpeek hfailed) ((Fills.refl k).refuse limits _)
  | some closing =>
      cases closing with
      | group parent =>
          have hclose : m.step limits = { k.scan fun s => s.advance.ignore with
              builder := { m.builder with cursor := parent }, state := .readOperator } := by
            rw [hstep, exitGroup, show k.builder.closing? = some (.group parent) from hclosing]
            exact checkHeight_of_le hheight
          rw [hclose]
          exact .closes parent
            (parenthesis?_of_exitGroup hstate hpeek (length_advance_lt hrest)) hclosing rfl
      | call root =>
          have hleave : m.step limits = { k.note .endOfCall with
              builder := { m.builder with cursor := root }, state := .done } := by
            rw [hstep, exitGroup, show k.builder.closing? = some (.call root) from hclosing]
            exact checkHeight_of_isTerminal limits rfl
          rw [hleave]
          exact .leaves root (if_neg (Nat.lt_irrefl _)) hclosing rfl

theorem calls_checkHeight (limits : Limits) (m : Machine) :
    (m.checkHeight limits).calls = m.calls := ((Works.refl m).checkHeight limits).calls

/-- **What a step does with pairs of brackets** where it works on the tree at hand. -/
theorem handles_step (h : Tracks limits outcome m) (hactive : m.state.isTerminal = false)
    (hcalls : (m.step limits).calls = m.calls) : m.Handles (m.step limits) := by
  let k := m.note (.step m.state m.builder.current)
  have hnoted : m.Fills k := (Fills.refl m).note _
  have hstep : m.step limits = (k.act limits).checkHeight limits := step_active hactive
  rw [hstep, calls_checkHeight] at hcalls
  by_cases henter : m.state = .enterGroup
  · exact handles_enterGroup h henter
  by_cases hexit : m.state = .exitGroup
  · exact handles_exitGroup h hexit
  refine .fills (parenthesis?_eq_none henter hexit) ?_
  rw [hstep]
  rw [act] at hcalls ⊢
  cases hstate : k.state with
  | readValue =>
      rw [hstate] at hcalls
      exact (hnoted.readValue limits hcalls).checkHeight limits
  | readOperator => exact (hnoted.readOperator limits).checkHeight limits
  | readText => exact (hnoted.readText limits).checkHeight limits
  | enterGroup => exact absurd hstate henter
  | exitGroup => exact absurd hstate hexit
  | failed | done => exact hnoted.checkHeight limits

/-- A step that ends a call goes on with the tree that the call belongs to, and reads no bracket of
that tree. -/
theorem fills_step (hterminal : m.state.isTerminal = true) {call : PendingCall}
    {outer : List PendingCall} (hbefore : m.calls = call :: outer)
    (hcalls : (m.step limits).calls = outer) : call.builder.Fills (m.step limits).builder := by
  let k : Machine := { m with calls := outer }
  have hstep : m.step limits = (k.resume limits call).checkHeight limits :=
    step_terminal hterminal hbefore
  rw [hstep, calls_checkHeight] at hcalls
  rw [hstep]
  exact (Fills.resume k limits call hcalls).checkHeight limits

end

end Machine

end Formula
