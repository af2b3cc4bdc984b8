/-
What the machine holds at each moment.

`Tracks` relates a machine to the outcome that reading will come to.  A step of the machine is
smaller than a step from stage to stage: the machine first decides that a bracket or quoted
text comes next, and it ends an argument before it goes on with the call.  So there is one
case for each such moment, and in every one of them the outcome of the stage that the machine
is at is the outcome of the whole.

The lemmas here take the machine from what has been done with a word to the next moment:
`tracks_settle` if the word has been taken, `tracks_fails` if reading has stopped.
-/
import Formula.Proofs.Reading.Failing
import Formula.Proofs.Reading.Insertion

namespace Formula

/-- A call that is put aside while an argument is read. -/
def OpenCall.pending (call : OpenCall) (outer : List OpenCall) : PendingCall :=
  ⟨call.name, (partsDraft (rootToken outer) call.parts none).builder,
    call.done.map Expr.argumentTree⟩

/-- The calls that are put aside. -/
def pendingCalls : List OpenCall → List PendingCall
  | [] => []
  | call :: outer => call.pending outer :: pendingCalls outer

/-- What the machine does next where a configuration has been reached. -/
def Config.state (c : Config) : State :=
  match c.operand with
  | none => .readValue
  | some _ => .readOperator

/-- The tree at hand is complete: nothing is open in it but operators with both operands. -/
def Config.IsComplete (c : Config) : Prop :=
  openBrackets c.parts = 0 ∧ (c.operand = none → c.parts = [])

/-- The machine holds what has been read, apart from the cursor. -/
structure Carries (limits : Limits) (s : Stage) (m : Machine) : Prop where
  tree : m.builder.tree = s.config.draft.arena
  calls : m.calls = pendingCalls s.config.outer
  failure : m.failure = none
  quiet : warnings m.log = []
  ordered : s.config.Ordered
  admitted : s.config.Admitted limits

/-- What comes next where the machine has already decided what it is. -/
def Stage.Promises (s : Stage) : State → Prop
  | .enterGroup => s.config.operand = none ∧ ∃ rest, s.text = '(' :: rest
  | .exitGroup =>
    (∃ rest, s.text = ')' :: rest) ∧ (s.config.operand = none → s.config.parts = [])
  | .readText => s.config.operand = none ∧
    ∃ quote rest, s.text = quote :: rest ∧ Lexeme.starting (some quote) = .quote
  | .done => s.config.outer ≠ [] ∧ s.config.IsComplete ∧ (s.text = [] ∨
    (∃ rest, s.text = ')' :: rest) ∨ (s.config.operand.isSome ∧ ∃ rest, s.text = ',' :: rest))
  | _ => False

/-- The machine is on its way to the outcome. -/
inductive Tracks (limits : Limits) (outcome : Outcome) (m : Machine) : Prop
  /-- The machine is about to read the next word. -/
  | reading (s : Stage) (hread : s.read limits = outcome) (hcarries : Carries limits s m)
      (hcursor : m.builder.cursor = s.config.draft.cursor)
      (hscan : m.scanner.Holds [] s.rest (lineAfter s.passed))
      (hstate : m.state = s.config.state)
  /-- The machine has seen what the next word is, and has not passed it. -/
  | inside (s : Stage) (hread : s.read limits = outcome) (hcarries : Carries limits s m)
      (hcursor : m.builder.cursor = s.config.draft.cursor ∨ m.state = .done)
      (hscan : m.scanner.Holds [] s.text (lineAfter s.before)) (hstate : s.Promises m.state)
  /-- The machine has failed and ends the calls around the failure. -/
  | failing (stop : Stop) (houtcome : outcome = .refused stop) (d : Draft Token)
      (outer : List OpenCall) (hdraft : failDraft d outer = stop.draft limits)
      (hstate : m.state = .failed) (htree : m.builder.tree = d.arena)
      (hcalls : m.calls = pendingCalls outer) (hfailure : m.failure = some (stop.failure limits))
      (hwarnings : warnings m.log = [.failing (stop.failure limits)])
  /-- The machine has read the whole text. -/
  | complete (f : Option Expr) (houtcome : outcome = .accepted f) (hstate : m.state = .done)
      (htree : m.builder.tree = (formulaDraft f).arena) (hcalls : m.calls = [])
      (hfailure : m.failure = none) (hwarnings : warnings m.log = [])

theorem length_pendingCalls (outer : List OpenCall) :
    (pendingCalls outer).length = outer.length := by
  induction outer with
  | nil => rfl
  | cons call outer ih => rw [pendingCalls, List.length_cons, List.length_cons, ih]

theorem builder_eq {b : Builder} {d : Draft Token} (htree : b.tree = d.arena)
    (hcursor : b.cursor = d.cursor) : b = d.builder := by
  cases b
  cases htree
  cases hcursor
  rfl

/-- A tree of a root alone. -/
theorem ofRoot_builder (root : Token) (hroot : root.levels = 0) :
    Builder.ofRoot root = (partsDraft root [] none).builder := by
  rw [Builder.ofRoot, Tree.ofToken, hroot]
  rfl

/-- Hanging a leaf below the cursor, where a value has to come. -/
theorem attach_operand {root : Token} {parts : List OpenPart} {e : Expr} {token : Token}
    (he : e.piece = .leaf token token.levels) :
    (partsDraft root parts none).builder.attach token =
      (partsDraft root parts (some e)).builder := by
  rw [Draft.attach_builder, ← he]
  rfl

theorem piece_call (name : String) (es : List Expr) :
    (Expr.call name es).piece = callLeaf name (es.map Expr.argumentTree) := by
  rw [Expr.piece, Expr.trees_eq_map]
  rfl

/-- A call that has been ended hangs where a value had to come. -/
theorem close_builder (call : OpenCall) (outer : List OpenCall) :
    (partsDraft (rootToken outer) call.parts none).builder.attach
        (.call call.name (call.done.map Expr.argumentTree).reverse) =
      (call.close outer).draft.builder := by
  refine attach_operand ?_
  rw [piece_call, List.map_reverse]
  rfl

/-! ### From a word to the next moment -/

section

variable {limits : Limits} {outcome : Outcome} {s : Stage} {m m' : Machine}

/-- A machine that has failed where a configuration was. -/
theorem tracks_fails {stop : Stop} (hread : s.read limits = outcome)
    (hnext : s.next limits = .refused stop) (hfails : FailsWith m m' (stop.failure limits))
    (hbuilder : m.builder = stop.config.draft.builder)
    (hcalls : m.calls = pendingCalls stop.config.outer) (hquiet : warnings m.log = []) :
    Tracks limits outcome (m'.checkHeight limits) ∧
      (m'.checkHeight limits).potential ≤ 3 * m.scanner.rest.length + m.calls.length := by
  have hterminal : m'.state.isTerminal = true := by rw [hfails.state]; rfl
  rw [Machine.checkHeight_of_isTerminal limits hterminal]
  refine ⟨.failing stop ?_ (stop.innermost limits) stop.config.outer rfl hfails.state ?_ ?_
    hfails.failure ?_, ?_⟩
  · rw [← hread]
    exact Stage.read_refused hnext
  · rw [hfails.builder, hbuilder, Draft.attach_builder]
    rfl
  · rw [hfails.calls, hcalls]
  · rw [hfails.log, warnings, List.filter_cons_of_pos (by rfl)]
    exact congrArg _ hquiet
  · have hrest := hfails.rest
    rw [Machine.potential, hfails.state, hfails.calls, State.rank]
    omega

/-- A machine that has taken a word and has to check the height of the tree. -/
theorem tracks_settle {c : Config} {lexeme rest : List Char} (hread : s.read limits = outcome)
    (hnext : s.next limits = s.settle limits c lexeme rest)
    (hbuilder : m.builder = c.draft.builder) (hcalls : m.calls = pendingCalls c.outer)
    (hfailure : m.failure = none) (hquiet : warnings m.log = []) (hordered : c.Ordered)
    (hdepth : c.outer.length ≤ limits.callDepth)
    (hscan : m.scanner.Holds [] rest (lineAfter (s.before ++ lexeme)))
    (hstate : m.state = c.state) :
    Tracks limits outcome (m.checkHeight limits) ∧
      (m.checkHeight limits).potential ≤ 3 * rest.length + m.calls.length + 2 := by
  have hactive : m.state.isTerminal = false := by
    rw [hstate, Config.state]
    split <;> rfl
  have hheight : m.builder.tree.height = c.height := by
    rw [hbuilder, ← height_draft]
    rfl
  rw [Stage.settle, if_neg (Nat.not_lt_of_le hdepth)] at hnext
  by_cases htoo : limits.treeDepth < c.height
  · rw [if_pos htoo] at hnext
    have hcheck : m.checkHeight limits =
        (m.fail limits (.malformed (.tooDeep limits.treeDepth))).checkHeight limits := by
      have hfails := Machine.fail_fails limits (.malformed (.tooDeep limits.treeDepth)) hscan
        hfailure
      have hterminal : (m.fail limits
          (.malformed (.tooDeep limits.treeDepth))).state.isTerminal = true := by
        rw [hfails.state]
        rfl
      rw [Machine.checkHeight_of_isTerminal limits hterminal, Machine.checkHeight, hactive, hheight]
      simp [htoo]
    have hfails := Machine.fail_fails limits (.malformed (.tooDeep limits.treeDepth)) hscan
      hfailure
    have htracks := tracks_fails hread hnext (by
      simpa [Stop.failure, Stage.stop] using hfails) hbuilder hcalls hquiet
    rw [hcheck]
    refine ⟨htracks.1, Nat.le_trans htracks.2 ?_⟩
    rw [hscan.rest_eq]
    omega
  · rw [if_neg htoo] at hnext
    have hcheck : m.checkHeight limits = m := by
      rw [Machine.checkHeight, hactive, hheight]
      simp [htoo]
    rw [hcheck]
    refine ⟨.reading ⟨c, s.before ++ lexeme, rest⟩ ?_ ?_ ?_ hscan hstate, ?_⟩
    · rw [← hread]
      exact (Stage.read_onward hnext).symm
    · exact ⟨by rw [hbuilder]; rfl, hcalls, hfailure, hquiet, hordered,
        hdepth, Nat.le_of_not_lt htoo⟩
    · rw [hbuilder]
      rfl
    · have hrank : m.state.rank ≤ 2 := by cases m.state <;> decide
      rw [Machine.potential, hscan.rest_eq]
      omega

end

end Formula
