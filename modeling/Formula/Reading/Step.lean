/-
The steps of the machine.

A step reads a lexeme or decides what it is that comes next; after each step the height of
the tree at hand is checked.  When the tree at hand is finished inside a call, the next step
goes on with the call.

Every step of a machine that has started in front of a text lowers `potential`: three for
each character that is still unread, one for each call, and up to two for the state.  A step
either passes a character, or stays in front of it and goes to a state that counts less, or
ends a call.  So a machine never takes more steps than its potential, which is what `run` is
given as fuel.
-/
import Formula.Reading.Value

namespace Formula

namespace Machine

/-- Goes on at the end of the text, where no operator waits for an operand. -/
def endOfText (limits : Limits) (m : Machine) : Machine :=
  if m.builder.openParen?.isSome then m.fail limits .unclosedGroup else m.enter .done

/-- Goes on at a comma after a value, which ends an argument. -/
def readSeparator (limits : Limits) (m : Machine) : Machine :=
  if !m.builder.isArgument then m.reject limits .commaOutsideCall
  else if m.builder.openParen?.isSome then m.reject limits .commaInsideBrackets
  else m.enter .done

/-- Expects a value.  If an operator waits for one and none comes, the failure is on the line
of the operator's end, before the blanks. -/
def readValue (limits : Limits) (m : Machine) : Machine :=
  let line := m.scanner.lineNumber
  let m := m.scan Scanner.skipBlanks
  match Lexeme.starting m.scanner.peek, m.builder.current with
  | .number, _ => m.readNumber limits
  | .identifier, _ => m.readIdentifier limits
  | .quote, _ => m.enter .readText
  | .openBracket, _ => m.enter .enterGroup
  | .closeBracket, .operator op => m.refuseOn limits (.missingRight op.symbol) line
  | .closeBracket, .group .paren => m.reject limits .emptyBrackets
  | .closeBracket, _ => m.enter .exitGroup
  | .operator _, .operator op => m.refuseOn limits (.missingRight op.symbol) line
  | .operator op, _ => m.refuse limits (.missingLeft op.symbol)
  | .separator, .operator op => m.refuseOn limits (.missingRight op.symbol) line
  | .separator, _ => m.reject limits .noValueBeforeComma
  | .endOfText, .operator op => m.failOn limits (.missingRight op.symbol) line
  | .endOfText, _ => m.endOfText limits
  | .unknown c, _ => m.reject limits (.unexpectedCharacter c)
  | .blank, _ => m

/-- Records how an operator finds its place, if it does not simply follow. -/
def notePlacement (m : Machine) (op : Operator) : Placement → Machine
  | .tighter current _ => m.note (.descending op current)
  | .looser current _ => m.note (.resurfaced op current)
  | _ => m

/-- Reads the operator `op`, which comes next, and puts it into the tree. -/
def readInfix (limits : Limits) (op : Operator) (m : Machine) : Machine :=
  let m := m.scan fun s => s.advance.ignore
  match m.builder.placement? op with
  | none => m.report limits (.missingLeft op.symbol) m.scanner.lineNumber op.text
  | some place =>
    let m := m.notePlacement op place
    { m with builder := m.builder.insert op place, state := .readValue }

/-- Expects an operator, or the end of what has been read. -/
def readOperator (limits : Limits) (m : Machine) : Machine :=
  let m := m.scan Scanner.skipBlanks
  match Lexeme.starting m.scanner.peek with
  | .operator op => m.readInfix limits op
  | .closeBracket => m.enter .exitGroup
  | .separator => m.readSeparator limits
  | .endOfText => m.endOfText limits
  | .number | .identifier | .quote | .openBracket => m.reject limits .noOperator
  | .unknown c => m.reject limits (.unexpectedCharacter c)
  | .blank => m

/-- Opens the bracket that comes next. -/
def enterGroup (m : Machine) : Machine :=
  let m := m.scan fun s => s.advance.ignore
  { m with builder := m.builder.openParen, state := .readValue }

/-- Closes a pair of brackets with the bracket that comes next.  A bracket that closes the
call around this tree is left to the call. -/
def exitGroup (limits : Limits) (m : Machine) : Machine :=
  match m.builder.closing? with
  | some (.group parent) =>
    let m := m.scan fun s => s.advance.ignore
    { m with builder := { m.builder with cursor := parent }, state := .readOperator }
  | some (.call root) =>
    { m.note .endOfCall with builder := { m.builder with cursor := root }, state := .done }
  | none => m.refuse limits .unclosedGroup

/-- Does what the state says. -/
def act (limits : Limits) (m : Machine) : Machine :=
  match m.state with
  | .readValue => m.readValue limits
  | .readOperator => m.readOperator limits
  | .enterGroup => m.enterGroup
  | .exitGroup => m.exitGroup limits
  | .readText => m.readText limits
  | .failed | .done => m

/-- Fails if the tree at hand is not finished and has too many levels. -/
def checkHeight (limits : Limits) (m : Machine) : Machine :=
  if !m.state.isTerminal && limits.treeDepth < m.builder.tree.height then
    m.fail limits (.malformed (.tooDeep limits.treeDepth))
  else m

/-- One step.  A finished machine stays as it is. -/
def step (limits : Limits) (m : Machine) : Machine :=
  if m.state.isTerminal then
    match m.calls with
    | [] => m
    | call :: outer => (({ m with calls := outer }).resume limits call).checkHeight limits
  else ((m.note (.step m.state m.builder.current)).act limits).checkHeight limits

/-- Steps until the machine is finished, at most `fuel` times. -/
def run (limits : Limits) : (fuel : Nat) → Machine → Machine
  | 0, m => m
  | fuel + 1, m => if m.isFinished then m else run limits fuel (m.step limits)

end Machine

/-- How much a state counts: two if it may turn to another one without passing a character,
one if it may only end there, and none if it is the end. -/
def State.rank : State → Nat
  | readValue | readOperator => 2
  | enterGroup | exitGroup | readText => 1
  | failed | done => 0

namespace Machine

/-- A bound on the number of steps that are left. -/
def potential (m : Machine) : Nat :=
  3 * m.scanner.rest.length + m.calls.length + m.state.rank

/-- Steps until the machine is finished. -/
def finish (limits : Limits) (m : Machine) : Machine := m.run limits m.potential

/-- A finished machine has no steps left to take. -/
theorem step_of_isFinished {limits : Limits} {m : Machine} (h : m.isFinished = true) :
    m.step limits = m := by
  simp only [isFinished, Bool.and_eq_true, List.isEmpty_iff] at h
  simp [step, h]

theorem run_of_isFinished {limits : Limits} {fuel : Nat} {m : Machine}
    (h : m.isFinished = true) : m.run limits fuel = m := by
  cases fuel with
  | zero => rfl
  | succ => simp [run, h]

/-- Running on after a pause is running without one. -/
theorem run_run (limits : Limits) (first second : Nat) (m : Machine) :
    (m.run limits first).run limits second = m.run limits (first + second) := by
  induction first generalizing m with
  | zero => rw [Nat.zero_add]; rfl
  | succ first ih =>
    cases hm : m.isFinished with
    | true => rw [run_of_isFinished hm, run_of_isFinished hm, run_of_isFinished hm]
    | false => simp only [run, hm, Nat.add_right_comm first 1 second]; exact ih _

end Machine

end Formula
