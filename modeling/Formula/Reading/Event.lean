/-
What happens while a formula is read.

Reading goes from state to state.  Each step, each rotation of the tree, each completed call
and the failure, if there is one, is an event.
-/
import Formula.Failure
import Formula.Token.Text

namespace Formula

/-- What the reader does next. -/
inductive State where
  /-- Reads a value: a number, a name, quoted text, a call or a bracket. -/
  | readValue
  /-- Reads what comes after a value: an operator, a closing bracket, a comma or the end. -/
  | readOperator
  /-- Opens a bracket. -/
  | enterGroup
  /-- Closes a bracket. -/
  | exitGroup
  /-- Reads quoted text. -/
  | readText
  /-- Nothing: the text is no formula. -/
  | failed
  /-- Nothing: the tree is complete. -/
  | done
  deriving DecidableEq

namespace State

/-- Whether the tree at hand is finished. -/
def isTerminal : State → Bool
  | failed | done => true
  | _ => false

/-- The name of the state. -/
def name : State → String
  | readValue => "ReadValue"
  | readOperator => "ReadOperator"
  | enterGroup => "EnterGroup"
  | exitGroup => "ExitGroup"
  | readText => "ReadText"
  | failed => "Failed"
  | done => "Done"

end State

/-- How important an event is. -/
inductive Level where
  | trace
  | debug
  | warn
  deriving DecidableEq

/-- The name of the level. -/
def Level.name : Level → String
  | trace => "TRACE"
  | debug => "DEBUG"
  | warn => "WARN"

/-- Something that happens while a formula is read. -/
inductive Event where
  /-- A step begins, with the given token at the cursor. -/
  | step (state : State) (token : Token)
  /-- An operator takes the last operand of the current one. -/
  | descending (incoming current : Operator)
  /-- An operator takes the current one and those around it that bind as loosely as itself. -/
  | resurfaced (incoming current : Operator)
  /-- A bracket closes a call, not a pair of brackets. -/
  | endOfCall
  /-- A call is complete. -/
  | call (name : String) (arguments : Nat)
  /-- Reading fails. -/
  | failing (failure : Failure)
  /-- Reading ends. -/
  | finished (state : State) (nodes : Nat)

namespace Event

/-- How important the event is. -/
def level : Event → Level
  | step _ _ | endOfCall => .trace
  | descending _ _ | resurfaced _ _ | call _ _ | finished _ _ => .debug
  | failing _ => .warn

/-- The text that describes the event. -/
def message : Event → String
  | step state token => state.name ++ " at " ++ token.display
  | descending incoming current =>
    "'" ++ incoming.text ++ "' binds tighter than '" ++ current.text ++ "', descending"
  | resurfaced incoming current =>
    "'" ++ incoming.text ++ "' binds looser than '" ++ current.text ++ "', resurfaced"
  | endOfCall => "')' closes the enclosing call"
  | call name arguments => "call " ++ name ++ "() with " ++ toString arguments ++ " arguments"
  | failing failure => failure.message
  | finished state nodes =>
    "parse finished in " ++ state.name ++ " with " ++ toString nodes ++ " nodes"

/-- The event on one line: its level and its text. -/
def line (event : Event) : String := event.level.name ++ " " ++ event.message

end Event

end Formula
