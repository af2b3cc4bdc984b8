/-
The machine that reads a formula.

The machine works on one tree at a time.  When a call begins, the tree at hand is put aside
together with the call, and the first argument becomes the tree at hand; when the call ends,
the tree that was put aside comes back.  So the calls around the text that is being read are
a stack, and nothing but the length of the text bounds the work.

A failure quotes the lexeme at which reading stopped and, if that is short, the text after
it.  It leaves a mark below the cursor, so that the tree shows the place.  Only the first
failure counts: the calls around it end as well, without a failure of their own.
-/
import Formula.Reading.Builder
import Formula.Reading.Event
import Formula.Settings
import Formula.Source.Literal

namespace Formula

/-- A call whose arguments are being read. -/
structure PendingCall where
  /-- The name of the function. -/
  name : String
  /-- The tree that the call belongs to. -/
  builder : Builder
  /-- The arguments that are complete, the last one first. -/
  arguments : List Tree

/-- The machine that reads a formula. -/
structure Machine where
  /-- The text, and how much of it has been read. -/
  scanner : Scanner
  /-- What to do next with the tree at hand. -/
  state : State
  /-- The tree at hand. -/
  builder : Builder
  /-- The calls around the tree at hand, the innermost one first. -/
  calls : List PendingCall
  /-- The failure, once there is one. -/
  failure : Option Failure
  /-- What has happened, the last event first. -/
  log : List Event

namespace Machine

/-- The machine in front of a text. -/
def start (source : String) : Machine where
  scanner := .ofText source
  state := .readValue
  builder := .ofRoot .empty
  calls := []
  failure := none
  log := []

/-- Whether the whole text has been dealt with. -/
def isFinished (m : Machine) : Bool := m.state.isTerminal && m.calls.isEmpty

/-- Records an event. -/
def note (m : Machine) (event : Event) : Machine := { m with log := event :: m.log }

/-- Goes to another state. -/
def enter (m : Machine) (state : State) : Machine := { m with state }

/-- Moves the scanner. -/
def scan (m : Machine) (move : Scanner → Scanner) : Machine :=
  { m with scanner := move m.scanner }

/-- Hangs a token below the cursor. -/
def attach (m : Machine) (token : Token) : Machine :=
  { m with builder := m.builder.attach token }

/-! ### Failures -/

/-- Fails on the line `line`.  The text that is quoted starts with `fragment` and goes on with
the text that follows, until it is as long as the window. -/
def report (limits : Limits) (cause : Cause) (line : Nat) (fragment : String)
    (m : Machine) : Machine :=
  let m := m.scan (Scanner.advanceBy (limits.window - fragment.length))
  let failure : Failure := ⟨cause, line, fragment ++ m.scanner.pending⟩
  let m := ((m.scan Scanner.ignore).attach (.error failure.message)).enter .failed
  match m.failure with
  | some _ => m
  | none => { m.note (.failing failure) with failure := some failure }

/-- Fails at the pending lexeme, on the line `line`. -/
def failOn (limits : Limits) (cause : Cause) (line : Nat) (m : Machine) : Machine :=
  let fragment := m.scanner.pending
  report limits cause line fragment (m.scan Scanner.ignore)

/-- Fails at the pending lexeme. -/
def fail (limits : Limits) (cause : Cause) (m : Machine) : Machine :=
  failOn limits cause m.scanner.lineNumber m

/-- Fails at the next character, on the line `line`. -/
def refuseOn (limits : Limits) (cause : Cause) (line : Nat) (m : Machine) : Machine :=
  failOn limits cause line (m.scan Scanner.advance)

/-- Fails at the next character.  The line is the one after that character. -/
def refuse (limits : Limits) (cause : Cause) (m : Machine) : Machine :=
  fail limits cause (m.scan Scanner.advance)

/-- Fails at the next character because no formula has it there. -/
def reject (limits : Limits) (problem : Problem) (m : Machine) : Machine :=
  refuse limits (.malformed problem) m

end Machine

end Formula
