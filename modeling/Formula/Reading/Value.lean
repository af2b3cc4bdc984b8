/-
Reading values: numbers, names and quoted text.

Each becomes a leaf below the cursor, after which an operator is expected.
-/
import Formula.Number.Decimal
import Formula.Reading.Call

namespace Formula

/-- The token of a literal number, which has to be well formed and within the finite range. -/
def Token.ofLiteral (literal : String) : Except Cause Token :=
  match Binary64.ofText? literal with
  | some x => .ok (.number x)
  | none => .error (.invalidNumber literal)

namespace Machine

/-- Reads a number.  A bad one is quoted as a whole. -/
def readNumber (limits : Limits) (m : Machine) : Machine :=
  let m := m.scan Scanner.passNumber
  let literal := m.scanner.pending
  let m := m.scan Scanner.ignore
  match Token.ofLiteral literal with
  | .ok token => (m.attach token).enter .readOperator
  | .error cause => m.report limits cause m.scanner.lineNumber literal

/-- Reads a name, or begins a call if a bracket follows it immediately. -/
def readIdentifier (limits : Limits) (m : Machine) : Machine :=
  let m := m.scan Scanner.passIdentifier
  let name := m.scanner.pending
  let m := m.scan Scanner.ignore
  if m.scanner.peek = some '(' then m.beginCall limits name
  else (m.attach (.identifier name)).enter .readOperator

/-- Reads quoted text.  Text without a second quote still becomes a leaf, before the mark of
the failure. -/
def readText (limits : Limits) (m : Machine) : Machine :=
  match m.scanner.peek with
  | none => m.fail limits .unterminatedText
  | some quote =>
    let m := m.scan (Scanner.passQuoted quote)
    let content := m.scanner.pending
    let m := (m.scan Scanner.ignore).attach (.text content)
    if m.scanner.atEnd then
      m.report limits .unterminatedText m.scanner.lineNumber content
    else (m.scan fun s => s.advance.ignore).enter .readOperator

end Machine

end Formula
