/-
Reading calls.

A name with a bracket right after it begins a call.  Each argument is a tree of its own,
under a root that marks its scope.  It ends at a comma or at a bracket that closes nothing
inside it; what follows is up to the call.
-/
import Formula.Reading.Machine

namespace Formula.Machine

/-- Begins an argument of a call. -/
def beginArgument (m : Machine) (call : PendingCall) : Machine :=
  { m with
    state := .readValue
    builder := .ofRoot (.group .scope)
    calls := call :: m.calls }

/-- Goes back to the tree that a call belongs to and hangs the call below its cursor. -/
def endCall (m : Machine) (call : PendingCall) (arguments : List Tree) : Machine :=
  { m with builder := call.builder.attach (.call call.name arguments.reverse) }

/-- Begins a call of the function `name`.  The bracket after the name comes next. -/
def beginCall (limits : Limits) (name : String) (m : Machine) : Machine :=
  if limits.callDepth ≤ m.calls.length then
    m.reject limits (.tooManyCalls limits.callDepth)
  else
    (m.scan fun s => s.advance.ignore).beginArgument ⟨name, m.builder, []⟩

/-- Goes on with a call after the tree of an argument is complete.  A comma begins the next
argument and a bracket ends the call.  An argument may be empty only if it is the only one;
then the call has none. -/
def resumeCall (limits : Limits) (call : PendingCall) (m : Machine) : Machine :=
  let argument := m.builder.tree
  let arguments := if argument.first?.isNone then call.arguments else argument :: call.arguments
  match m.scanner.peek with
  | some ',' =>
    (m.scan fun s => s.advance.ignore).beginArgument
      { call with arguments := argument :: call.arguments }
  | some ')' =>
    if argument.first?.isNone && !call.arguments.isEmpty then
      ((m.scan Scanner.advance).endCall call arguments).fail limits
        (.malformed .noValueBeforeEnd)
    else
      (((m.scan fun s => s.advance.ignore).note (.call call.name arguments.length)).endCall
        call arguments).enter .readOperator
  | _ => ((m.scan Scanner.advance).endCall call arguments).fail limits .unclosedGroup

/-- Goes on with the innermost call, which has been taken off the stack, after the tree of an
argument is finished.  A failure in an argument ends the call, which keeps the argument as
its last one. -/
def resume (limits : Limits) (call : PendingCall) (m : Machine) : Machine :=
  if m.state = .failed then m.endCall call (m.builder.tree :: call.arguments)
  else m.resumeCall limits call

end Formula.Machine
