/-
How the machine fails.

However a failure comes about, the machine does the same: it quotes the fragment at fault and
the text behind it, hangs the mark below the cursor and goes to the state from which the calls
around it are only ended.  `FailsWith` says what that changes.

Ending the calls puts the tree that holds the mark into the last call of the tree around it,
and so on up to the main tree: `failDraft`.
-/
import Formula.Proofs.Reading.Sketch
import Formula.Proofs.Reading.Stage
import Formula.Reading.Step

namespace Formula

/-- The failures among some events. -/
def warnings (log : List Event) : List Event := log.filter fun event => event.level = .warn

/-- The machine `m'` has failed where the machine `m` was. -/
structure FailsWith (m m' : Machine) (f : Failure) : Prop where
  state : m'.state = .failed
  builder : m'.builder = m.builder.attach (.error f.message)
  calls : m'.calls = m.calls
  failure : m'.failure = some f
  log : m'.log = .failing f :: m.log
  rest : m'.scanner.rest.length ≤ m.scanner.rest.length

/-- Where the scanner has got to before the failure does not matter. -/
theorem FailsWith.of_scan {m m' : Machine} {f : Failure} {move : Scanner → Scanner}
    (h : FailsWith (m.scan move) m' f)
    (hle : (move m.scanner).rest.length ≤ m.scanner.rest.length) : FailsWith m m' f :=
  ⟨h.state, h.builder, h.calls, h.failure, h.log, Nat.le_trans h.rest hle⟩

/-- What is quoted: the fragment, and the text behind it until the window is full. -/
def quotation (limits : Limits) (fragment rest : List Char) : String :=
  String.ofList fragment ++ String.ofList (rest.take (limits.window - fragment.length))

/-- The failure at the place where reading stops. -/
def Stop.failure (limits : Limits) (stop : Stop) : Failure :=
  ⟨stop.cause, stop.line, quotation limits stop.fragment stop.rest⟩

namespace Machine

variable (limits : Limits) (cause : Cause) {m : Machine} {fragment rest : List Char} {line : Nat}

theorem report_fails (fragment : List Char) (hscan : m.scanner.Holds [] rest line)
    (hfailure : m.failure = none) (at' : Nat) :
    FailsWith m (m.report limits cause at' (String.ofList fragment))
      ⟨cause, at', quotation limits fragment rest⟩ := by
  have hmoved := hscan.advanceBy (limits.window - fragment.length)
  have hpending := hmoved.pending_eq
  rw [List.nil_append] at hpending
  have hlength : (String.ofList fragment).length = fragment.length := by simp
  have hrest : m.scanner.rest = rest := hscan.rest_eq
  have hcontext : String.ofList fragment ++
      (Scanner.advanceBy (limits.window - fragment.length) m.scanner).pending =
        quotation limits fragment rest := by
    rw [hpending, quotation]
  unfold report
  simp only [hlength, scan, attach, enter, hfailure, note, hcontext]
  exact ⟨rfl, rfl, rfl, rfl, rfl, by simp⟩

/-- Failing at what is pending. -/
theorem failOn_fails (hscan : m.scanner.Holds fragment rest line) (hfailure : m.failure = none)
    (at' : Nat) : FailsWith m (m.failOn limits cause at')
      ⟨cause, at', quotation limits fragment rest⟩ := by
  have hignored : (m.scan Scanner.ignore).scanner.Holds [] rest line := hscan.ignore
  have hfails := report_fails limits cause fragment hignored hfailure at'
  rw [failOn, hscan.pending_eq]
  exact hfails.of_scan (Nat.le_refl _)

theorem fail_fails (hscan : m.scanner.Holds fragment rest line) (hfailure : m.failure = none) :
    FailsWith m (m.fail limits cause) ⟨cause, line, quotation limits fragment rest⟩ := by
  have hfails := failOn_fails limits cause hscan hfailure line
  rw [fail, hscan.line_eq]
  exact hfails

/-- Failing at the next character. -/
theorem refuseOn_fails {c : Char} (hscan : m.scanner.Holds [] (c :: rest) line)
    (hfailure : m.failure = none) (at' : Nat) :
    FailsWith m (m.refuseOn limits cause at') ⟨cause, at', quotation limits [c] rest⟩ := by
  have hmoved : (m.scan Scanner.advance).scanner.Holds [c] rest (line + lineBreaks [c]) :=
    hscan.advance
  have hfails := failOn_fails limits cause hmoved hfailure at'
  refine hfails.of_scan ?_
  rw [Scanner.rest_advance, hscan.rest_eq]
  exact Nat.le_succ _

theorem refuse_fails {c : Char} (hscan : m.scanner.Holds [] (c :: rest) line)
    (hfailure : m.failure = none) : FailsWith m (m.refuse limits cause)
      ⟨cause, line + lineBreaks [c], quotation limits [c] rest⟩ := by
  have hmoved : (m.scan Scanner.advance).scanner.Holds [c] rest (line + lineBreaks [c]) :=
    hscan.advance
  have hfails := refuseOn_fails limits cause hscan hfailure
    (line + lineBreaks [c])
  rw [refuse, fail, hmoved.line_eq]
  exact hfails

/-- A machine that has failed is not checked for its height. -/
theorem checkHeight_of_isTerminal (h : m.state.isTerminal = true) : m.checkHeight limits = m := by
  simp [checkHeight, h]

end Machine

/-! ### The tree around a failure -/

/-- A call as a leaf. -/
def callLeaf (name : String) (arguments : List Tree) : Piece Token :=
  .leaf (.call name arguments) (Token.call name arguments).levels

/-- The tree that remains when the calls around a tree are ended because reading failed in
it: each call keeps the tree inside as its last argument. -/
def failDraft (d : Draft Token) : List OpenCall → Draft Token
  | [] => d
  | call :: outer =>
    failDraft ((partsDraft (rootToken outer) call.parts none).hang
      (callLeaf call.name ((call.done.map Expr.argumentTree).reverse ++ [d.arena]))) outer

/-- The mark at the place where reading stops. -/
def Stop.mark (limits : Limits) (stop : Stop) : Token := .error (stop.failure limits).message

/-- The tree at hand when reading stops, with the mark below its cursor. -/
def Stop.innermost (limits : Limits) (stop : Stop) : Draft Token :=
  stop.config.draft.hang (.leaf (stop.mark limits) 0)

/-- The main tree when reading stops. -/
def Stop.draft (limits : Limits) (stop : Stop) : Draft Token :=
  failDraft (stop.innermost limits) stop.config.outer

end Formula
