/-
Reading a formula: from a text to its tree.
-/
import Formula.Reading.Step
import Formula.Token.Equality
import Formula.Token.Json

namespace Formula

/-- What reading a text gives: a tree, which is complete only if there is no failure. -/
structure Parsed where
  tree : Tree
  failure : Option Failure

namespace Parsed

/-- Whether the text is a formula. -/
def isOk (parsed : Parsed) : Bool := parsed.failure.isNone

/-- The root of the expression; an empty formula has none. -/
def expression (parsed : Parsed) : Option NodeId := parsed.tree.first?

/-- Whether two results have equal trees and equal failures. -/
def equals (a b : Parsed) : Bool := a.tree.equals b.tree && a.failure == b.failure

/-- A failure as JSON, if there is one. -/
def failureJson (failure : Option Failure) : Json :=
  match failure with
  | some failure => failure.json
  | none => .null

/-- The result as JSON. -/
def json (parsed : Parsed) : Json :=
  .object [("tree", parsed.tree.json), ("error", failureJson parsed.failure)]

end Parsed

/-- The machine that has read a text to its end. -/
def read (limits : Limits) (source : String) : Machine := (Machine.start source).finish limits

/-- Reads a formula. -/
def parse (limits : Limits) (source : String) : Parsed :=
  let m := read limits source
  ⟨m.builder.tree, m.failure⟩

/-- Everything that happens while a formula is read, in order. -/
def events (limits : Limits) (source : String) : List Event :=
  let m := read limits source
  (Event.finished m.state m.builder.tree.size :: m.log).reverse

end Formula
