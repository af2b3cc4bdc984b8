/-
Tokens and trees as JSON.

A token is an object with its kind and, unless it is the root of a formula, its value.  A
tree is written nested: the token of a node and the list of the trees below it.
-/
import Formula.Arena.Nested
import Formula.Json
import Formula.Token

namespace Formula

/-- The name of a category. -/
def Category.name : Category → String
  | .other => "other"
  | .function => "function"
  | .value => "value"

/-- A category as JSON. -/
def Category.json (category : Category) : Json := .string category.name

/-- The name of a bracket. -/
def Bracket.name : Bracket → String
  | .paren => "paren"
  | .scope => "scope"

mutual

/-- A nested tree of JSON values as one value. -/
def Nested.json : Nested Json → Json
  | .node token children =>
    .object [("token", token), ("children", .array (Nested.jsonList children))]

/-- Nested trees of JSON values as values. -/
def Nested.jsonList : List (Nested Json) → List Json
  | [] => []
  | tree :: trees => tree.json :: Nested.jsonList trees

end

/-- A tree of JSON values as one value. -/
def Arena.json (tree : Arena Json) : Json :=
  match tree.nested? with
  | some nested => nested.json
  | none => .null

namespace Token

/-- A token that is an object with a kind and a value. -/
def tagged (kind : String) (value : Json) : Json :=
  .object [("kind", .string kind), ("value", value)]

/-- The value of a token other than a call. -/
def leafJson : Token → Json
  | empty => .object [("kind", .string "empty")]
  | error message => tagged "error" (.string message)
  | number x => tagged "number" (.number x)
  | identifier name => tagged "identity" (.string name)
  | operator op => tagged "binary_operator" (.string op.text)
  | group bracket => tagged "group" (.string bracket.name)
  | text content => tagged "text" (.string content)
  | call name _ => tagged "function" (.object [("name", .string name)])

/-- The value of a call whose arguments are given as trees of values. -/
def callJson (name : String) (arguments : List (Arena Json)) : Json :=
  tagged "function"
    (.object [("name", .string name), ("arguments", .array (arguments.map Arena.json))])

/-- A token as JSON. -/
def json (token : Token) : Json := token.fold leafJson callJson

end Token

/-- A tree as JSON. -/
def Tree.json (tree : Tree) : Json :=
  (tree.foldTokens Token.leafJson Token.callJson).json

end Formula
