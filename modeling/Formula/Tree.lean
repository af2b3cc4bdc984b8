/-
Expression trees.

Growing an expression tree is growing a tree of tokens, where a new leaf counts the levels
that its token brings along.  A token that is put around a node counts only the levels of
that node.
-/
import Formula.Arena.Walk
import Formula.Token

namespace Formula.Tree

/-- The tree of one token. -/
def ofToken (token : Token) : Tree := Arena.single token token.levels

/-- Hangs a token below a node, as its last child. -/
def add (tree : Tree) (parent : NodeId) (token : Token) : Tree :=
  Arena.add tree parent token token.levels

/-- Puts a token between a node and its parent.  The root stays as it is. -/
def wrap (tree : Tree) (node : NodeId) (token : Token) : Tree := Arena.wrap tree node token

/-- Puts a token between a node and its parent, if there is one. -/
def wrap? (tree : Tree) (node : NodeId) (token : Token) : Option Tree :=
  Arena.wrap? tree node token

/-- The token of a node; `empty` where there is no node. -/
def token (tree : Tree) (id : NodeId) : Token := (tree.value? id).getD .empty

/-- The number of marks of failures in a token other than a call. -/
def leafErrors (token : Token) : Nat := if token.isError then 1 else 0

/-- The sum of some numbers. -/
def total (counts : List Nat) : Nat := counts.foldl (· + ·) 0

/-- The number of marks of failures in the arguments of a call. -/
def callErrors (arguments : List (Arena Nat)) : Nat :=
  total (arguments.map fun argument => total argument.values)

/-- The number of marks of failures in a tree, those in the arguments of calls included. -/
def errorCount (tree : Tree) : Nat :=
  total (tree.foldTokens leafErrors fun _ arguments => callErrors arguments).values

end Formula.Tree
