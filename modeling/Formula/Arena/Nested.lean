/-
Trees as nested values.

A nested tree holds its subtrees themselves where a tree in an array holds links to them.
`Arena.nested?` reads the tree below the root this way.  The order in which the nodes were
created is lost, and so are the parents and the heights.
-/
import Formula.Arena

namespace Formula

/-- A value with trees below it. -/
inductive Nested (α : Type) where
  | node (value : α) (children : List (Nested α))

namespace Arena

variable {α : Type}

/-- The tree below a node, if it has at most `fuel` levels and all its links lead somewhere. -/
def nestedAt? (t : Arena α) : (fuel : Nat) → NodeId → Option (Nested α)
  | 0, _ => none
  | fuel + 1, id =>
    match t.nodes[id]? with
    | none => none
    | some node => (node.children.mapM (t.nestedAt? fuel)).map (Nested.node node.value)

/-- The whole tree.  It has no more levels than nodes. -/
def nested? (t : Arena α) : Option (Nested α) := t.nestedAt? t.size root

end Arena

end Formula
