/-
A tree under construction.

The cursor of a builder is the node that new leaves are hung below: the root, a pair of
brackets, or the operator that still collects its right operand.  An operator that comes in
takes what has been read as its left operand, by wrapping the right one of the nodes around
the cursor:

  * if it binds tighter than the operator at the cursor, it takes only the last operand of
    that operator;
  * if it binds as tightly, it takes that operator with both operands;
  * if it binds looser, it also takes the operators of its own level around the cursor.

So the depth of an operator in the tree reflects how tightly it binds, and operators of one
level group to the left.
-/
import Formula.Tree

namespace Formula

/-- A tree under construction, with the node that is being worked on. -/
structure Builder where
  tree : Tree
  cursor : NodeId

/-- How an operator finds its place next to what has been read. -/
inductive Placement where
  /-- It is the first operator after the operand `left`. -/
  | first (left : NodeId)
  /-- It binds tighter than `current` and takes its last operand. -/
  | tighter (current : Operator) (operand : NodeId)
  /-- It binds as tightly as the operator at the node `top`, and takes that. -/
  | level (top : NodeId)
  /-- It binds looser than `current` and takes the node `top` above it. -/
  | looser (current : Operator) (top : NodeId)

/-- The node that becomes the left operand. -/
def Placement.left : Placement → NodeId
  | first left => left
  | tighter _ operand => operand
  | level top => top
  | looser _ top => top

/-- What a closing bracket closes. -/
inductive Closing where
  /-- A pair of brackets, whose parent is the given node. -/
  | group (parent : NodeId)
  /-- A call, of which this tree is an argument with the given root. -/
  | call (root : NodeId)

namespace Builder

/-- The builder of a tree that has only its root. -/
def ofRoot (token : Token) : Builder := ⟨Tree.ofToken token, Arena.root⟩

/-- The token at the cursor. -/
def current (b : Builder) : Token := b.tree.token b.cursor

/-- Whether the tree is an argument of a call. -/
def isArgument (b : Builder) : Bool :=
  match b.tree.token Arena.root with
  | .group .scope => true
  | _ => false

/-- The cursor and the nodes above it, nearest first. -/
def path (b : Builder) : List NodeId := b.cursor :: b.tree.ancestors b.cursor

/-- Hangs a token below the cursor, which stays where it is. -/
def attach (b : Builder) (token : Token) : Builder :=
  { b with tree := b.tree.add b.cursor token }

/-! ### Brackets -/

/-- Opens a pair of brackets below the cursor and moves the cursor there. -/
def openParen (b : Builder) : Builder :=
  let id := b.tree.size
  ⟨b.tree.add b.cursor (.group .paren), id⟩

/-- The innermost pair of brackets that is still open. -/
def openParen? (b : Builder) : Option NodeId :=
  b.path.find? fun id => (b.tree.token id).isParen

/-- What the node `id` would be to a closing bracket that has come up to it. -/
def closingAt (b : Builder) (id : NodeId) : Option Closing :=
  match b.tree.token id with
  | .group .paren => (b.tree.parent? id).map .group
  | .group .scope => some (.call id)
  | _ => none

/-- What a closing bracket closes, if there is anything to close. -/
def closing? (b : Builder) : Option Closing := b.path.findSome? b.closingAt

/-! ### Operators -/

/-- The highest node that can be reached from `id` by going up through operators that bind
loosely. -/
def resurface (b : Builder) (id : NodeId) : NodeId :=
  let climbed := (b.tree.ancestors id).takeWhile fun above =>
    (b.tree.token above).operator?.any fun op => op.precedence = .term
  climbed.getLast?.getD id

/-- Where the operator `op` goes.  It has no place if there is nothing to its left. -/
def placement? (b : Builder) (op : Operator) : Option Placement :=
  match b.current.operator? with
  | some current =>
    match Operator.comparePrecedence current op, b.tree.lastChild? b.cursor with
    | .gt, some operand => some (.tighter current operand)
    | .gt, none => some (.level b.cursor)
    | .eq, _ => some (.level b.cursor)
    | .lt, _ => some (.looser current (b.resurface b.cursor))
  | none =>
    ((b.tree.lastChild? b.cursor).filter fun id => (b.tree.token id).isOperand).map .first

/-- Puts the operator `op` above the node that becomes its left operand, and moves the cursor
to the operator. -/
def insert (b : Builder) (op : Operator) (place : Placement) : Builder :=
  let id := b.tree.size
  ⟨b.tree.wrap place.left (.operator op), id⟩

end Builder

end Formula
