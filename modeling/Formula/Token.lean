/-
Tokens: what the nodes of an expression tree hold.

The root of a formula holds `empty`, and its one child is the expression.  An operator has
its operands as children, a pair of brackets the expression inside.  A call has no children:
its arguments are trees of their own, each under a root that marks the scope of the
argument.  Where reading failed, a node with the message of the failure is left.
-/
import Formula.Arena
import Formula.Operator
import Formula.Number.Binary64

namespace Formula

/-- What marks off a part of a formula. -/
inductive Bracket where
  /-- A pair of brackets in the text. -/
  | paren
  /-- The bounds of one argument of a call. -/
  | scope
  deriving DecidableEq

/-- What a node of an expression tree holds. -/
inductive Token where
  /-- The root of a formula. -/
  | empty
  /-- The message of a failure, left where it happened. -/
  | error (message : String)
  /-- A literal number. -/
  | number (value : Binary64)
  /-- A name that stands for a value. -/
  | identifier (name : String)
  /-- A call of a function, with one tree for each argument. -/
  | call (name : String) (arguments : List (Arena Token))
  /-- An operator, whose operands are the children of the node. -/
  | operator (op : Operator)
  /-- A part of the formula that is marked off. -/
  | group (bracket : Bracket)
  /-- Quoted text, without the quotes. -/
  | text (content : String)
  deriving Inhabited

/-- An expression tree. -/
abbrev Tree := Arena Token

/-- The part that a token plays in an expression. -/
inductive Category where
  /-- Roots, failures and brackets. -/
  | other
  /-- Calls and operators. -/
  | function
  /-- Literals and names. -/
  | value
  deriving DecidableEq

namespace Token

/-- The part that the token plays in an expression. -/
def category : Token → Category
  | number _ | identifier _ | text _ => .value
  | call _ _ | operator _ => .function
  | empty | error _ | group _ => .other

/-- Whether a node with this token is complete as the left operand of an operator. -/
def isOperand : Token → Bool
  | group .paren => true
  | token => token.category ≠ .other

/-- The operator that the token holds. -/
def operator? : Token → Option Operator
  | operator op => some op
  | _ => none

/-- Whether the token is the mark of a failure. -/
def isError : Token → Bool
  | error _ => true
  | _ => false

/-- Whether the token is a pair of brackets. -/
def isParen : Token → Bool
  | group .paren => true
  | _ => false

/-- The number of levels that the token brings below its own node: a call reaches one level
further down than the highest of its arguments. -/
def levels : Token → Nat
  | call _ arguments => (arguments.map fun argument => argument.height + 1).foldl max 0
  | _ => 0

/-! ### Folding a token together with the trees inside it -/

mutual

/-- Computes something from a token: `leaf` says what a token other than a call gives, and
`call` what a call gives once every token in its arguments has been replaced by what it
gives. -/
def fold {β : Type} (leaf : Token → β) (call : String → List (Arena β) → β) : Token → β
  | .call name arguments => call name (foldTrees leaf call arguments [])
  | token => leaf token

/-- Folds the tokens of some trees; `done` are the trees before them, the last one first. -/
def foldTrees {β : Type} (leaf : Token → β) (call : String → List (Arena β) → β) :
    List (Arena Token) → (done : List (Arena β)) → List (Arena β)
  | [], done => done.reverse
  | ⟨⟨nodes⟩⟩ :: trees, done =>
    foldTrees leaf call trees (⟨foldNodes leaf call nodes #[]⟩ :: done)

/-- Folds the tokens of some nodes; `done` are the nodes before them. -/
def foldNodes {β : Type} (leaf : Token → β) (call : String → List (Arena β) → β) :
    List (Node Token) → (done : Array (Node β)) → Array (Node β)
  | [], done => done
  | ⟨token, parent, children, height⟩ :: nodes, done =>
    foldNodes leaf call nodes
      (done.push ⟨fold leaf call token, parent, children, height⟩)

end

end Token

/-- Replaces every token of a tree by what it gives. -/
def Arena.foldTokens {β : Type} (leaf : Token → β) (call : String → List (Arena β) → β)
    (tree : Tree) : Arena β :=
  ⟨Token.foldNodes leaf call tree.nodes.toList #[]⟩

/-! ### What folding does to a tree

The trees and nodes that are already done are kept in front of the others, so that a long
list is folded in constant space.  These are the equations without them.
-/

namespace Token

variable {β : Type} (leaf : Token → β) (call : String → List (Arena β) → β)

theorem foldNodes_eq (nodes : List (Node Token)) (done : Array (Node β)) :
    foldNodes leaf call nodes done = done ++ (nodes.map fun n =>
      (⟨fold leaf call n.value, n.parent, n.children, n.height⟩ : Node β)).toArray := by
  induction nodes generalizing done with
  | nil => simp [foldNodes]
  | cons n nodes ih =>
    rw [foldNodes, ih]
    apply Array.ext'
    simp

theorem foldTrees_eq (trees : List (Arena Token)) (done : List (Arena β)) :
    foldTrees leaf call trees done = done.reverse ++ trees.map (Arena.foldTokens leaf call) := by
  induction trees generalizing done with
  | nil => simp [foldTrees]
  | cons tree trees ih =>
    rw [foldTrees, ih]
    simp [Arena.foldTokens]

/-- A call is folded by folding its arguments. -/
theorem fold_call (name : String) (arguments : List (Arena Token)) :
    fold leaf call (.call name arguments) =
      call name (arguments.map (Arena.foldTokens leaf call)) := by
  rw [fold, foldTrees_eq]
  rfl

end Token

/-- Folding replaces the token of each node and keeps the links and heights. -/
theorem Arena.nodes_foldTokens {β : Type} (leaf : Token → β)
    (call : String → List (Arena β) → β) (tree : Tree) :
    (tree.foldTokens leaf call).nodes.toList = tree.nodes.toList.map fun n =>
      ⟨n.value.fold leaf call, n.parent, n.children, n.height⟩ := by
  simp [foldTokens, Token.foldNodes_eq]

end Formula
