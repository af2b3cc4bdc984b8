/-
Equality of tokens and of trees.

Trees are equal if their arrays are: the same tokens, links and heights, node by node in the
order of creation.  Numbers are compared as numbers, so both zeros are equal and a pattern
that stands for no number makes a tree differ from itself.
-/
import Formula.Token

namespace Formula

namespace Token

mutual

/-- Whether two tokens are equal. -/
def equals : Token → Token → Bool
  | empty, empty => true
  | error a, error b => a == b
  | number a, number b => a.equals b
  | identifier a, identifier b => a == b
  | call a as, call b bs => a == b && equalTrees as bs
  | operator a, operator b => a == b
  | group a, group b => a == b
  | text a, text b => a == b
  | _, _ => false

/-- Whether two lists of trees are equal, tree by tree. -/
def equalTrees : List (Arena Token) → List (Arena Token) → Bool
  | [], [] => true
  | ⟨⟨a⟩⟩ :: as, ⟨⟨b⟩⟩ :: bs => equalNodes a b && equalTrees as bs
  | _, _ => false

/-- Whether two lists of nodes are equal, node by node. -/
def equalNodes : List (Node Token) → List (Node Token) → Bool
  | [], [] => true
  | ⟨a, parentA, childrenA, heightA⟩ :: as, ⟨b, parentB, childrenB, heightB⟩ :: bs =>
    equals a b && parentA == parentB && childrenA == childrenB && heightA == heightB &&
      equalNodes as bs
  | _, _ => false

end

end Token

/-- Whether two trees are equal. -/
def Tree.equals (a b : Tree) : Bool := Token.equalNodes a.nodes.toList b.nodes.toList

end Formula
