/-
Trees kept in an array.

A node holds a value, a link to its parent and links to its children in order; a link is
the position of a node in the array, so it stays valid whatever happens to the tree around
it.  Node 0 is the root.  Nodes are never removed.  A tree grows in two ways: `add` hangs a
new leaf below a node as its last child, and `wrap` puts a new node between a node and its
parent.

Every node also carries its height: the number of levels below it.  A value may bring
levels of its own, which the caller of `add` states.  Heights only ever grow, so a new node
raises its ancestors one after the other, until it meets one that is high enough.
-/

namespace Formula

/-- The position of a node in its tree. -/
abbrev NodeId := Nat

/-- A node of a tree. -/
structure Node (α : Type) where
  /-- What the node holds. -/
  value : α
  /-- The node above, unless this is the root. -/
  parent : Option NodeId
  /-- The nodes directly below, in order. -/
  children : List NodeId
  /-- The number of levels below the node. -/
  height : Nat
  deriving DecidableEq

/-- A tree kept in an array. -/
structure Arena (α : Type) where
  /-- The nodes in the order of their creation, the root first. -/
  nodes : Array (Node α)
  deriving DecidableEq

namespace Arena

variable {α β : Type}

/-- The node that everything else hangs below. -/
def root : NodeId := 0

/-- The tree of one node, whose value brings `levels` levels of its own. -/
def single (value : α) (levels : Nat) : Arena α := ⟨#[⟨value, none, [], levels⟩]⟩

/-! ### Looking at a tree -/

/-- The number of nodes. -/
def size (t : Arena α) : Nat := t.nodes.size

/-- What a node holds. -/
def value? (t : Arena α) (id : NodeId) : Option α := t.nodes[id]?.map (·.value)

/-- The node directly above a node. -/
def parent? (t : Arena α) (id : NodeId) : Option NodeId := t.nodes[id]?.bind (·.parent)

/-- The nodes directly below a node, in order. -/
def children (t : Arena α) (id : NodeId) : List NodeId :=
  match t.nodes[id]? with
  | some node => node.children
  | none => []

/-- The child of a node that was added last. -/
def lastChild? (t : Arena α) (id : NodeId) : Option NodeId := (t.children id).getLast?

/-- The first child of the root. -/
def first? (t : Arena α) : Option NodeId := (t.children root).head?

/-- The number of levels below a node. -/
def heightAt (t : Arena α) (id : NodeId) : Nat :=
  match t.nodes[id]? with
  | some node => node.height
  | none => 0

/-- The number of levels below the root. -/
def height (t : Arena α) : Nat := t.heightAt root

/-- At most `fuel` nodes of the chain of parents that starts at a given link. -/
def climb (t : Arena α) : (fuel : Nat) → Option NodeId → List NodeId
  | 0, _ => []
  | _, none => []
  | fuel + 1, some id => id :: t.climb fuel (t.parent? id)

/-- The nodes above a node, nearest first.  A chain of parents is never longer than the
tree is large. -/
def ancestors (t : Arena α) (id : NodeId) : List NodeId := t.climb t.size (t.parent? id)

/-! ### Growing a tree -/

/-- Gives the node at a link at least the height `height`, its parent at least one more, and
so on for at most `fuel` nodes.  It stops at the first node that is high enough. -/
def raise (nodes : Array (Node α)) : (fuel : Nat) → Option NodeId → (height : Nat) →
    Array (Node α)
  | 0, _, _ => nodes
  | _, none, _ => nodes
  | fuel + 1, some id, height =>
    match nodes[id]? with
    | none => nodes
    | some node =>
      if height ≤ node.height then nodes
      else
        let nodes := nodes.modify id fun n => { n with height := height }
        raise nodes fuel node.parent (height + 1)

/-- Hangs a new leaf below `parent`, as its last child.  The new node is number `t.size`. -/
def add (t : Arena α) (parent : NodeId) (value : α) (levels : Nat) : Arena α :=
  let id := t.nodes.size
  let nodes := (t.nodes.push ⟨value, some parent, [], levels⟩).modify parent fun n =>
    { n with children := n.children ++ [id] }
  ⟨raise nodes nodes.size (some parent) (levels + 1)⟩

/-- Puts a new node between `node` and its parent.  The new node is number `t.size`; it takes
the place of `node` among the children of the parent, and has `node` as its only child.
Where there is no parent, at the root, the tree stays as it is. -/
def wrap (t : Arena α) (node : NodeId) (value : α) : Arena α :=
  match t.nodes[node]? with
  | none => t
  | some ⟨_, none, _, _⟩ => t
  | some ⟨_, some parent, _, height⟩ =>
    let id := t.nodes.size
    let nodes := (t.nodes.push ⟨value, some parent, [node], height + 1⟩).modify parent fun n =>
      { n with children := n.children.replace node id }
    let nodes := raise nodes nodes.size (some parent) (height + 2)
    ⟨nodes.modify node fun n => { n with parent := some id }⟩

/-- Puts a new node between `node` and its parent, if there is one. -/
def wrap? (t : Arena α) (node : NodeId) (value : α) : Option (Arena α) :=
  if (t.parent? node).isSome then some (t.wrap node value) else none

/-! ### How many nodes there are -/

theorem size_raise (nodes : Array (Node α)) (fuel : Nat) (link : Option NodeId) (height : Nat) :
    (raise nodes fuel link height).size = nodes.size := by
  induction fuel generalizing nodes link height with
  | zero => rfl
  | succ fuel ih =>
    cases link with
    | none => rfl
    | some id =>
      rw [raise]
      split
      · rfl
      · split
        · rfl
        · rw [ih, Array.size_modify]

/-- A new leaf is one more node. -/
@[simp] theorem size_add (t : Arena α) (parent : NodeId) (value : α) (levels : Nat) :
    (t.add parent value levels).size = t.size + 1 := by
  simp [size, add, size_raise]

/-- A new node around another one is one more node. -/
theorem size_wrap {t : Arena α} {node : NodeId} (value : α) (h : (t.parent? node).isSome) :
    (t.wrap node value).size = t.size + 1 := by
  unfold wrap
  rw [parent?] at h
  split
  · next heq => simp [heq] at h
  · next heq => simp [heq] at h
  · simp [size, size_raise]

end Arena

end Formula
