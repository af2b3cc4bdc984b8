/-
Finished pieces of a tree, and where their nodes lie in the array.

A tree that is read from left to right grows in a simple way.  A node with one child is
created before the child.  A node with two children is created after everything below the
left one and before everything below the right one, because it is put around the left one
when that is complete.  So a finished piece of the tree fills a stretch of the array, and the
stretch is known as soon as its start and the node above the piece are: `Piece.nodes` writes
it down.

What the rest of the development needs of a stretch is how long it is, where the topmost node
of the piece lies in it, and that nothing but the link of that node depends on what is above.
-/
import Formula.Arena.Nested

namespace Formula

/-! ### Changing one element of a list that is put together from parts -/

theorem modify_append_right {α : Type} (xs ys : List α) (i : Nat) (f : α → α) :
    (xs ++ ys).modify (xs.length + i) f = xs ++ ys.modify i f := by
  induction xs with
  | nil => simp
  | cons x xs ih =>
      rw [List.length_cons, Nat.add_right_comm, List.cons_append, List.modify_succ_cons, ih]
      rfl

theorem modify_append_left {α : Type} {xs : List α} {i : Nat} (ys : List α) (f : α → α)
    (h : i < xs.length) : (xs ++ ys).modify i f = xs.modify i f ++ ys := by
  induction xs generalizing i with
  | nil => simp at h
  | cons x xs ih =>
      cases i with
      | zero => rfl
      | succ i =>
          have hi : i < xs.length := by simpa using h
          rw [List.cons_append, List.modify_succ_cons, ih hi, List.modify_succ_cons]
          rfl

/-- A finished piece of a tree. -/
inductive Piece (α : Type) where
  /-- A node without children, whose value brings `levels` levels of its own. -/
  | leaf (value : α) (levels : Nat)
  /-- A node with one child, which is created after it. -/
  | around (value : α) (inner : Piece α)
  /-- A node with two children, which is created between them. -/
  | between (value : α) (left right : Piece α)

namespace Piece

variable {α β : Type}

/-- The number of nodes. -/
def size : Piece α → Nat
  | leaf _ _ => 1
  | around _ inner => inner.size + 1
  | between _ left right => left.size + right.size + 1

/-- The number of levels below the topmost node. -/
def height : Piece α → Nat
  | leaf _ levels => levels
  | around _ inner => inner.height + 1
  | between _ left right => max (left.height + 1) (right.height + 1)

/-- What the topmost node holds. -/
def value : Piece α → α
  | leaf value _ => value
  | around value _ => value
  | between value _ _ => value

/-- The number of nodes of the piece that are older than its topmost one. -/
def lead : Piece α → Nat
  | between _ left _ => left.size
  | _ => 0

/-- The topmost node of a piece whose stretch starts at `base`. -/
def top (base : Nat) (p : Piece α) : Nat := base + p.lead

/-- The nodes directly below the topmost one. -/
def children (base : Nat) : Piece α → List Nat
  | leaf _ _ => []
  | around _ inner => [inner.top (base + 1)]
  | between _ left right => [left.top base, right.top (base + left.size + 1)]

/-- The nodes of a piece below the node `parent`, whose stretch starts at `base`. -/
def nodes (parent base : Nat) : Piece α → List (Node α)
  | leaf value levels => [⟨value, some parent, [], levels⟩]
  | around value inner =>
    ⟨value, some parent, [inner.top (base + 1)], inner.height + 1⟩ :: inner.nodes base (base + 1)
  | between value left right =>
    left.nodes (base + left.size) base ++
      ⟨value, some parent, [left.top base, right.top (base + left.size + 1)],
        max (left.height + 1) (right.height + 1)⟩ ::
      right.nodes (base + left.size) (base + left.size + 1)

/-- The piece with another value at every node. -/
def map (f : α → β) : Piece α → Piece β
  | leaf value levels => leaf (f value) levels
  | around value inner => around (f value) (inner.map f)
  | between value left right => between (f value) (left.map f) (right.map f)

/-- The piece as a nested tree. -/
def nested : Piece α → Nested α
  | leaf value _ => .node value []
  | around value inner => .node value [inner.nested]
  | between value left right => .node value [left.nested, right.nested]

/-- What the nodes of the piece hold, in the order of their creation. -/
def values : Piece α → List α
  | leaf value _ => [value]
  | around value inner => value :: inner.values
  | between value left right => left.values ++ value :: right.values

/-! ### The stretch of a piece -/

@[simp] theorem length_nodes (parent base : Nat) (p : Piece α) :
    (p.nodes parent base).length = p.size := by
  induction p generalizing parent base with
  | leaf => rfl
  | around value inner ih => simp [nodes, size, ih]
  | between value left right ihl ihr => simp [nodes, size, ihl, ihr]; omega

theorem lead_lt_size (p : Piece α) : p.lead < p.size := by
  cases p with
  | leaf => exact Nat.one_pos
  | around => exact Nat.succ_pos _
  | between value left right => simp only [lead, size]; omega

/-- Where the topmost node lies, and what is written there. -/
theorem getElem?_lead (parent base : Nat) (p : Piece α) :
    (p.nodes parent base)[p.lead]? = some ⟨p.value, some parent, p.children base, p.height⟩ := by
  cases p with
  | leaf => rfl
  | around => rfl
  | between value left right =>
      rw [nodes, List.getElem?_append_right (by simp [lead])]
      simp [lead, Piece.value, children, height]

/-- Only the link of the topmost node says what the piece hangs below. -/
theorem modify_lead (parent other base : Nat) (p : Piece α) :
    (p.nodes parent base).modify p.lead (fun n => { n with parent := some other }) =
      p.nodes other base := by
  cases p with
  | leaf => rfl
  | around => rfl
  | between value left right =>
      have h := modify_append_right (left.nodes (base + left.size) base)
        (⟨value, some parent, [left.top base, right.top (base + left.size + 1)],
          max (left.height + 1) (right.height + 1)⟩ ::
          right.nodes (base + left.size) (base + left.size + 1)) 0
        (fun n => { n with parent := some other })
      simp only [length_nodes, Nat.add_zero] at h
      rw [nodes, lead, h]
      rfl

/-- The values of the nodes do not depend on where they are. -/
@[simp] theorem map_value_nodes (parent base : Nat) (p : Piece α) :
    (p.nodes parent base).map (·.value) = p.values := by
  induction p generalizing parent base with
  | leaf => rfl
  | around value inner ih => simp [nodes, values, ih]
  | between value left right ihl ihr => simp [nodes, values, ihl, ihr]

/-! ### Another value at every node -/

@[simp] theorem size_map (f : α → β) (p : Piece α) : (p.map f).size = p.size := by
  induction p with
  | leaf => rfl
  | around value inner ih => simp [map, size, ih]
  | between value left right ihl ihr => simp [map, size, ihl, ihr]

@[simp] theorem height_map (f : α → β) (p : Piece α) : (p.map f).height = p.height := by
  induction p with
  | leaf => rfl
  | around value inner ih => simp [map, height, ih]
  | between value left right ihl ihr => simp [map, height, ihl, ihr]

@[simp] theorem lead_map (f : α → β) (p : Piece α) : (p.map f).lead = p.lead := by
  cases p <;> simp [map, lead]

@[simp] theorem top_map (f : α → β) (base : Nat) (p : Piece α) :
    (p.map f).top base = p.top base := by
  simp [top]

/-- The stretch of the changed piece is the old one with the values changed. -/
theorem nodes_map (f : α → β) (parent base : Nat) (p : Piece α) :
    (p.map f).nodes parent base = (p.nodes parent base).map fun n =>
      ⟨f n.value, n.parent, n.children, n.height⟩ := by
  induction p generalizing parent base with
  | leaf => rfl
  | around value inner ih => simp [map, nodes, ih]
  | between value left right ihl ihr => simp [map, nodes, ihl, ihr]

end Piece

end Formula
