/-
Walking over a tree from a node downwards.

A walk visits a node before its children and the children in order.  It keeps the nodes that
are still to be visited in a list: the next one is taken from the front, and its children are
put there in its place.  Every node is visited at most once, so a walk never takes more steps
than there are nodes.

There are two walks.  `descendants` only lists the nodes, `walk` also notes how deep each of
them is.  They visit the same nodes in the same order (`descendants_eq_map_walk`).
-/
import Formula.Arena

namespace Formula.Arena

variable {α : Type}

/-- At most `fuel` steps of a walk that lists the nodes: `pending` are the nodes to be visited,
and `seen` are those visited so far. -/
def descend (t : Arena α) : (fuel : Nat) → (pending : List NodeId) → (seen : Array NodeId) →
    Array NodeId
  | 0, _, seen => seen
  | _, [], seen => seen
  | fuel + 1, id :: pending, seen => t.descend fuel (t.children id ++ pending) (seen.push id)

/-- A node and everything below it. -/
def descendants (t : Arena α) (id : NodeId) : List NodeId := (t.descend t.size [id] #[]).toList

/-- At most `fuel` steps of a walk that notes depths: `pending` are the nodes to be visited,
each with its depth, and `seen` are those visited so far. -/
def visit (t : Arena α) : (fuel : Nat) → (pending : List (NodeId × Nat)) →
    (seen : Array (NodeId × Nat)) → Array (NodeId × Nat)
  | 0, _, seen => seen
  | _, [], seen => seen
  | fuel + 1, (id, depth) :: pending, seen =>
    t.visit fuel ((t.children id).map (·, depth + 1) ++ pending) (seen.push (id, depth))

/-- A node and everything below it, each with its depth below that node. -/
def walk (t : Arena α) (id : NodeId) : List (NodeId × Nat) :=
  (t.visit t.size [(id, 0)] #[]).toList

/-- What the nodes of the tree hold, in the order of a walk from the root. -/
def values (t : Arena α) : List α := (t.descendants root).filterMap t.value?

/-! ### Outlines -/

/-- The lines of a tree of labels: one for each node in the order of a walk, indented by two
spaces for each level. -/
def rows (t : Arena String) : List String :=
  (t.walk root).filterMap fun (id, depth) =>
    (t.value? id).map fun label => String.ofList (List.replicate (2 * depth) ' ') ++ label

/-- A tree of labels, one node on each line. -/
def outline (t : Arena String) : String := String.join (t.rows.map (· ++ "\n"))

/-- The greatest number of spaces by which a line can be indented. -/
def greatestIndent : Nat := 65535

/-- Whether the lines of a tree can be written, where the tree says of each label whether it
can be written: no line is indented by more than is possible. -/
def rowsFit (t : Arena Bool) : Bool :=
  (t.walk root).all fun (id, depth) =>
    2 * depth ≤ greatestIndent && (t.value? id).getD true

/-! ### The two walks visit the same nodes -/

theorem map_visit (t : Arena α) (fuel : Nat) (pending : List (NodeId × Nat))
    (seen : Array (NodeId × Nat)) : (t.visit fuel pending seen).map (·.1) =
      t.descend fuel (pending.map (·.1)) (seen.map (·.1)) := by
  induction fuel generalizing pending seen with
  | zero => rfl
  | succ fuel ih =>
    rcases pending with _ | ⟨⟨id, depth⟩, pending⟩
    · rfl
    · rw [visit, ih, List.map_cons, descend]
      simp [Function.comp_def]

/-- The walk that lists the nodes is the other one without the depths. -/
theorem descendants_eq_map_walk (t : Arena α) (id : NodeId) :
    t.descendants id = (t.walk id).map (·.1) := by
  rw [walk, ← Array.toList_map, map_visit, List.map_singleton, Array.map_empty, descendants]

end Formula.Arena
