/-
The way from the root of a tree to the cursor, and what happens to it when the tree grows.

A tree that is read from left to right is only ever changed at one place, the cursor.  The
nodes on the way from the root to the cursor have at most one finished piece to their left,
and that is older than they are.  So the way fills the beginning of the array: every node of
it comes right after the piece to its left.  `Spine.nodes` writes this down for any list of
frames, the innermost one first.

Raising the heights is the heart of the matter.  `raise` stops at the first node that is high
enough, and `raise_spine` shows that the nodes above it are then high enough as well.
-/
import Formula.Proofs.Arena.Piece

namespace Formula

/-- A node on the way from the root to the cursor, the root apart. -/
inductive Frame (α : Type) where
  /-- A node with nothing to the left of the way. -/
  | around (value : α)
  /-- A node with a finished piece to the left of the way. -/
  | between (value : α) (left : Piece α)

namespace Frame

variable {α β : Type}

/-- What the node holds. -/
def value : Frame α → α
  | around value => value
  | between value _ => value

/-- The number of nodes of the piece to the left. -/
def lead : Frame α → Nat
  | around _ => 0
  | between _ left => left.size

/-- The nodes of the piece to the left, below the node `parent`. -/
def nodes (parent base : Nat) : Frame α → List (Node α)
  | around _ => []
  | between _ left => left.nodes parent base

/-- The topmost node of the piece to the left. -/
def tops (base : Nat) : Frame α → List Nat
  | around _ => []
  | between _ left => [left.top base]

/-- The height of the node if what hangs to the right of the way gives it the height `h`. -/
def height (h : Nat) : Frame α → Nat
  | around _ => h
  | between _ left => max (left.height + 1) h

/-- The finished piece that the node becomes with one more piece below it. -/
def close (p : Piece α) : Frame α → Piece α
  | around value => .around value p
  | between value left => .between value left p

/-- The frame with other values. -/
def map (f : α → β) : Frame α → Frame β
  | around value => around (f value)
  | between value left => between (f value) (left.map f)

@[simp] theorem length_nodes (parent base : Nat) (f : Frame α) :
    (f.nodes parent base).length = f.lead := by
  cases f <;> simp [nodes, lead]

theorem height_max (f : Frame α) (h k : Nat) : f.height (max h k) = max (f.height h) k := by
  cases f with
  | around => rfl
  | between value left => simp only [height]; omega

end Frame

/-! ### The way from the root to the cursor -/

namespace Spine

variable {α : Type} (root : α)

/-- The number of nodes on the way, the pieces to the left of it included. -/
def size : List (Frame α) → Nat
  | [] => 1
  | f :: fs => size fs + f.lead + 1

/-- The node at the end of the way. -/
def cursor : List (Frame α) → Nat
  | [] => Arena.root
  | f :: fs => size fs + f.lead

/-- The nodes on the way from its end upwards. -/
def path : List (Frame α) → List Nat
  | [] => [Arena.root]
  | f :: fs => cursor (f :: fs) :: path fs

/-- The node above the end of the way. -/
def parent? : List (Frame α) → Option Nat
  | [] => none
  | _ :: fs => some (cursor fs)

/-- What the end of the way holds. -/
def value : List (Frame α) → α
  | [] => root
  | f :: _ => f.value

/-- The topmost node of the piece to the left of the end. -/
def tops : List (Frame α) → List Nat
  | [] => []
  | f :: fs => f.tops (size fs)

/-- The height of the end of the way if what hangs below it gives it the height `h`. -/
def heightAt (h : Nat) : List (Frame α) → Nat
  | [] => h
  | f :: _ => f.height h

/-- The height of the root if what hangs below the end of the way gives that the height `h`. -/
def height (h : Nat) : List (Frame α) → Nat
  | [] => h
  | f :: fs => height (f.height h + 1) fs

/-- The last node of the way: `below` hangs below it and gives it the height `h`. -/
def last (below : List Nat) (h : Nat) (fs : List (Frame α)) : Node α :=
  ⟨value root fs, parent? fs, tops fs ++ below, heightAt h fs⟩

/-- The nodes on the way, each after the piece to its left: `below` hangs below the last one
and gives it the height `h`. -/
def nodes (below : List Nat) (h : Nat) : List (Frame α) → List (Node α)
  | [] => [last root below h []]
  | f :: fs =>
    nodes [cursor (f :: fs)] (f.height h + 1) fs ++
      (f.nodes (cursor (f :: fs)) (size fs) ++ [last root below h (f :: fs)])

/-- All nodes of the way but the last. -/
def init (h : Nat) : List (Frame α) → List (Node α)
  | [] => []
  | f :: fs =>
    nodes root [cursor (f :: fs)] (f.height h + 1) fs ++ f.nodes (cursor (f :: fs)) (size fs)

theorem nodes_eq (below : List Nat) (h : Nat) (fs : List (Frame α)) :
    nodes root below h fs = init root h fs ++ [last root below h fs] := by
  cases fs with
  | nil => rfl
  | cons f fs => simp [nodes, init]

theorem size_eq (fs : List (Frame α)) : size fs = cursor fs + 1 := by
  cases fs <;> rfl

@[simp] theorem length_nodes (below : List Nat) (h : Nat) (fs : List (Frame α)) :
    (nodes root below h fs).length = size fs := by
  induction fs generalizing below h with
  | nil => rfl
  | cons f fs ih =>
      simp only [nodes, List.length_append, ih, Frame.length_nodes, size, List.length_singleton]
      omega

@[simp] theorem length_init (h : Nat) (fs : List (Frame α)) :
    (init root h fs).length = cursor fs := by
  have hlen := length_nodes root [] h fs
  rw [nodes_eq, List.length_append, List.length_singleton, size_eq] at hlen
  omega

theorem length_lt_size (fs : List (Frame α)) : fs.length < size fs := by
  induction fs with
  | nil => exact Nat.one_pos
  | cons f fs ih => simp only [List.length_cons, size]; omega

theorem cursor_lt_size (fs : List (Frame α)) : cursor fs < size fs := by
  rw [size_eq]
  exact Nat.lt_succ_self _

/-- The pieces to the left of the way are older than its nodes. -/
theorem lt_cursor_of_mem_tops {fs : List (Frame α)} {id : Nat} (h : id ∈ tops fs) :
    id < cursor fs := by
  cases fs with
  | nil => simp [tops] at h
  | cons f fs =>
      cases f with
      | around => simp [tops, Frame.tops] at h
      | between value left =>
          have hid : id = left.top (size fs) := by simpa [tops, Frame.tops] using h
          have hlead := left.lead_lt_size
          simp only [hid, Piece.top, cursor, Frame.lead]
          omega

/-! ### Changes at the end of the way -/

/-- A change of the last node is a change of what is written at the cursor. -/
theorem modify_cursor {below below' : List Nat} (h : Nat) (fs : List (Frame α))
    (rest : List (Node α)) {change : Node α → Node α}
    (hchange : change (last root below h fs) = last root below' h fs) :
    (nodes root below h fs ++ rest).modify (cursor fs) change =
      nodes root below' h fs ++ rest := by
  have hmod := modify_append_right (init root h fs) ([last root below h fs] ++ rest) 0 change
  rw [length_init, Nat.add_zero] at hmod
  rw [nodes_eq, nodes_eq, List.append_assoc, hmod, List.append_assoc]
  simp [hchange]

/-- One more node below the cursor. -/
theorem modify_append (below : List Nat) (id : Nat) (h : Nat) (fs : List (Frame α))
    (rest : List (Node α)) :
    (nodes root below h fs ++ rest).modify (cursor fs)
        (fun n => { n with children := n.children ++ [id] }) =
      nodes root (below ++ [id]) h fs ++ rest := by
  refine modify_cursor root h fs rest ?_
  simp [last]

/-- Another node in the place of the one below the cursor. -/
theorem modify_replace {old new : Nat} (h : Nat) (fs : List (Frame α))
    (rest : List (Node α)) (hold : cursor fs < old) :
    (nodes root [old] h fs ++ rest).modify (cursor fs)
        (fun n => { n with children := n.children.replace old new }) =
      nodes root [new] h fs ++ rest := by
  have hmem : old ∉ tops fs := by
    intro hmem
    have hlt := lt_cursor_of_mem_tops hmem
    omega
  refine modify_cursor root h fs rest ?_
  simp [last, List.replace_append_right hmem]

/-- **Raising the end of the way raises exactly the nodes that have to rise.**  The walk
upwards stops at a node that is high enough, and the induction shows that no node above it
would have had to rise. -/
theorem raise_spine (below : List Nat) (h k : Nat) (fs : List (Frame α))
    (rest : List (Node α)) {fuel : Nat} (hfuel : fs.length < fuel) :
    Arena.raise (nodes root below h fs ++ rest).toArray fuel (some (cursor fs)) k =
      (nodes root below (max h k) fs ++ rest).toArray := by
  induction fs generalizing below h k rest fuel with
  | nil =>
      obtain ⟨fuel, rfl⟩ : ∃ n, fuel = n + 1 := ⟨fuel - 1, by simp at hfuel; omega⟩
      by_cases hk : k ≤ h
      · rw [Nat.max_eq_left hk]
        simp [Arena.raise, nodes, last, cursor, Arena.root, heightAt, hk]
      · rw [Nat.max_eq_right (by omega)]
        cases fuel <;>
          simp [Arena.raise, nodes, last, cursor, Arena.root, heightAt, parent?, hk]
  | cons f fs ih =>
      obtain ⟨fuel, rfl⟩ : ∃ n, fuel = n + 1 := ⟨fuel - 1, by omega⟩
      have hget : (nodes root below h (f :: fs) ++ rest).toArray[cursor (f :: fs)]? =
          some (last root below h (f :: fs)) := by
        rw [nodes_eq, List.append_assoc, List.getElem?_toArray,
          List.getElem?_append_right (by simp), length_init]
        simp
      rw [Arena.raise, hget]
      by_cases hk : k ≤ f.height h
      · have hheight : f.height (max h k) = f.height h := by
          rw [Frame.height_max]
          exact Nat.max_eq_left hk
        have hlast : last root below (max h k) (f :: fs) = last root below h (f :: fs) := by
          simp [last, heightAt, hheight]
        simp only [last, heightAt, hk, if_true]
        rw [nodes, nodes, hheight, hlast]
      · have hheight : f.height (max h k) = k := by
          rw [Frame.height_max]
          exact Nat.max_eq_right (by omega)
        have hmod : (nodes root below h (f :: fs) ++ rest).modify (cursor (f :: fs))
            (fun n => { n with height := k }) =
              nodes root [cursor (f :: fs)] (f.height h + 1) fs ++
                (f.nodes (cursor (f :: fs)) (size fs) ++
                  [last root below (max h k) (f :: fs)] ++ rest) := by
          have happ := modify_append_right (init root h (f :: fs))
            ([last root below h (f :: fs)] ++ rest) 0 (fun n => { n with height := k })
          rw [length_init, Nat.add_zero] at happ
          rw [nodes_eq, List.append_assoc, happ]
          simp [init, last, heightAt, hheight, value, parent?, tops]
        simp only [last, heightAt, hk, if_false, parent?]
        rw [List.modify_toArray, hmod,
          ih [cursor (f :: fs)] (f.height h + 1) (k + 1) _ (by simpa using hfuel)]
        have hmax : max (f.height h + 1) (k + 1) = f.height (max h k) + 1 := by
          rw [hheight]
          omega
        rw [hmax, nodes]
        simp

end Spine

end Formula
