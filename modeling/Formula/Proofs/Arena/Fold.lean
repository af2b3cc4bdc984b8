/-
Folding the tokens of a draft.

A fold replaces the token of each node and keeps everything else, so the tree that a draft
becomes is folded by changing the values of the draft.  That gives two readings of such a
tree which see into the arguments of its calls:

  * `Tree.view?`, the tree as nested labels, where an argument is a nested tree as well;
  * `Tree.marks`, the messages of all marks of failures, and their number.
-/
import Formula.Proofs.Arena.Shape
import Formula.Tree

namespace Formula

/-! ### Other values at the nodes of a draft -/

namespace Frame

variable {α β : Type} (g : α → β)

@[simp] theorem value_map (f : Frame α) : (f.map g).value = g f.value := by
  cases f <;> rfl

@[simp] theorem lead_map (f : Frame α) : (f.map g).lead = f.lead := by
  cases f <;> simp [map, lead]

@[simp] theorem tops_map (base : Nat) (f : Frame α) : (f.map g).tops base = f.tops base := by
  cases f <;> simp [map, tops]

@[simp] theorem height_map (h : Nat) (f : Frame α) : (f.map g).height h = f.height h := by
  cases f <;> simp [map, height]

theorem nodes_map (parent base : Nat) (f : Frame α) :
    (f.map g).nodes parent base = (f.nodes parent base).map fun n =>
      ⟨g n.value, n.parent, n.children, n.height⟩ := by
  cases f <;> simp [map, nodes, Piece.nodes_map]

end Frame

namespace Spine

variable {α β : Type} (g : α → β)

@[simp] theorem size_map (fs : List (Frame α)) : size (fs.map (Frame.map g)) = size fs := by
  induction fs with
  | nil => rfl
  | cons f fs ih => simp [size, ih]

@[simp] theorem cursor_map (fs : List (Frame α)) : cursor (fs.map (Frame.map g)) = cursor fs := by
  cases fs <;> simp [cursor]

theorem last_map (root : α) (below : List Nat) (h : Nat) (fs : List (Frame α)) :
    last (g root) below h (fs.map (Frame.map g)) =
      ⟨g (value root fs), parent? fs, tops fs ++ below, heightAt h fs⟩ := by
  cases fs <;> simp [last, value, parent?, tops, heightAt]

theorem nodes_map (root : α) (below : List Nat) (h : Nat) (fs : List (Frame α)) :
    nodes (g root) below h (fs.map (Frame.map g)) = (nodes root below h fs).map fun n =>
      ⟨g n.value, n.parent, n.children, n.height⟩ := by
  induction fs generalizing below h with
  | nil => rfl
  | cons f fs ih =>
      have hcursor := cursor_map g (f :: fs)
      have hlast := last_map g root below h (f :: fs)
      rw [List.map_cons] at hcursor hlast ⊢
      rw [nodes, nodes, hcursor, hlast, ih, Frame.height_map, Frame.nodes_map, size_map,
        List.map_append, List.map_append]
      rfl

end Spine

namespace Forest

variable {α β : Type} (g : α → β)

@[simp] theorem tops_map (base : Nat) (ps : List (Piece α)) :
    tops base (ps.map (Piece.map g)) = tops base ps := by
  induction ps generalizing base with
  | nil => rfl
  | cons p ps ih => simp [tops, ih]

@[simp] theorem height_map (ps : List (Piece α)) : height (ps.map (Piece.map g)) = height ps := by
  induction ps with
  | nil => rfl
  | cons p ps ih => simp [height, ih]

theorem nodes_map (parent base : Nat) (ps : List (Piece α)) :
    nodes parent base (ps.map (Piece.map g)) = (nodes parent base ps).map fun n =>
      ⟨g n.value, n.parent, n.children, n.height⟩ := by
  induction ps generalizing base with
  | nil => rfl
  | cons p ps ih => simp [nodes, ih, Piece.nodes_map]

end Forest

namespace Draft

variable {α β : Type}

/-- The draft with other values. -/
def map (g : α → β) (d : Draft α) : Draft β :=
  ⟨g d.root, d.frames.map (Frame.map g), d.hung.map (Piece.map g)⟩

theorem nodes_map (g : α → β) (d : Draft α) :
    (d.map g).nodes = d.nodes.map fun n => ⟨g n.value, n.parent, n.children, n.height⟩ := by
  simp [map, nodes, cursor, Spine.nodes_map, Forest.nodes_map]

/-- **Folding the tree of a draft is changing the values of the draft.** -/
theorem foldTokens_arena (leaf : Token → β) (call : String → List (Arena β) → β)
    (d : Draft Token) :
    d.arena.foldTokens leaf call = (d.map (Token.fold leaf call)).arena := by
  have hnodes : (d.arena.foldTokens leaf call).nodes.toList =
      (d.map (Token.fold leaf call)).arena.nodes.toList := by
    rw [Arena.nodes_foldTokens, arena, arena, List.toList_toArray, List.toList_toArray, nodes_map]
  exact congrArg Arena.mk (Array.ext' hnodes)

end Draft

/-! ### Trees as nested labels -/

/-- What a node of a tree shows: its token, with the arguments of a call as nested trees. -/
inductive Label where
  | empty
  | error (message : String)
  | number (value : Binary64)
  | identifier (name : String)
  /-- A call.  An argument whose links lead nowhere would have no tree. -/
  | call (name : String) (arguments : List (Option (Nested Label)))
  | operator (op : Operator)
  | group (bracket : Bracket)
  | text (content : String)

namespace Label

/-- The label of a token other than a call. -/
def leaf : Token → Label
  | .empty => .empty
  | .error message => .error message
  | .number value => .number value
  | .identifier name => .identifier name
  | .call name _ => .call name []
  | .operator op => .operator op
  | .group bracket => .group bracket
  | .text content => .text content

/-- The label of a call whose arguments are trees of labels. -/
def ofCall (name : String) (arguments : List (Arena Label)) : Label :=
  .call name (arguments.map Arena.nested?)

end Label

/-- The tree as it is read from its root downwards, the arguments of its calls included. -/
def Tree.view? (tree : Tree) : Option (Nested Label) :=
  (tree.foldTokens Label.leaf Label.ofCall).nested?

/-- The label of a token. -/
def Token.label (token : Token) : Label := token.fold Label.leaf Label.ofCall

theorem Token.label_call (name : String) (arguments : List Tree) :
    (Token.call name arguments).label = .call name (arguments.map Tree.view?) := by
  rw [Token.label, Token.fold_call, Label.ofCall, List.map_map]
  rfl

theorem Draft.view?_arena (d : Draft Token) :
    Tree.view? d.arena = some (d.map Token.label).nested := by
  rw [Tree.view?, Draft.foldTokens_arena, Draft.nested?_arena]
  rfl

/-! ### Marks of failures -/

namespace Token

/-- The mark that a token other than a call is. -/
def leafMarks : Token → List String
  | .error message => [message]
  | _ => []

/-- The marks in the arguments of a call. -/
def callMarks (arguments : List (Arena (List String))) : List String :=
  arguments.flatMap fun argument => argument.nodes.toList.flatMap (·.value)

/-- The messages of the marks of failures in a token, those in the arguments of a call
included. -/
def marks (token : Token) : List String :=
  token.fold leafMarks fun _ arguments => callMarks arguments

/-- The number of marks of failures in a token, those in the arguments of a call included. -/
def errors (token : Token) : Nat :=
  token.fold Tree.leafErrors fun _ arguments => Tree.callErrors arguments

end Token

/-- A sum does not depend on the order. -/
theorem Tree.total_perm {ms ns : List Nat} (h : ms.Perm ns) : total ms = total ns := by
  refine h.foldl_eq' ?_ 0
  intro m _ n _ sum
  exact Nat.add_right_comm sum m n

/-- The messages of all marks of failures in a tree, wherever in the array they are, those in
the arguments of calls included. -/
def Tree.marks (tree : Tree) : List String := tree.nodes.toList.flatMap (·.value.marks)

theorem Token.marks_call (name : String) (arguments : List Tree) :
    (Token.call name arguments).marks = arguments.flatMap Tree.marks := by
  rw [Token.marks, Token.fold_call, Token.callMarks, List.flatMap_map]
  refine congrArg (List.flatMap · arguments) (funext fun argument => ?_)
  rw [Arena.nodes_foldTokens, List.flatMap_map]
  rfl

theorem Token.errors_call (name : String) (arguments : List Tree) :
    (Token.call name arguments).errors = Tree.total (arguments.map Tree.errorCount) := by
  rw [Token.errors, Token.fold_call, Tree.callErrors, List.map_map]
  rfl

namespace Draft

theorem marks_arena (d : Draft Token) : Tree.marks d.arena = d.values.flatMap Token.marks := by
  rw [Tree.marks, arena, List.toList_toArray, ← values_nodes, List.flatMap_map]

theorem values_map {α β : Type} (g : α → β) (d : Draft α) : (d.map g).values = d.values.map g := by
  rw [← values_nodes, nodes_map, List.map_map, ← values_nodes, List.map_map]
  rfl

theorem errorCount_arena (d : Draft Token) :
    Tree.errorCount d.arena = Tree.total (d.values.map Token.errors) := by
  rw [Tree.errorCount, foldTokens_arena, Tree.total_perm (values_arena _), values_map]
  rfl

end Draft

end Formula
