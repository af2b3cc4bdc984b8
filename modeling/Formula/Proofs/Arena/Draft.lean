/-
Trees under construction, and the arrays that belong to them.

A `Draft` holds the way from the root to the cursor and the finished pieces that hang below
the cursor.  `Draft.arena` writes down the array: the nodes of the way, then the pieces.  The
main results say that every change of the tree is a change of the draft, link by link and
height by height:

  * `add_arena`: a new leaf below the cursor is one more piece below it;
  * `enter_arena`: a new node below an empty cursor, where the cursor may move to;
  * `wrap_arena`: a new node around the one piece below the cursor;
  * `close_arena`: moving the cursor up over a finished piece changes nothing.
-/
import Formula.Proofs.Arena.Spine

namespace Formula

/-! ### Pieces side by side -/

namespace Forest

variable {α β : Type}

/-- The number of nodes. -/
def size : List (Piece α) → Nat
  | [] => 0
  | p :: ps => p.size + size ps

/-- The nodes of pieces below the node `parent`, whose stretch starts at `base`. -/
def nodes (parent base : Nat) : List (Piece α) → List (Node α)
  | [] => []
  | p :: ps => p.nodes parent base ++ nodes parent (base + p.size) ps

/-- The topmost nodes. -/
def tops (base : Nat) : List (Piece α) → List Nat
  | [] => []
  | p :: ps => p.top base :: tops (base + p.size) ps

/-- The height of a node that has the pieces below it. -/
def height : List (Piece α) → Nat
  | [] => 0
  | p :: ps => max (p.height + 1) (height ps)

theorem tops_eq_nil {base : Nat} {ps : List (Piece α)} : tops base ps = [] ↔ ps = [] := by
  cases ps <;> simp [tops]

@[simp] theorem length_nodes (parent base : Nat) (ps : List (Piece α)) :
    (nodes parent base ps).length = size ps := by
  induction ps generalizing base with
  | nil => rfl
  | cons p ps ih => simp [nodes, size, ih]

theorem nodes_append (parent base : Nat) (ps qs : List (Piece α)) :
    nodes parent base (ps ++ qs) = nodes parent base ps ++ nodes parent (base + size ps) qs := by
  induction ps generalizing base with
  | nil => rfl
  | cons p ps ih => simp [nodes, size, ih, Nat.add_assoc]

theorem tops_append (base : Nat) (ps qs : List (Piece α)) :
    tops base (ps ++ qs) = tops base ps ++ tops (base + size ps) qs := by
  induction ps generalizing base with
  | nil => rfl
  | cons p ps ih => simp [tops, size, ih, Nat.add_assoc]

theorem height_append (ps qs : List (Piece α)) :
    height (ps ++ qs) = max (height ps) (height qs) := by
  induction ps with
  | nil => simp [height]
  | cons p ps ih => rw [List.cons_append, height, height, ih, Nat.max_assoc]

end Forest

/-- A tree under construction. -/
structure Draft (α : Type) where
  /-- What the root holds. -/
  root : α
  /-- The nodes on the way from the root to the cursor, the one at the cursor first. -/
  frames : List (Frame α)
  /-- The finished pieces below the cursor, those to the left of the way apart. -/
  hung : List (Piece α)

namespace Draft

variable {α β : Type}

/-- The node at which the tree is being worked on. -/
def cursor (d : Draft α) : Nat := Spine.cursor d.frames

/-- The nodes of the tree in the order of their creation. -/
def nodes (d : Draft α) : List (Node α) :=
  Spine.nodes d.root (Forest.tops (Spine.size d.frames) d.hung) (Forest.height d.hung) d.frames ++
    Forest.nodes d.cursor (Spine.size d.frames) d.hung

/-- The tree. -/
def arena (d : Draft α) : Arena α := ⟨d.nodes.toArray⟩

/-- The number of levels below the root. -/
def height (d : Draft α) : Nat := Spine.height (Forest.height d.hung) d.frames

/-- The draft with one more piece below the cursor. -/
def hang (d : Draft α) (p : Piece α) : Draft α := { d with hung := d.hung ++ [p] }

/-! ### Looking at the tree -/

theorem length_nodes (d : Draft α) :
    d.nodes.length = Spine.size d.frames + Forest.size d.hung := by
  simp [nodes]

theorem size_arena (d : Draft α) :
    d.arena.size = Spine.size d.frames + Forest.size d.hung := by
  simp [arena, Arena.size, length_nodes]

/-- Fuel that is as large as the tree is enough to walk up to the root. -/
theorem length_frames_lt (d : Draft α) : d.frames.length < d.nodes.length := by
  have hspine := Spine.length_lt_size d.frames
  rw [length_nodes]
  omega

/-- What is written at the end of the way. -/
theorem getElem?_end (root : α) (fs : List (Frame α)) (below : List Nat) (h : Nat)
    (rest : List (Node α)) :
    (Spine.nodes root below h fs ++ rest)[Spine.cursor fs]? =
      some (Spine.last root below h fs) := by
  rw [Spine.nodes_eq, List.append_assoc, List.getElem?_append_right (by simp), Spine.length_init]
  simp

/-- A node on the way is followed by the next one, its last child. -/
theorem nodes_way (root : α) (inner fs : List (Frame α)) (f : Frame α) (below : List Nat)
    (h : Nat) (rest : List (Node α)) :
    ∃ h' rest', Spine.nodes root below h (inner ++ f :: fs) ++ rest =
      Spine.nodes root [Spine.cursor (f :: fs)] h' fs ++ rest' := by
  induction inner generalizing below h rest with
  | nil =>
      rw [List.nil_append, Spine.nodes, List.append_assoc]
      exact ⟨_, _, rfl⟩
  | cons g inner ih =>
      rw [List.cons_append, Spine.nodes, List.append_assoc]
      exact ih _ _ _

/-- What is written at a node on the way: its value, its link upwards and its height.  It has
something below it unless it is the end of the way and nothing is below that. -/
theorem getElem?_spine (root : α) (inner fs : List (Frame α)) (below : List Nat) (h : Nat)
    (rest : List (Node α)) :
    ∃ below' h', (Spine.nodes root below h (inner ++ fs) ++ rest)[Spine.cursor fs]? =
      some (Spine.last root below' h' fs) ∧ (below' = [] ↔ inner = [] ∧ below = []) := by
  rcases inner.eq_nil_or_concat with rfl | ⟨inner, f, rfl⟩
  · exact ⟨below, h, getElem?_end root fs below h rest, by simp⟩
  · obtain ⟨h', rest', hnodes⟩ := nodes_way root inner fs f below h rest
    rw [List.concat_append, hnodes]
    exact ⟨_, h', getElem?_end root fs _ h' rest', by simp⟩

/-- What is written at the cursor. -/
theorem getElem?_cursor (d : Draft α) :
    d.arena.nodes[d.cursor]? = some (Spine.last d.root
      (Forest.tops (Spine.size d.frames) d.hung) (Forest.height d.hung) d.frames) := by
  rw [arena, List.getElem?_toArray, nodes, cursor]
  exact getElem?_end d.root d.frames _ _ _

theorem children_cursor (d : Draft α) : d.arena.children d.cursor =
    Spine.tops d.frames ++ Forest.tops (Spine.size d.frames) d.hung := by
  rw [Arena.children, getElem?_cursor]
  rfl

/-- What is written at the nodes on the way. -/
theorem getElem?_arena {d : Draft α} {inner fs : List (Frame α)} (h : d.frames = inner ++ fs) :
    ∃ below height, d.arena.nodes[Spine.cursor fs]? =
      some (Spine.last d.root below height fs) ∧ (below = [] ↔ inner = [] ∧ d.hung = []) := by
  obtain ⟨root, frames, hung⟩ := d
  obtain rfl : frames = inner ++ fs := h
  obtain ⟨below, height, hget, hbelow⟩ := getElem?_spine root inner fs
    (Forest.tops (Spine.size (inner ++ fs)) hung) (Forest.height hung)
    (Forest.nodes (Spine.cursor (inner ++ fs)) (Spine.size (inner ++ fs)) hung)
  refine ⟨below, height, ?_, ?_⟩
  · simpa [arena, nodes, cursor] using hget
  · rw [hbelow, Forest.tops_eq_nil]

/-- The value of the node at the cursor and of those above it. -/
theorem value?_arena {d : Draft α} {inner fs : List (Frame α)} (h : d.frames = inner ++ fs) :
    d.arena.value? (Spine.cursor fs) = some (Spine.value d.root fs) := by
  obtain ⟨below, height, hget, -⟩ := getElem?_arena h
  rw [Arena.value?, hget]
  rfl

/-- The link upwards of the node at the cursor and of those above it. -/
theorem parent?_arena {d : Draft α} {inner fs : List (Frame α)} (h : d.frames = inner ++ fs) :
    d.arena.parent? (Spine.cursor fs) = Spine.parent? fs := by
  obtain ⟨below, height, hget, -⟩ := getElem?_arena h
  rw [Arena.parent?, hget]
  rfl

/-- Walking upwards from a node on the way passes the rest of the way. -/
theorem climb_arena {d : Draft α} {inner fs : List (Frame α)} (h : d.frames = inner ++ fs)
    {fuel : Nat} (hfuel : fs.length < fuel) :
    d.arena.climb fuel (some (Spine.cursor fs)) = Spine.path fs := by
  induction fs generalizing inner fuel with
  | nil =>
      obtain ⟨fuel, rfl⟩ : ∃ n, fuel = n + 1 := ⟨fuel - 1, by simp at hfuel; omega⟩
      rw [Arena.climb, parent?_arena h, Spine.parent?]
      cases fuel <;> rfl
  | cons f fs ih =>
      obtain ⟨fuel, rfl⟩ : ∃ n, fuel = n + 1 := ⟨fuel - 1, by omega⟩
      have hrest : d.frames = (inner ++ [f]) ++ fs := by simpa using h
      rw [Arena.climb, parent?_arena h, Spine.parent?, ih hrest (by simpa using hfuel)]
      rfl

/-- The nodes above the cursor are the nodes on the way. -/
theorem cons_ancestors_arena (d : Draft α) :
    d.cursor :: d.arena.ancestors d.cursor = Spine.path d.frames := by
  have hparent : d.arena.parent? d.cursor = Spine.parent? d.frames :=
    parent?_arena (show d.frames = [] ++ d.frames from rfl)
  have hfuel : d.frames.length < d.arena.size := by
    rw [size_arena, ← length_nodes]
    exact d.length_frames_lt
  rw [Arena.ancestors, hparent, cursor]
  cases hframes : d.frames with
  | nil =>
      rw [Spine.parent?]
      cases d.arena.size <;> rfl
  | cons f fs =>
      rw [hframes, List.length_cons] at hfuel
      rw [Spine.parent?, climb_arena (show d.frames = [f] ++ fs from hframes) (by omega)]
      rfl

/-- The last child of the cursor is the last piece below it, if there is any. -/
theorem lastChild?_arena (root : α) (frames : List (Frame α)) (hung : List (Piece α))
    (p : Piece α) :
    (Draft.mk root frames (hung ++ [p])).arena.lastChild? (Spine.cursor frames) =
      some (p.top (Spine.size frames + Forest.size hung)) := by
  have hchildren := children_cursor ⟨root, frames, hung ++ [p]⟩
  simp only [cursor] at hchildren
  rw [Arena.lastChild?, hchildren, Forest.tops_append]
  simp [Forest.tops]

/-- The last child of a node on the way is the next one. -/
theorem lastChild?_way {d : Draft α} {inner fs : List (Frame α)} {f : Frame α}
    (h : d.frames = inner ++ f :: fs) :
    d.arena.lastChild? (Spine.cursor fs) = some (Spine.cursor (f :: fs)) := by
  obtain ⟨root, frames, hung⟩ := d
  obtain rfl : frames = inner ++ f :: fs := h
  obtain ⟨height, rest, hnodes⟩ := nodes_way root inner fs f
    (Forest.tops (Spine.size (inner ++ f :: fs)) hung) (Forest.height hung)
    (Forest.nodes (Spine.cursor (inner ++ f :: fs)) (Spine.size (inner ++ f :: fs)) hung)
  rw [Arena.lastChild?, Arena.children, arena, List.getElem?_toArray, nodes, cursor, hnodes,
    getElem?_end]
  simp [Spine.last]

/-- The height that the root carries. -/
theorem height_arena (d : Draft α) : d.arena.height = d.height := by
  have hroot : ∀ (fs : List (Frame α)) (below : List Nat) (h : Nat) (rest : List (Node α)),
      ∃ value parent children, (Spine.nodes d.root below h fs ++ rest)[Arena.root]? =
        some ⟨value, parent, children, Spine.height h fs⟩ := by
    intro fs
    induction fs with
    | nil => intro below h rest; exact ⟨_, _, _, rfl⟩
    | cons f fs ih =>
        intro below h rest
        rw [Spine.nodes, List.append_assoc]
        exact ih _ _ _
  obtain ⟨value, parent, children, hget⟩ := hroot d.frames
    (Forest.tops (Spine.size d.frames) d.hung) (Forest.height d.hung)
    (Forest.nodes d.cursor (Spine.size d.frames) d.hung)
  rw [Arena.height, Arena.heightAt, arena, List.getElem?_toArray, nodes, hget]
  rfl

/-- The root has a child exactly if the cursor has left it or something hangs below it. -/
theorem first?_arena_eq_none (d : Draft α) :
    d.arena.first? = none ↔ d.frames = [] ∧ d.hung = [] := by
  obtain ⟨below, height, hget, hbelow⟩ :=
    getElem?_arena (show d.frames = d.frames ++ [] by simp)
  have hroot : d.arena.nodes[Arena.root]? = some (Spine.last d.root below height []) := hget
  rw [Arena.first?, Arena.children, hroot, ← hbelow]
  simp [Spine.last, Spine.tops]

/-! ### Growing the tree -/

/-- A new leaf below the cursor. -/
theorem add_arena (d : Draft α) (value : α) (levels : Nat) :
    d.arena.add d.cursor value levels = (d.hang (.leaf value levels)).arena := by
  obtain ⟨root, frames, hung⟩ := d
  have hnew : Forest.nodes (Spine.cursor frames) (Spine.size frames)
      (hung ++ [Piece.leaf value levels]) =
        Forest.nodes (Spine.cursor frames) (Spine.size frames) hung ++
          [⟨value, some (Spine.cursor frames), [], levels⟩] := by
    rw [Forest.nodes_append]
    rfl
  have htops : Forest.tops (Spine.size frames) (hung ++ [Piece.leaf value levels]) =
      Forest.tops (Spine.size frames) hung ++ [Spine.size frames + Forest.size hung] := by
    rw [Forest.tops_append]
    rfl
  have hheight : Forest.height (hung ++ [Piece.leaf value levels]) =
      max (Forest.height hung) (levels + 1) := by
    rw [Forest.height_append]
    simp [Forest.height, Piece.height]
  have hspine := Spine.length_lt_size frames
  simp only [Arena.add, arena, hang, nodes, cursor, List.push_toArray, List.modify_toArray,
    List.append_assoc, List.size_toArray, List.length_append, Spine.length_nodes,
    Forest.length_nodes, List.length_modify]
  rw [Spine.modify_append, Spine.raise_spine _ _ _ _ _ _ (by omega), hnew, htops, hheight]

/-- A new node below an empty cursor, which the cursor may move to. -/
theorem enter_arena (root : α) (frames : List (Frame α)) (value : α) :
    (Draft.mk root frames []).arena.add (Spine.cursor frames) value 0 =
      (Draft.mk root (.around value :: frames) []).arena := by
  have hadd := add_arena ⟨root, frames, []⟩ value 0
  rw [cursor] at hadd
  rw [hadd]
  simp [arena, hang, nodes, cursor, Spine.nodes, Spine.last, Spine.value, Spine.parent?,
    Spine.tops, Spine.heightAt, Spine.cursor, Frame.height, Frame.lead, Frame.nodes, Frame.value,
    Frame.tops, Forest.nodes, Forest.tops, Forest.height, Piece.nodes, Piece.height, Piece.top,
    Piece.lead]

/-- The nodes of a tree with one piece below the cursor. -/
theorem nodes_one (root : α) (frames : List (Frame α)) (p : Piece α) :
    (Draft.mk root frames [p]).nodes =
      Spine.nodes root [p.top (Spine.size frames)] (p.height + 1) frames ++
        p.nodes (Spine.cursor frames) (Spine.size frames) := by
  simp [nodes, cursor, Forest.nodes, Forest.tops, Forest.height]

/-- What is written at the topmost node of the one piece below the cursor. -/
theorem getElem?_top (root : α) (frames : List (Frame α)) (p : Piece α) :
    (Draft.mk root frames [p]).arena.nodes[p.top (Spine.size frames)]? =
      some ⟨p.value, some (Spine.cursor frames), p.children (Spine.size frames), p.height⟩ := by
  rw [arena, nodes_one, List.getElem?_toArray, Piece.top,
    List.getElem?_append_right (by simp), Spine.length_nodes, Nat.add_sub_cancel_left,
    Piece.getElem?_lead]

/-- A new node around the one piece below the cursor. -/
theorem wrap_arena (root : α) (frames : List (Frame α)) (p : Piece α) (value : α) :
    (Draft.mk root frames [p]).arena.wrap (p.top (Spine.size frames)) value =
      (Draft.mk root (.between value p :: frames) []).arena := by
  have hold : Spine.cursor frames < p.top (Spine.size frames) := by
    have hcursor := Spine.cursor_lt_size frames
    simp only [Piece.top]
    omega
  have hspine := Spine.length_lt_size frames
  rw [Arena.wrap, getElem?_top]
  simp only [arena, nodes_one, List.push_toArray, List.modify_toArray, List.append_assoc,
    List.size_toArray, List.length_append, Spine.length_nodes, Piece.length_nodes,
    List.length_modify]
  rw [Spine.modify_replace root _ _ _ hold, Spine.raise_spine _ _ _ _ _ _ (by omega),
    List.modify_toArray, Piece.top]
  have hlink := modify_append_right
    (Spine.nodes root [Spine.size frames + p.size] (max (p.height + 1) (p.height + 2)) frames)
    (p.nodes (Spine.cursor frames) (Spine.size frames) ++
      [⟨value, some (Spine.cursor frames), [Spine.size frames + p.lead], p.height + 1⟩])
    p.lead (fun n => { n with parent := some (Spine.size frames + p.size) })
  rw [Spine.length_nodes] at hlink
  rw [hlink, modify_append_left _ _ (by simpa using p.lead_lt_size), Piece.modify_lead]
  simp [nodes, Spine.nodes, Spine.last, Spine.value, Spine.parent?, Spine.tops, Spine.heightAt,
    Spine.cursor, Frame.height, Frame.lead, Frame.nodes, Frame.value, Frame.tops, Forest.nodes,
    Forest.tops, Forest.height, Piece.top]

/-- Moving the cursor up over the one finished piece below it changes nothing. -/
theorem close_arena (root : α) (f : Frame α) (fs : List (Frame α)) (p : Piece α) :
    (Draft.mk root (f :: fs) [p]).arena = (Draft.mk root fs [f.close p]).arena := by
  cases f <;>
    simp [arena, nodes, cursor, Frame.close, Spine.nodes, Spine.last, Spine.value, Spine.parent?,
      Spine.tops, Spine.heightAt, Spine.cursor, Spine.size, Frame.height, Frame.lead, Frame.nodes,
      Frame.value, Frame.tops, Forest.nodes, Forest.tops, Forest.height, Piece.nodes, Piece.height,
      Piece.top, Piece.lead]

end Draft

end Formula
