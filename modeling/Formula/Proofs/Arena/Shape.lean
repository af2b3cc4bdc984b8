/-
Reading a tree back as a nested one, and walking over it.

`Arena.nested?` follows the links from the root downwards.  For the array of a draft it finds
what the draft says, `Draft.nested`: the nodes on the way inside each other, and the pieces
below the cursor inside the last of them.

`Arena.descendants` follows the same links with a list of nodes that are still to be visited.
`descend_nestedAt?` says that it visits what the nested tree lists in preorder, for any tree
that can be read back at all.
-/
import Formula.Arena.Walk
import Formula.Proofs.Arena.Draft

namespace Formula

/-! ### Collecting results -/

theorem mapM_eq_some_mono {α β : Type} {f g : α → Option β} {xs : List α} {ys : List β}
    (hfg : ∀ x y, f x = some y → g x = some y) (h : xs.mapM f = some ys) :
    xs.mapM g = some ys := by
  induction xs generalizing ys with
  | nil => simpa using h
  | cons x xs ih =>
      simp only [List.mapM_cons, Option.bind_eq_bind, Option.bind_eq_some_iff, Option.pure_def,
        Option.some.injEq] at h ⊢
      obtain ⟨y, hy, zs, hzs, heq⟩ := h
      exact ⟨y, hfg x y hy, zs, ih hzs, heq⟩

namespace Nested

variable {α : Type}

mutual

/-- The number of nodes. -/
def size : Nested α → Nat
  | node _ children => sizes children + 1

/-- The number of nodes of some trees. -/
def sizes : List (Nested α) → Nat
  | [] => 0
  | tree :: trees => tree.size + sizes trees

end

mutual

/-- What the nodes hold, each before what is below it. -/
def preorder : Nested α → List α
  | node value children => value :: preorders children

/-- What the nodes of some trees hold. -/
def preorders : List (Nested α) → List α
  | [] => []
  | tree :: trees => tree.preorder ++ preorders trees

end

end Nested

namespace Arena

variable {α : Type}

/-- The nodes `ns` are written in the array from the place `base` on. -/
def Has (t : Arena α) (base : Nat) (ns : List (Node α)) : Prop :=
  ∀ (i : Nat) (n : Node α), ns[i]? = some n → t.nodes[base + i]? = some n

theorem has_append {t : Arena α} {base : Nat} {ms ns : List (Node α)}
    (h : t.Has base (ms ++ ns)) : t.Has base ms ∧ t.Has (base + ms.length) ns := by
  refine ⟨?_, ?_⟩
  · intro i n hn
    have hi : i < ms.length := by
      obtain ⟨hi, -⟩ := List.getElem?_eq_some_iff.mp hn
      exact hi
    exact h i n (by rw [List.getElem?_append_left hi]; exact hn)
  · intro i n hn
    rw [Nat.add_assoc]
    refine h _ n ?_
    rw [List.getElem?_append_right (by omega), Nat.add_sub_cancel_left]
    exact hn

theorem has_cons {t : Arena α} {base : Nat} {n : Node α} {ns : List (Node α)}
    (h : t.Has base (n :: ns)) : t.nodes[base]? = some n ∧ t.Has (base + 1) ns :=
  ⟨h 0 n rfl, (has_append (show t.Has base ([n] ++ ns) from h)).2⟩

/-- More fuel reads back the same tree. -/
theorem nestedAt?_mono {t : Arena α} {fuel more : Nat} {id : NodeId} {n : Nested α}
    (h : t.nestedAt? fuel id = some n) (hle : fuel ≤ more) : t.nestedAt? more id = some n := by
  induction fuel generalizing more id n with
  | zero => simp [nestedAt?] at h
  | succ fuel ih =>
      obtain ⟨more, rfl⟩ : ∃ k, more = k + 1 := ⟨more - 1, by omega⟩
      rw [nestedAt?] at h ⊢
      cases hnode : t.nodes[id]? with
      | none => rw [hnode] at h; simp at h
      | some node =>
          rw [hnode] at h
          simp only [Option.map_eq_some_iff] at h ⊢
          obtain ⟨ns, hns, rfl⟩ := h
          exact ⟨ns, mapM_eq_some_mono (fun x y hxy => ih hxy (by omega)) hns, rfl⟩

/-- A piece that is written in the array is read back as it is. -/
theorem nestedAt?_piece {t : Arena α} {parent base : Nat} {p : Piece α} {fuel : Nat}
    (h : t.Has base (p.nodes parent base)) (hfuel : p.size ≤ fuel) :
    t.nestedAt? fuel (p.top base) = some p.nested := by
  induction p generalizing parent base fuel with
  | leaf value levels =>
      obtain ⟨fuel, rfl⟩ : ∃ k, fuel = k + 1 := ⟨fuel - 1, by simp [Piece.size] at hfuel; omega⟩
      obtain ⟨hnode, -⟩ := has_cons h
      simp [nestedAt?, Piece.top, Piece.lead, hnode, Piece.nested]
  | around value inner ih =>
      simp only [Piece.size] at hfuel
      obtain ⟨fuel, rfl⟩ : ∃ k, fuel = k + 1 := ⟨fuel - 1, by omega⟩
      obtain ⟨hnode, hinner⟩ := has_cons h
      have hread := ih hinner (show inner.size ≤ fuel by omega)
      simp [nestedAt?, Piece.top, Piece.lead, hnode, Piece.nested] at hread ⊢
      simp [hread]
  | between value left right ihl ihr =>
      simp only [Piece.size] at hfuel
      obtain ⟨fuel, rfl⟩ : ∃ k, fuel = k + 1 := ⟨fuel - 1, by omega⟩
      obtain ⟨hleft, hrest⟩ := has_append h
      rw [Piece.length_nodes] at hrest
      obtain ⟨hnode, hright⟩ := has_cons hrest
      have hreadl := ihl hleft (show left.size ≤ fuel by omega)
      have hreadr := ihr hright (show right.size ≤ fuel by omega)
      rw [nestedAt?, Piece.top, Piece.lead, hnode]
      simp [hreadl, hreadr, Piece.nested]

/-- Pieces side by side are read back one by one. -/
theorem mapM_nestedAt?_forest {t : Arena α} {parent base : Nat} {ps : List (Piece α)} {fuel : Nat}
    (h : t.Has base (Forest.nodes parent base ps)) (hfuel : Forest.size ps ≤ fuel) :
    (Forest.tops base ps).mapM (t.nestedAt? fuel) = some (ps.map Piece.nested) := by
  induction ps generalizing base with
  | nil => rfl
  | cons p ps ih =>
      simp only [Forest.size] at hfuel
      obtain ⟨hp, hps⟩ := has_append h
      rw [Piece.length_nodes] at hps
      have hread := nestedAt?_piece hp (show p.size ≤ fuel by omega)
      rw [Forest.tops, List.mapM_cons, hread, ih hps (by omega)]
      rfl

end Arena

/-! ### The way from the root to the cursor -/

namespace Frame

variable {α : Type}

/-- The pieces to the left as nested trees. -/
def nested : Frame α → List (Nested α)
  | around _ => []
  | between _ left => [left.nested]

end Frame

namespace Spine

variable {α : Type}

/-- The nodes on the way inside each other, with the trees `below` inside the last one. -/
def nested (root : α) (below : List (Nested α)) : List (Frame α) → Nested α
  | [] => .node root below
  | f :: fs => nested root [.node f.value (f.nested ++ below)] fs

/-- The way is read back from its end upwards: each node is read back once everything below
it is. -/
theorem nestedAt?_spine {t : Arena α} {root : α} {below : List Nat} {h : Nat}
    {fs : List (Frame α)} {ns : List (Nested α)} {fuel more : Nat}
    (hhas : t.Has 0 (nodes root below h fs))
    (hbelow : below.mapM (t.nestedAt? fuel) = some ns) (hle : fuel + size fs ≤ more) :
    t.nestedAt? more Arena.root = some (nested root ns fs) := by
  induction fs generalizing below h ns fuel with
  | nil =>
      obtain ⟨more, rfl⟩ : ∃ k, more = k + 1 := ⟨more - 1, by simp [size] at hle; omega⟩
      obtain ⟨hnode, -⟩ := Arena.has_cons hhas
      have hread : below.mapM (t.nestedAt? more) = some ns :=
        mapM_eq_some_mono (fun x y hxy => Arena.nestedAt?_mono hxy (by simp [size] at hle; omega))
          hbelow
      rw [Arena.nestedAt?, Arena.root, hnode]
      simp [last, tops, value, hread, nested]
  | cons f fs ih =>
      simp only [size] at hle
      obtain ⟨hway, hrest⟩ := Arena.has_append hhas
      obtain ⟨hleft, hlast⟩ := Arena.has_append hrest
      rw [length_nodes, Nat.zero_add] at hleft hlast
      rw [Frame.length_nodes] at hlast
      obtain ⟨hnode, -⟩ := Arena.has_cons hlast
      have hbelow' : below.mapM (t.nestedAt? (fuel + f.lead)) = some ns :=
        mapM_eq_some_mono (fun x y hxy => Arena.nestedAt?_mono hxy (by omega)) hbelow
      have hcursor : t.nestedAt? (fuel + f.lead + 1) (cursor (f :: fs)) =
          some (.node f.value (f.nested ++ ns)) := by
        rw [Arena.nestedAt?, cursor, hnode]
        cases f with
        | around value => simp [last, tops, Frame.tops, Frame.nested, hbelow', Spine.value]
        | between value left =>
            have hread := Arena.nestedAt?_piece hleft (show left.size ≤ fuel + left.size by omega)
            simp only [Frame.lead] at hbelow'
            simp [last, tops, Frame.tops, Frame.nested, hread, hbelow', Spine.value, Frame.lead]
      refine ih hway ?_ (show fuel + f.lead + 1 + size fs ≤ more by omega)
      simp [hcursor]

end Spine

namespace Draft

variable {α : Type}

/-- The tree as a nested one. -/
def nested (d : Draft α) : Nested α := Spine.nested d.root (d.hung.map Piece.nested) d.frames

/-- **The tree of a draft is read back as the draft says.** -/
theorem nested?_arena (d : Draft α) : d.arena.nested? = some d.nested := by
  have hhas : d.arena.Has 0 d.nodes := by
    intro i n hn
    rw [Nat.zero_add, arena, List.getElem?_toArray]
    exact hn
  obtain ⟨hway, hhung⟩ := Arena.has_append hhas
  rw [Spine.length_nodes, Nat.zero_add] at hhung
  have hbelow := Arena.mapM_nestedAt?_forest hhung (Nat.le_refl _)
  refine Spine.nestedAt?_spine hway hbelow ?_
  rw [size_arena]
  omega

end Draft

/-! ### Walking -/

namespace Arena

variable {α : Type}

/-- What `descend_nestedAt?` says of one node, for the children of a node. -/
theorem descend_children {t : Arena α} {read : Nat → Option (Nested α)} {ids : List Nat}
    {ns : List (Nested α)} (hread : ids.mapM read = some ns)
    (hdescend : ∀ id n, read id = some n → ∃ visited : List Nat,
      visited.filterMap t.value? = n.preorder ∧ visited.length = n.size ∧
      ∀ fuel pending seen, t.descend (n.size + fuel) (id :: pending) seen =
        t.descend fuel pending (seen ++ visited.toArray)) :
    ∃ visited : List Nat,
      visited.filterMap t.value? = Nested.preorders ns ∧ visited.length = Nested.sizes ns ∧
      ∀ fuel pending seen, t.descend (Nested.sizes ns + fuel) (ids ++ pending) seen =
        t.descend fuel pending (seen ++ visited.toArray) := by
  induction ids generalizing ns with
  | nil =>
      obtain rfl : ns = [] := by simpa using hread.symm
      exact ⟨[], rfl, rfl, fun fuel pending seen => by simp [Nested.sizes]⟩
  | cons id ids ih =>
      simp only [List.mapM_cons, Option.bind_eq_bind, Option.bind_eq_some_iff, Option.pure_def,
        Option.some.injEq] at hread
      obtain ⟨n, hn, ms, hms, rfl⟩ := hread
      obtain ⟨first, hfirst, hlen, hrun⟩ := hdescend id n hn
      obtain ⟨others, hothers, hlens, hruns⟩ := ih hms
      refine ⟨first ++ others, ?_, ?_, ?_⟩
      · rw [List.filterMap_append, hfirst, hothers, Nested.preorders]
      · rw [List.length_append, hlen, hlens, Nested.sizes]
      · intro fuel pending seen
        rw [Nested.sizes, Nat.add_assoc, List.cons_append, hrun, hruns]
        simp

/-- **A walk visits what the nested tree lists in preorder**, wherever the tree can be read
back. -/
theorem descend_nestedAt? {t : Arena α} {k : Nat} {id : Nat} {n : Nested α}
    (h : t.nestedAt? k id = some n) :
    ∃ visited : List Nat,
      visited.filterMap t.value? = n.preorder ∧ visited.length = n.size ∧
      ∀ fuel pending seen, t.descend (n.size + fuel) (id :: pending) seen =
        t.descend fuel pending (seen ++ visited.toArray) := by
  induction k generalizing id n with
  | zero => simp [nestedAt?] at h
  | succ k ih =>
      rw [nestedAt?] at h
      cases hnode : t.nodes[id]? with
      | none => rw [hnode] at h; simp at h
      | some node =>
          rw [hnode] at h
          simp only [Option.map_eq_some_iff] at h
          obtain ⟨ns, hns, rfl⟩ := h
          have hvalue : t.value? id = some node.value := by rw [value?, hnode]; rfl
          have hchildren : t.children id = node.children := by rw [children, hnode]
          obtain ⟨below, hbelow, hlen, hrun⟩ := descend_children hns fun id n hn => ih hn
          refine ⟨id :: below, ?_, ?_, ?_⟩
          · rw [List.filterMap_cons, hvalue, hbelow, Nested.preorder]
          · rw [List.length_cons, hlen, Nested.size]
          · intro fuel pending seen
            rw [Nested.size, Nat.add_right_comm, descend, hchildren, hrun]
            simp

/-- The values of a tree are those of the nested tree. -/
theorem values_nested? {t : Arena α} {n : Nested α} (h : t.nested? = some n)
    (hsize : n.size ≤ t.size) : t.values = n.preorder := by
  obtain ⟨seen, hseen, -, hrun⟩ := descend_nestedAt? h
  obtain ⟨fuel, hfuel⟩ : ∃ fuel, t.size = n.size + fuel := ⟨t.size - n.size, by omega⟩
  rw [values, descendants, hfuel, hrun]
  cases fuel <;> simpa [descend] using hseen

end Arena

/-! ### The values of a draft -/

namespace Nested

variable {α : Type}

mutual

theorem length_preorder (n : Nested α) : n.preorder.length = n.size := by
  cases n with
  | node value children => rw [preorder, size, List.length_cons, length_preorders children]

theorem length_preorders (ns : List (Nested α)) : (preorders ns).length = sizes ns := by
  cases ns with
  | nil => rfl
  | cons n ns =>
      rw [preorders, sizes, List.length_append, length_preorder n, length_preorders ns]

end

end Nested

namespace Piece

variable {α : Type}

theorem preorder_perm (p : Piece α) : p.nested.preorder.Perm p.values := by
  induction p with
  | leaf value levels => exact .refl _
  | around value inner ih =>
      simpa [nested, values, Nested.preorder, Nested.preorders] using ih
  | between value left right ihl ihr =>
      simp only [nested, values, Nested.preorder, Nested.preorders, List.append_nil]
      exact ((ihl.append ihr).cons value).trans List.perm_middle.symm

end Piece

namespace Forest

variable {α : Type}

theorem values_nodes (parent base : Nat) (ps : List (Piece α)) :
    (nodes parent base ps).map (·.value) = ps.flatMap Piece.values := by
  induction ps generalizing base with
  | nil => rfl
  | cons p ps ih => simp [nodes, ih]

theorem preorders_perm (ps : List (Piece α)) :
    (Nested.preorders (ps.map Piece.nested)).Perm (ps.flatMap Piece.values) := by
  induction ps with
  | nil => exact .refl _
  | cons p ps ih =>
      simp only [List.map_cons, Nested.preorders, List.flatMap_cons]
      exact p.preorder_perm.append ih

end Forest

namespace Frame

variable {α : Type}

/-- What the node and those to its left hold, in the order of their creation. -/
def values : Frame α → List α
  | around value => [value]
  | between value left => left.values ++ [value]

end Frame

namespace Draft

variable {α : Type}

/-- What the nodes of the tree hold, in the order of their creation. -/
def values (d : Draft α) : List α :=
  d.root :: (d.frames.reverse.flatMap Frame.values ++ d.hung.flatMap Piece.values)

theorem values_spine (root : α) (below : List Nat) (h : Nat) (fs : List (Frame α)) :
    (Spine.nodes root below h fs).map (·.value) = root :: fs.reverse.flatMap Frame.values := by
  induction fs generalizing below h with
  | nil => rfl
  | cons f fs ih =>
      cases f <;>
        simp [Spine.nodes, ih, Frame.nodes, Frame.values, Spine.last, Spine.value, Frame.value]

theorem values_nodes (d : Draft α) : d.nodes.map (·.value) = d.values := by
  rw [nodes, List.map_append, values_spine, Forest.values_nodes, values, List.cons_append]

theorem preorder_spine (root : α) (ns : List (Nested α)) (fs : List (Frame α)) :
    (Spine.nested root ns fs).preorder.Perm
      (root :: (fs.reverse.flatMap Frame.values ++ Nested.preorders ns)) := by
  induction fs generalizing ns with
  | nil => exact .refl _
  | cons f fs ih =>
      refine (ih _).trans (.cons root ?_)
      rw [List.reverse_cons, List.flatMap_append, List.append_assoc]
      refine .append_left _ ?_
      cases f with
      | around value =>
          simp [Frame.nested, Frame.values, Frame.value, Nested.preorders, Nested.preorder]
      | between value left =>
          simp only [Frame.nested, Frame.values, Frame.value, Nested.preorders, Nested.preorder,
            List.flatMap_cons, List.flatMap_nil, List.append_nil, List.cons_append,
            List.nil_append, List.append_assoc]
          exact ((left.preorder_perm.append_right _).cons value).trans List.perm_middle.symm

/-- The nested tree holds what the nodes hold, in another order. -/
theorem preorder_perm (d : Draft α) : d.nested.preorder.Perm d.values := by
  refine (preorder_spine d.root _ d.frames).trans (.cons d.root (.append_left _ ?_))
  exact Forest.preorders_perm d.hung

/-- **A walk over the tree of a draft meets every node once.** -/
theorem values_arena (d : Draft α) : d.arena.values.Perm d.values := by
  have hsize : d.nested.size = d.arena.size := by
    rw [← Nested.length_preorder, d.preorder_perm.length_eq, ← values_nodes, List.length_map,
      length_nodes, size_arena]
  rw [Arena.values_nested? d.nested?_arena (Nat.le_of_eq hsize)]
  exact d.preorder_perm

end Draft

end Formula
