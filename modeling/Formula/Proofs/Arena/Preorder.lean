/-
Walking over a tree is visiting it recursively.

`Arena.walk` keeps the nodes that are still to be visited in a list, and it stops after as many
steps as the tree has nodes.  `Arena.Preorder` says what a recursive visit does, with neither a
list of pending nodes nor a bound.  Where the links of a tree are in order, the walk from a node
visits what the recursive visit does (`Linked.preorder_walk`), and the bound never cuts it short
(`Linked.visit_eq_walk`).  The walk without depths keeps in step with it, so the same holds of
`Arena.descendants` (`Linked.descend_eq_descendants`).

What is visited below a node are the nodes whose way up passes it (`Linked.mem_descendants`),
each of them once and with its depth.  So a walk from the root visits the whole tree
(`Linked.perm_descendants_root`).
-/
import Formula.Arena.Walk
import Formula.Proofs.Arena.Ways

namespace Formula.Arena

variable {α : Type} {t : Arena α} {id depth : Nat} {ids : List NodeId}
  {visited : List (NodeId × Nat)}

/-! ### Visiting a tree recursively -/

/-- The nodes `ids` are `depth` levels down, and visiting each of them and then what is below
it, one after the other, visits `visited`: nodes with their depths. -/
inductive Preorder (t : Arena α) : (depth : Nat) → (ids : List NodeId) →
    (visited : List (NodeId × Nat)) → Prop
  | nil {depth : Nat} : Preorder t depth [] []
  | cons {depth : Nat} {id : NodeId} {ids : List NodeId} {below rest : List (NodeId × Nat)}
      (hbelow : Preorder t (depth + 1) (t.children id) below) (hrest : Preorder t depth ids rest) :
      Preorder t depth (id :: ids) ((id, depth) :: (below ++ rest))

namespace Preorder

/-- There is only one way to visit a tree recursively. -/
theorem unique (h : t.Preorder depth ids visited) {others : List (NodeId × Nat)}
    (hothers : t.Preorder depth ids others) : visited = others := by
  induction h generalizing others with
  | nil =>
      cases hothers
      rfl
  | cons _ _ ihbelow ihrest =>
      cases hothers with
      | cons hbelow hrest => rw [ihbelow hbelow, ihrest hrest]

/-- **A walk that comes to some nodes visits what the recursive visit does**, and goes on with
the nodes that were pending behind them. -/
theorem visit_eq (h : t.Preorder depth ids visited) (fuel : Nat)
    (pending : List (NodeId × Nat)) (seen : Array (NodeId × Nat)) :
    t.visit (visited.length + fuel) (ids.map (·, depth) ++ pending) seen =
      t.visit fuel pending (seen ++ visited.toArray) := by
  induction h generalizing fuel pending seen with
  | nil => simp
  | @cons depth id ids below rest _ _ ihbelow ihrest =>
      have hlength : ((id, depth) :: (below ++ rest)).length + fuel =
          below.length + (rest.length + fuel) + 1 := by
        simp only [List.length_cons, List.length_append]
        omega
      rw [hlength, List.map_cons, List.cons_append, visit, ihbelow, ihrest]
      simp

/-- The nodes themselves come among those that are visited. -/
theorem mem_of_mem (h : t.Preorder depth ids visited) (hid : id ∈ ids) :
    id ∈ visited.map (·.1) := by
  induction h with
  | nil => cases hid
  | cons _ _ _ ihrest =>
      rw [List.map_cons, List.map_append]
      rcases List.mem_cons.mp hid with rfl | hid
      · exact List.mem_cons_self
      · exact List.mem_cons_of_mem _ (List.mem_append_right _ (ihrest hid))

/-- With a node, the nodes directly below it are visited. -/
theorem mem_of_mem_children (h : t.Preorder depth ids visited) {child : Nat}
    (hid : id ∈ visited.map (·.1)) (hchild : child ∈ t.children id) :
    child ∈ visited.map (·.1) := by
  induction h with
  | nil => cases hid
  | cons hbelow _ ihbelow ihrest =>
      rw [List.map_cons, List.map_append] at hid ⊢
      refine List.mem_cons_of_mem _ ?_
      rcases List.mem_cons.mp hid with rfl | hid
      · exact List.mem_append_left _ (hbelow.mem_of_mem hchild)
      · rcases List.mem_append.mp hid with hid | hid
        · exact List.mem_append_left _ (ihbelow hid)
        · exact List.mem_append_right _ (ihrest hid)

/-- The visit of nodes that are further down is the same, with greater depths. -/
theorem lower (h : t.Preorder depth ids visited) (more : Nat) :
    t.Preorder (depth + more) ids (visited.map fun v => (v.1, v.2 + more)) := by
  induction h with
  | nil => exact .nil
  | @cons depth id ids below rest _ _ ihbelow ihrest =>
      rw [List.map_cons, List.map_append]
      rw [Nat.add_right_comm] at ihbelow
      exact .cons ihbelow ihrest

end Preorder

/-! ### What is visited -/

namespace Linked

/-- **Every tree can be visited recursively.** -/
theorem exists_preorder (h : t.Linked) (depth : Nat) (hids : ∀ id ∈ ids, id < t.size) :
    ∃ visited, t.Preorder depth ids visited := by
  -- side by side, once each of the nodes can be visited
  have hlist : ∀ (depth : Nat) (ids : List NodeId),
      (∀ id ∈ ids, ∀ depth, ∃ visited, t.Preorder depth [id] visited) →
      ∃ visited, t.Preorder depth ids visited := by
    intro depth ids heach
    induction ids with
    | nil => exact ⟨[], .nil⟩
    | cons id ids ih =>
        obtain ⟨first, hfirst⟩ := heach id List.mem_cons_self depth
        obtain ⟨rest, hrest⟩ := ih fun other hother => heach other (List.mem_cons_of_mem _ hother)
        cases hfirst with
        | cons hbelow _ => exact ⟨_, .cons hbelow hrest⟩
  have hnode : ∀ id < t.size, ∀ depth, ∃ visited, t.Preorder depth [id] visited := by
    refine h.downward fun id _ hchildren depth => ?_
    obtain ⟨below, hbelow⟩ := hlist (depth + 1) (t.children id) hchildren
    exact ⟨_, .cons hbelow .nil⟩
  exact hlist depth ids fun id hid => hnode id (hids id hid)

/-- What is visited is in the tree, and its way up passes one of the nodes. -/
theorem way_of_preorder (h : t.Linked) (hvisit : t.Preorder depth ids visited)
    (hids : ∀ id ∈ ids, id < t.size) {node : Nat} (hnode : node ∈ visited.map (·.1)) :
    node < t.size ∧ ∃ id ∈ ids, id ∈ t.way node := by
  induction hvisit with
  | nil => cases hnode
  | @cons depth id ids below rest _ _ ihbelow ihrest =>
      rw [List.map_cons, List.map_append] at hnode
      rcases List.mem_cons.mp hnode with rfl | hnode
      · exact ⟨hids _ List.mem_cons_self, _, List.mem_cons_self, t.self_mem_way _⟩
      · rcases List.mem_append.mp hnode with hnode | hnode
        · obtain ⟨hlt, child, hchild, hway⟩ := ihbelow (fun child hchild => h.child_lt hchild) hnode
          have habove := h.parent_mem_ancestors hlt hway ((h.mem_children child id).mp hchild)
          exact ⟨hlt, id, List.mem_cons_self, List.mem_cons_of_mem _ habove⟩
        · obtain ⟨hlt, other, hother, hway⟩ :=
            ihrest (fun other hother => hids other (List.mem_cons_of_mem _ hother)) hnode
          exact ⟨hlt, other, List.mem_cons_of_mem _ hother, hway⟩

/-- The depth that is noted with a node is its depth in the tree, above the depth `base` from
which the visit counts. -/
theorem depth_of_preorder (h : t.Linked) (hvisit : t.Preorder depth ids visited) {base : Nat}
    (hids : ∀ id ∈ ids, t.depth id = base + depth) {node level : Nat}
    (hnode : (node, level) ∈ visited) : t.depth node = base + level := by
  induction hvisit with
  | nil => cases hnode
  | @cons depth id ids below rest _ _ ihbelow ihrest =>
      rcases List.mem_cons.mp hnode with heq | hnode
      · obtain ⟨rfl, rfl⟩ := Prod.mk.inj heq
        exact hids _ List.mem_cons_self
      · rcases List.mem_append.mp hnode with hnode | hnode
        · refine ihbelow (fun child hchild => ?_) hnode
          have hdepth := hids id List.mem_cons_self
          rw [h.depth_eq ((h.mem_children child id).mp hchild)]
          omega
        · exact ihrest (fun other hother => hids other (List.mem_cons_of_mem _ hother)) hnode

/-- No node is visited twice, if no way up passes two of the nodes where the visit starts. -/
theorem nodup_of_preorder (h : t.Linked) (hvisit : t.Preorder depth ids visited)
    (hids : ∀ id ∈ ids, id < t.size)
    (hapart : ids.Pairwise fun a b => ∀ node < t.size, a ∈ t.way node → b ∉ t.way node) :
    (visited.map (·.1)).Nodup := by
  induction hvisit with
  | nil => exact List.nodup_nil
  | @cons depth id ids below rest hbelow hrest ihbelow ihrest =>
      obtain ⟨hfirst, hothers⟩ := List.pairwise_cons.mp hapart
      have hchildren : ∀ child ∈ t.children id, child < t.size :=
        fun child hchild => h.child_lt hchild
      have hothersLt : ∀ other ∈ ids, other < t.size :=
        fun other hother => hids other (List.mem_cons_of_mem _ hother)
      -- what is below the first node has that node above it
      have hunder : ∀ node ∈ below.map (·.1), node < t.size ∧ id ∈ t.ancestors node := by
        intro node hnode
        obtain ⟨hlt, child, hchild, hway⟩ := h.way_of_preorder hbelow hchildren hnode
        exact ⟨hlt, h.parent_mem_ancestors hlt hway ((h.mem_children child id).mp hchild)⟩
      -- and what is visited after it has not
      have hbeside : ∀ node ∈ rest.map (·.1), id ∉ t.way node := by
        intro node hnode hmem
        obtain ⟨hlt, other, hother, hway⟩ := h.way_of_preorder hrest hothersLt hnode
        exact hfirst other hother node hlt hmem hway
      rw [List.map_cons, List.map_append]
      refine List.nodup_cons.mpr ⟨fun hmem => ?_, List.nodup_append.mpr ⟨?_, ?_, ?_⟩⟩
      · rcases List.mem_append.mp hmem with hmem | hmem
        · exact Nat.lt_irrefl _ (h.depth_lt_of_mem_ancestors (hunder id hmem).2)
        · exact hbeside id hmem (t.self_mem_way id)
      · refine ihbelow hchildren ((h.nodup id).imp_of_mem fun {a b} ha hb hne => ?_)
        intro node _ hleft hright
        exact hne (h.eq_of_siblings hleft hright ((h.mem_children a id).mp ha)
          ((h.mem_children b id).mp hb))
      · exact ihrest hothersLt hothers
      · rintro node hnode _ hother rfl
        exact hbeside node hother (List.mem_cons_of_mem _ (hunder node hnode).2)

/-- A visit that starts at one node visits no more nodes than the tree has. -/
theorem length_le_of_preorder (h : t.Linked) (hid : id < t.size)
    (hvisit : t.Preorder depth [id] visited) : visited.length ≤ t.size := by
  have hids : ∀ node ∈ [id], node < t.size := by
    intro node hnode
    rw [List.mem_singleton.mp hnode]
    exact hid
  have hnodup := h.nodup_of_preorder hvisit hids (List.pairwise_singleton _ _)
  have hsub : visited.map (·.1) ⊆ List.range t.size := fun node hnode =>
    List.mem_range.mpr (h.way_of_preorder hvisit hids hnode).1
  have hle := (hnodup.subperm hsub).length_le
  rw [List.length_map, List.length_range] at hle
  exact hle

/-! ### The walk -/

/-- **The walk from a node visits what the recursive visit does.** -/
theorem preorder_walk (h : t.Linked) (hid : id < t.size) : t.Preorder 0 [id] (t.walk id) := by
  have hids : ∀ node ∈ [id], node < t.size := by simpa using hid
  obtain ⟨visited, hvisit⟩ := h.exists_preorder 0 hids
  obtain ⟨fuel, hfuel⟩ : ∃ k, t.size = visited.length + k :=
    ⟨t.size - visited.length, by have := h.length_le_of_preorder hid hvisit; omega⟩
  have hrun := hvisit.visit_eq fuel [] #[]
  have hend : t.visit fuel [] (#[] ++ visited.toArray) = visited.toArray := by
    cases fuel <;> simp [visit]
  rw [List.map_singleton, List.append_nil, ← hfuel, hend] at hrun
  rw [walk, hrun]
  exact hvisit

/-- **The fuel of a walk always suffices**: more of it visits no other nodes. -/
theorem visit_eq_walk (h : t.Linked) (hid : id < t.size) {fuel : Nat} (hfuel : t.size ≤ fuel) :
    (t.visit fuel [(id, 0)] #[]).toList = t.walk id := by
  have hvisit := h.preorder_walk hid
  obtain ⟨more, rfl⟩ : ∃ k, fuel = (t.walk id).length + k :=
    ⟨fuel - (t.walk id).length, by have := h.length_le_of_preorder hid hvisit; omega⟩
  have hrun := hvisit.visit_eq more [] #[]
  have hend : t.visit more [] (#[] ++ (t.walk id).toArray) = (t.walk id).toArray := by
    cases more <;> simp [visit]
  rw [List.map_singleton, List.append_nil, hend] at hrun
  rw [hrun]

/-- The same for the walk that only lists the nodes. -/
theorem descend_eq_descendants (h : t.Linked) (hid : id < t.size) {fuel : Nat}
    (hfuel : t.size ≤ fuel) : (t.descend fuel [id] #[]).toList = t.descendants id := by
  have hvisit := t.map_visit fuel [(id, 0)] #[]
  rw [List.map_singleton, Array.map_empty] at hvisit
  rw [← hvisit, Array.toList_map, h.visit_eq_walk hid hfuel, descendants_eq_map_walk]

/-- **The node and then what is below its children, in order.** -/
theorem descendants_eq (h : t.Linked) (hid : id < t.size) :
    t.descendants id = id :: (t.children id).flatMap t.descendants := by
  have hlist : ∀ (ids : List NodeId) (visited : List (NodeId × Nat)),
      (∀ id ∈ ids, id < t.size) → t.Preorder 1 ids visited →
      visited.map (·.1) = ids.flatMap t.descendants := by
    intro ids visited hids hvisit
    induction ids generalizing visited with
    | nil =>
        cases hvisit
        rfl
    | cons id ids ih =>
        cases hvisit with
        | @cons _ _ _ below rest hbelow hrest =>
            have hfirst := ((h.preorder_walk (hids id List.mem_cons_self)).lower 1).unique
              (.cons hbelow .nil)
            have hmap := congrArg (List.map (·.1)) hfirst
            rw [List.map_map] at hmap
            have hrest' := ih rest (fun other hother => hids other (List.mem_cons_of_mem _ hother))
              hrest
            have hids' : t.descendants id = id :: below.map (·.1) := by
              simpa [descendants_eq_map_walk, Function.comp_def] using hmap
            rw [List.flatMap_cons, ← hrest', hids', List.map_cons, List.map_append]
            rfl
  have hvisit := h.preorder_walk hid
  rw [descendants_eq_map_walk]
  generalize t.walk id = visited at hvisit
  cases hvisit with
  | @cons _ _ _ below rest hbelow hrest =>
      cases hrest
      rw [List.append_nil, List.map_cons,
        hlist _ _ (fun child hchild => h.child_lt hchild) hbelow]

/-- **The nodes at and below a node are those whose way up passes it.** -/
theorem mem_descendants (h : t.Linked) (hid : id < t.size) {node : Nat} :
    node ∈ t.descendants id ↔ node < t.size ∧ id ∈ t.way node := by
  have hvisit := h.preorder_walk hid
  rw [descendants_eq_map_walk]
  constructor
  · intro hnode
    obtain ⟨hlt, first, hfirst, hway⟩ := h.way_of_preorder hvisit (by simpa using hid) hnode
    rw [List.mem_singleton.mp hfirst] at hway
    exact ⟨hlt, hway⟩
  · rintro ⟨hlt, hway⟩
    refine h.upward (P := fun node => id ∈ t.way node → node ∈ (t.walk id).map (·.1)) ?_ ?_ node
      hlt hway
    · intro hroot
      rw [h.way_root, List.mem_singleton] at hroot
      rw [← hroot]
      exact hvisit.mem_of_mem List.mem_cons_self
    · intro node parent hparent hrest hmem
      rw [h.way_eq_cons hparent] at hmem
      rcases List.mem_cons.mp hmem with rfl | hmem
      · exact hvisit.mem_of_mem List.mem_cons_self
      · exact hvisit.mem_of_mem_children (hrest hmem) ((h.mem_children node parent).mpr hparent)

theorem nodup_descendants (h : t.Linked) (hid : id < t.size) : (t.descendants id).Nodup := by
  rw [descendants_eq_map_walk]
  exact h.nodup_of_preorder (h.preorder_walk hid) (by simpa using hid)
    (List.pairwise_singleton _ _)

/-- **A walk from the root visits every node once.** -/
theorem perm_descendants_root (h : t.Linked) :
    (t.descendants Arena.root).Perm (List.range t.size) := by
  have hroot : Arena.root < t.size := h.size_pos
  refine (List.perm_ext_iff_of_nodup (h.nodup_descendants hroot) List.nodup_range).mpr fun id => ?_
  rw [h.mem_descendants hroot, List.mem_range]
  refine ⟨fun hmem => hmem.1, fun hlt => ⟨hlt, ?_⟩⟩
  exact List.mem_of_getLast? (h.getLast?_way hlt)

/-- Every node is below the root. -/
theorem mem_descendants_root (h : t.Linked) : id ∈ t.descendants Arena.root ↔ id < t.size :=
  h.perm_descendants_root.mem_iff.trans List.mem_range

/-- A walk from the root notes with each node how many nodes are above it. -/
theorem walk_root (h : t.Linked) :
    t.walk Arena.root = (t.descendants Arena.root).map fun id => (id, t.depth id) := by
  have hdepth : ∀ v ∈ t.walk Arena.root, v = (v.1, t.depth v.1) := by
    rintro ⟨node, level⟩ hnode
    have hroot : ∀ id ∈ [Arena.root], t.depth id = 0 + 0 := by
      intro id hid
      rw [List.mem_singleton.mp hid, h.depth_root]
    have hlevel := h.depth_of_preorder (h.preorder_walk h.size_pos) hroot hnode
    rw [hlevel, Nat.zero_add]
  rw [descendants_eq_map_walk, List.map_map]
  calc t.walk Arena.root = (t.walk Arena.root).map id := (List.map_id _).symm
    _ = _ := List.map_congr_left hdepth

end Linked

end Formula.Arena
