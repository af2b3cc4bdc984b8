/-
Walks over trees that are built step by step.

Whatever tokens a tree is built from, and in whatever order, its links fit together, and going up
or down along them ends.  Going up from a node ends at the root.  Going down from a node visits
what a recursive visit does, and from the root it comes to every node once.  The text of a tree is
written along such a walk.
-/
import Formula.Proofs.Tree.Built

namespace Formula

/-- The links of a tree fit together, and one comes to an end when one follows them. -/
structure Arena.Consistent {α : Type} (t : Arena α) : Prop where
  /-- Node 0 is the only one without a parent. -/
  parent_eq_none : ∀ id < t.size, t.parent? id = none ↔ id = root
  /-- A node is among the children of its parent, and of no other node. -/
  mem_children : ∀ id parent : Nat, id ∈ t.children parent ↔ t.parent? id = some parent
  /-- No node comes twice among all the lists of children. -/
  nodup_children : ((List.range t.size).flatMap t.children).Nodup
  /-- What is above a node is reached from parent to parent. -/
  chain_ancestors : ∀ id < t.size,
    (id :: t.ancestors id).IsChain fun below above => t.parent? below = some above
  /-- The last node above a node is the root. -/
  last_ancestor : ∀ id < t.size, id ≠ root → (t.ancestors id).getLast? = some root
  /-- Going up ends by itself: one does not come further if one may go on for longer. -/
  climb_eq : ∀ id < t.size, ∀ fuel, t.size ≤ fuel →
    t.climb fuel (t.parent? id) = t.ancestors id
  /-- From the root one comes to every node once. -/
  perm_descendants : (t.descendants root).Perm (List.range t.size)
  /-- Going down ends by itself. -/
  visit_eq : ∀ id < t.size, ∀ fuel, t.size ≤ fuel →
    (t.visit fuel [(id, 0)] #[]).toList = t.walk id
  /-- So it does where no depths are noted. -/
  descend_eq : ∀ id < t.size, ∀ fuel, t.size ≤ fuel →
    (t.descend fuel [id] #[]).toList = t.descendants id

namespace Arena.Linked

variable {α : Type} {t : Arena α}

theorem parent_eq_none (h : t.Linked) {id : NodeId} (hid : id < t.size) :
    t.parent? id = none ↔ id = root := by
  constructor
  · intro hnone
    by_contra hroot
    obtain ⟨parent, hparent⟩ := h.exists_parent id hid hroot
    rw [hnone] at hparent
    cases hparent
  · rintro rfl
    exact h.parent_root

theorem nodup_children (h : t.Linked) : ((List.range t.size).flatMap t.children).Nodup := by
  refine List.nodup_flatMap.mpr ⟨fun id _ => h.nodup id, ?_⟩
  refine List.nodup_range.imp fun {left right} hne => ?_
  intro child hleft hright
  have hparent := (h.mem_children child left).mp hleft
  rw [(h.mem_children child right).mp hright] at hparent
  exact hne (Option.some.inj hparent).symm

theorem last_ancestor (h : t.Linked) {id : NodeId} (hid : id < t.size) (hroot : id ≠ root) :
    (t.ancestors id).getLast? = some root := by
  obtain ⟨parent, hparent⟩ := h.exists_parent id hid hroot
  rw [h.ancestors_eq hparent]
  exact h.getLast?_way (h.parent_lt id parent hparent)

end Arena.Linked

namespace Tree.Built

variable {tree : Tree}

/-- **However a tree is built, its links fit together**, and walks along them end. -/
theorem consistent (h : tree.Built) : tree.Consistent where
  parent_eq_none := fun _ hid => h.linked.parent_eq_none hid
  mem_children := h.linked.mem_children
  nodup_children := h.linked.nodup_children
  chain_ancestors := fun _ hid => h.linked.isChain_way hid
  last_ancestor := fun _ hid hroot => h.linked.last_ancestor hid hroot
  climb_eq := fun _ hid _ hfuel =>
    (h.linked.climb_eq_climb hid (Nat.le_succ _) hfuel).symm
  perm_descendants := h.linked.perm_descendants_root
  visit_eq := fun _ hid _ hfuel => h.linked.visit_eq_walk hid hfuel
  descend_eq := fun _ hid _ hfuel => h.linked.descend_eq_descendants hid hfuel

/-- The node of the operator was made last, and is between the other two. -/
theorem consistent_difference : openDifference.Built ∧ openDifference.Consistent :=
  ⟨built_openDifference, built_openDifference.consistent⟩

/-- **Walking is visiting recursively, and the text of a tree is written along a walk.**  The nodes
below a node, in the order of a walk, are the node and then those below each of its children, and
a walk that notes depths visits exactly what the recursive visit does, with the same depths.

A tree is shown if every node in it has so few nodes above it that its line can be indented, and
every token in it can be shown.  Then there is one line for each node below the root in this
order, indented by two blanks for each node above it. -/
theorem walk_recursive (h : tree.Built) :
    (∀ id < tree.size,
      tree.descendants id = id :: (tree.children id).flatMap tree.descendants ∧
      tree.descendants id = (tree.walk id).map (·.1) ∧
      ∀ visited, tree.Preorder 0 [id] visited ↔ visited = tree.walk id) ∧
    tree.display? =
      if ∀ id < tree.size, 2 * (tree.ancestors id).length ≤ Arena.greatestIndent ∧
          (tree.token id).isWritable = true then
        some (String.join ((tree.descendants Arena.root).map fun id =>
          String.ofList (List.replicate (2 * (tree.ancestors id).length) ' ') ++
            (tree.token id).display ++ "\n"))
      else none := by
  refine ⟨fun id hid => ⟨h.linked.descendants_eq hid, tree.descendants_eq_map_walk id, ?_⟩,
    h.linked.display?_eq⟩
  intro visited
  have hwalk := h.linked.preorder_walk hid
  constructor
  · intro hvisit
    exact hvisit.unique hwalk
  · rintro rfl
    exact hwalk

/-- The operator comes before the name that was there first. -/
theorem walk_recursive_difference :
    openDifference.Built ∧ openDifference.Preorder 0 [2] [(2, 0), (1, 1)] ∧
      openDifference.display? = some "Base()\n  Func(-)\n    Identity(x)\n" := by
  obtain ⟨hwalks, hdisplay⟩ := built_openDifference.walk_recursive
  refine ⟨built_openDifference, ((hwalks 2 (by decide)).2.2 _).mpr (by decide), ?_⟩
  rw [hdisplay, if_pos (by decide)]
  decide +kernel

end Tree.Built

/-! ### Trees that are too deep to be shown -/

namespace Tree

/-- One node below the root, and `n` more around it, one after the other. -/
def tower : Nat → Tree
  | 0 => (ofToken .empty).add Arena.root .empty
  | n + 1 => (tower n).wrap (n + 1) .empty

/-- What is known of a tower: the node that was put there last is below the root, and everything
else is above the node that was there first. -/
structure IsTower (tree : Tree) (n : Nat) : Prop where
  built : tree.Built
  size_eq : tree.size = n + 2
  parent_top : tree.parent? (n + 1) = some Arena.root
  top_mem_way : n + 1 ∈ tree.way 1
  depth_eq : tree.depth 1 = n + 1
  token_eq : ∀ id, tree.token id = .empty

theorem isTower_zero : (tower 0).IsTower 0 where
  built := .add (.ofToken .empty) (by decide) .empty
  size_eq := by decide
  parent_top := by decide
  top_mem_way := by decide
  depth_eq := by decide
  token_eq := by
    intro id
    rw [tower, token_add _ (by decide)]
    split
    · rfl
    · cases id <;> rfl

/-- One node more around the topmost one makes the tower one level higher. -/
theorem IsTower.wrap {tree : Tree} {n : Nat} (h : tree.IsTower n) :
    (tree.wrap (n + 1) .empty).IsTower (n + 1) := by
  have hlinked := h.built.linked
  have hparent := h.parent_top
  have hone : 1 < tree.size := by
    rw [h.size_eq]
    omega
  have htop : n + 1 < tree.size := by
    rw [h.size_eq]
    exact Nat.lt_succ_self _
  have hnew : tree.size = n + 1 + 1 := h.size_eq
  refine ⟨.wrap h.built htop (Nat.succ_ne_zero n) .empty, ?_, ?_, ?_, ?_, ?_⟩
  · exact (Arena.size_wrap_of_parent? hparent _).trans (congrArg (· + 1) h.size_eq)
  · rw [← hnew]
    exact hlinked.parent?_wrap_new hparent _
  · rw [← hnew]
    exact (hlinked.mem_way_wrap hparent _ hone).mpr (.inr ⟨rfl, h.top_mem_way⟩)
  · have hbelow : 1 ∈ tree.descendants (n + 1) :=
      (hlinked.mem_descendants htop).mpr ⟨hone, h.top_mem_way⟩
    exact (hlinked.depth_wrap hparent _ hone).trans
      ((if_pos hbelow).trans (congrArg (· + 1) h.depth_eq))
  · intro id
    rw [token_wrap _ hlinked hparent, h.token_eq id, ite_self]

theorem isTower_tower (n : Nat) : (tower n).IsTower n := by
  induction n with
  | zero => exact isTower_zero
  | succ n ih => exact ih.wrap

/-- **A tower is shown exactly if it has no more than 32767 levels.** -/
theorem isSome_display?_tower (n : Nat) : (tower n).display?.isSome = true ↔ n + 1 ≤ 32767 := by
  have htower := isTower_tower n
  have hone : 1 < (tower n).size := by
    rw [htower.size_eq]
    omega
  rw [htower.built.linked.display?_eq]
  constructor
  · intro hshown
    by_contra hdeep
    rw [if_neg] at hshown
    · cases hshown
    · intro hfits
      have hfirst := (hfits 1 hone).1
      rw [htower.depth_eq, Arena.greatestIndent] at hfirst
      omega
  · intro hlow
    rw [if_pos]
    · rfl
    · intro id hid
      have hdepth := htower.built.linked.depth_lt hid
      rw [htower.size_eq] at hdepth
      rw [htower.token_eq, Arena.greatestIndent]
      exact ⟨by omega, rfl⟩

/-- With 32768 levels there is a line that cannot be indented, so nothing is shown, although there
is a text. -/
theorem display?_tower_32767 : (tower 32767).Built ∧ ((tower 32767).ancestors 1).length = 32768 ∧
    (tower 32767).display? = none ∧
    (tower 32767).display? ≠ some (String.join (((tower 32767).descendants Arena.root).map fun id =>
      String.ofList (List.replicate (2 * ((tower 32767).ancestors id).length) ' ') ++
        ((tower 32767).token id).display ++ "\n")) := by
  have htower := isTower_tower 32767
  have hnone : (tower 32767).display? = none := by
    rw [← Option.not_isSome_iff_eq_none, isSome_display?_tower]
    omega
  refine ⟨htower.built, htower.depth_eq, hnone, ?_⟩
  rw [hnone]
  exact nofun

end Tree

end Formula
