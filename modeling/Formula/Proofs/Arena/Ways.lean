/-
The way from a node up to the root.

`Arena.ancestors` follows the links to the parents, for no more nodes than the tree has.  Where
the links are in order no node comes twice on the way up, so this is always enough: the way from
a node is the node and then the way from its parent (`Linked.way_eq_cons`), and it ends at the
root (`Linked.getLast?_way`).

Two ways of induction come with this.  What holds of the root, and of a node once it holds of
its parent, holds everywhere (`Linked.upward`).  So does what holds of a node once it holds of
all nodes directly below it (`Linked.downward`), since no way is longer than the tree is large.
-/
import Formula.Proofs.Arena.Links
import Mathlib.Data.List.Nodup
import Mathlib.Data.List.Perm.Subperm

namespace Formula.Arena

variable {α : Type} {t : Arena α} {id parent : Nat}

/-- A node and the nodes above it, up to the root. -/
def way (t : Arena α) (id : NodeId) : List NodeId := id :: t.ancestors id

/-- The number of nodes above a node. -/
def depth (t : Arena α) (id : NodeId) : Nat := (t.ancestors id).length

theorem self_mem_way (t : Arena α) (id : NodeId) : id ∈ t.way id := List.mem_cons_self

theorem length_way (t : Arena α) (id : NodeId) : (t.way id).length = t.depth id + 1 := rfl

/-! ### Climbing as far as it goes -/

/-- With less fuel the same nodes are met, but fewer of them. -/
theorem climb_eq_take {fuel more : Nat} (hle : fuel ≤ more) (link : Option NodeId) :
    t.climb fuel link = (t.climb more link).take fuel := by
  induction fuel generalizing more link with
  | zero => rfl
  | succ fuel ih =>
      obtain ⟨more, rfl⟩ : ∃ k, more = k + 1 := ⟨more - 1, by omega⟩
      cases link with
      | none => rfl
      | some id => rw [climb, climb, List.take_succ_cons, ih (Nat.le_of_succ_le_succ hle)]

/-- Only the links to the parents matter. -/
theorem climb_congr {β : Type} {u : Arena β} (h : ∀ id, u.parent? id = t.parent? id) (fuel : Nat)
    (link : Option NodeId) : u.climb fuel link = t.climb fuel link := by
  induction fuel generalizing link with
  | zero => rfl
  | succ fuel ih =>
      cases link with
      | none => rfl
      | some id => rw [climb, climb, h, ih]

/-- Every node that is met lies higher than the one before. -/
theorem climb_descends {level : Nat → Nat}
    (hlevel : ∀ id above : Nat, t.parent? id = some above → level above < level id)
    (fuel : Nat) (id : NodeId) :
    (id :: t.climb fuel (t.parent? id)).Pairwise fun below above => level above < level below := by
  induction fuel generalizing id with
  | zero => exact List.pairwise_singleton _ _
  | succ fuel ih =>
      cases hparent : t.parent? id with
      | none => exact List.pairwise_singleton _ _
      | some parent =>
          have hup := hlevel id parent hparent
          have hrest := ih parent
          rw [climb]
          refine List.pairwise_cons.mpr ⟨fun above habove => ?_, hrest⟩
          rcases List.mem_cons.mp habove with rfl | hmem
          · exact hup
          · exact Nat.lt_trans ((List.pairwise_cons.mp hrest).1 above hmem) hup

namespace Linked

/-- No node comes twice on a way up. -/
theorem nodup_climb (h : t.Linked) (fuel : Nat) (id : NodeId) :
    (id :: t.climb fuel (t.parent? id)).Nodup := by
  obtain ⟨level, hlevel⟩ := h.climbs
  refine (climb_descends hlevel fuel id).imp fun {below above} hlt => ?_
  rintro rfl
  exact Nat.lt_irrefl _ hlt

theorem nodup_way (h : t.Linked) (id : NodeId) : (t.way id).Nodup := h.nodup_climb t.size id

/-- A way up has no more nodes than the tree. -/
theorem length_climb_lt (h : t.Linked) (hid : id < t.size) (fuel : Nat) :
    (t.climb fuel (t.parent? id)).length < t.size := by
  have hsub : (id :: t.climb fuel (t.parent? id)) ⊆ List.range t.size := by
    intro above habove
    rw [List.mem_range]
    rcases List.mem_cons.mp habove with rfl | hmem
    · exact hid
    · exact h.climb_lt (fun first hfirst => h.parent_lt id first hfirst) hmem
  have hle := ((h.nodup_climb fuel id).subperm hsub).length_le
  rw [List.length_cons, List.length_range] at hle
  exact hle

/-- **The fuel always suffices**: with more of it no other nodes are met. -/
theorem climb_eq_climb (h : t.Linked) (hid : id < t.size) {fuel more : Nat}
    (hfuel : t.size ≤ fuel + 1) (hle : fuel ≤ more) :
    t.climb fuel (t.parent? id) = t.climb more (t.parent? id) := by
  have hlt := h.length_climb_lt hid more
  rw [climb_eq_take hle, List.take_of_length_le (by omega)]

/-! ### The way, node by node -/

theorem way_root (h : t.Linked) : t.way Arena.root = [Arena.root] := by
  rw [way, ancestors, h.parent_root]
  cases t.size <;> rfl

/-- **The way from a node is the node and the way from its parent.** -/
theorem way_eq_cons (h : t.Linked) (hparent : t.parent? id = some parent) :
    t.way id = id :: t.way parent := by
  obtain ⟨size, hsize⟩ : ∃ k, t.size = k + 1 := ⟨t.size - 1, by have := h.size_pos; omega⟩
  have hrest : t.climb size (t.parent? parent) = t.climb t.size (t.parent? parent) :=
    h.climb_eq_climb (h.parent_lt id parent hparent) (by omega) (by omega)
  rw [way, way, ancestors, ancestors, ← hrest, hparent, hsize, climb]

theorem ancestors_eq (h : t.Linked) (hparent : t.parent? id = some parent) :
    t.ancestors id = t.way parent := by
  have hway := h.way_eq_cons hparent
  rw [way] at hway
  exact (List.cons.inj hway).2

theorem depth_root (h : t.Linked) : t.depth Arena.root = 0 := by
  have hlen := length_way t Arena.root
  rw [h.way_root] at hlen
  exact (Nat.succ.inj hlen).symm

theorem depth_eq (h : t.Linked) (hparent : t.parent? id = some parent) :
    t.depth id = t.depth parent + 1 := by
  rw [depth, h.ancestors_eq hparent, length_way]

theorem depth_lt (h : t.Linked) (hid : id < t.size) : t.depth id < t.size :=
  h.length_climb_lt hid t.size

/-! ### Induction along the links -/

/-- What holds of the root, and of a node once it holds of its parent, holds everywhere. -/
theorem upward {P : NodeId → Prop} (h : t.Linked) (root : P Arena.root)
    (step : ∀ id parent, t.parent? id = some parent → P parent → P id) :
    ∀ id < t.size, P id := by
  intro id hid
  induction hdepth : t.depth id using Nat.strongRecOn generalizing id with
  | ind k ih =>
      by_cases hroot : id = Arena.root
      · rw [hroot]
        exact root
      · obtain ⟨parent, hparent⟩ := h.exists_parent id hid hroot
        have hup := h.depth_eq hparent
        exact step id parent hparent
          (ih _ (by omega) parent (h.parent_lt id parent hparent) rfl)

/-- What holds of a node once it holds of the nodes directly below it holds everywhere. -/
theorem downward {P : NodeId → Prop} (h : t.Linked)
    (step : ∀ id < t.size, (∀ child ∈ t.children id, P child) → P id) :
    ∀ id < t.size, P id := by
  intro id hid
  induction hroom : t.size - t.depth id using Nat.strongRecOn generalizing id with
  | ind k ih =>
      refine step id hid fun child hchild => ?_
      have hlt := h.child_lt hchild
      have hdepth := h.depth_eq ((h.mem_children child id).mp hchild)
      have hroom' := h.depth_lt hlt
      exact ih _ (by omega) child hlt rfl

/-! ### Where a way leads -/

/-- **The way goes from parent to parent.** -/
theorem isChain_way (h : t.Linked) (hid : id < t.size) :
    (t.way id).IsChain fun below above => t.parent? below = some above := by
  refine h.upward (P := fun id => (t.way id).IsChain fun below above =>
    t.parent? below = some above) ?_ ?_ id hid
  · rw [h.way_root]
    exact .singleton _
  · intro id parent hparent hrest
    rw [h.way_eq_cons hparent]
    rw [way] at hrest ⊢
    exact .cons_cons hparent hrest

/-- **The way ends at the root.** -/
theorem getLast?_way (h : t.Linked) (hid : id < t.size) :
    (t.way id).getLast? = some Arena.root := by
  refine h.upward (P := fun id => (t.way id).getLast? = some Arena.root) ?_ ?_ id hid
  · rw [h.way_root]
    rfl
  · intro id parent hparent hrest
    rw [h.way_eq_cons hparent]
    rw [way] at hrest ⊢
    rw [List.getLast?_cons_cons, hrest]

/-- The way from a node on the way is part of it. -/
theorem mem_way_trans (h : t.Linked) {above top : Nat} (hid : id < t.size)
    (habove : above ∈ t.way id) (htop : top ∈ t.way above) : top ∈ t.way id := by
  refine h.upward (P := fun id => above ∈ t.way id → top ∈ t.way id) ?_ ?_ id hid habove
  · intro hroot
    rw [h.way_root, List.mem_singleton] at hroot
    rw [← hroot]
    exact htop
  · intro id parent hparent hrest hmem
    rw [h.way_eq_cons hparent] at hmem ⊢
    rcases List.mem_cons.mp hmem with rfl | hmem
    · rw [h.way_eq_cons hparent] at htop
      exact htop
    · exact List.mem_cons_of_mem _ (hrest hmem)

/-- What comes behind a node on a way is the way from its parent. -/
theorem eq_ancestors_of_suffix (h : t.Linked) {above : Nat} {rest : List Nat} (hid : id < t.size)
    (hsuffix : above :: rest <:+ t.way id) : rest = t.ancestors above := by
  refine h.upward (P := fun id => above :: rest <:+ t.way id → rest = t.ancestors above)
    ?_ ?_ id hid hsuffix
  · intro hroot
    have hway := h.way_root
    rw [hway] at hroot
    rcases List.suffix_cons_iff.mp hroot with heq | hnil
    · rw [way] at hway
      obtain ⟨rfl, rfl⟩ := List.cons.inj heq
      exact (List.cons.inj hway).2.symm
    · cases List.suffix_nil.mp hnil
  · intro id parent hparent hrest hup
    rw [h.way_eq_cons hparent] at hup
    rcases List.suffix_cons_iff.mp hup with heq | hbehind
    · obtain ⟨rfl, rfl⟩ := List.cons.inj heq
      exact (h.ancestors_eq hparent).symm
    · exact hrest hbehind

/-- Every node of a way is higher than the one before. -/
theorem pairwise_way (h : t.Linked) (id : NodeId) :
    (t.way id).Pairwise fun below above => t.depth above < t.depth below :=
  climb_descends (fun id above habove => by rw [h.depth_eq habove]; exact Nat.lt_succ_self _)
    t.size id

theorem depth_lt_of_mem_ancestors (h : t.Linked) {above : Nat} (hmem : above ∈ t.ancestors id) :
    t.depth above < t.depth id :=
  (List.pairwise_cons.mp (h.pairwise_way id)).1 above hmem

/-- A way that passes a node passes its parent further up. -/
theorem parent_mem_ancestors (h : t.Linked) {child : Nat} (hid : id < t.size)
    (hway : child ∈ t.way id) (hparent : t.parent? child = some parent) :
    parent ∈ t.ancestors id := by
  have hmem : parent ∈ t.way id := by
    refine h.mem_way_trans hid hway ?_
    rw [h.way_eq_cons hparent]
    exact List.mem_cons_of_mem _ (t.self_mem_way parent)
  refine (List.mem_cons.mp hmem).resolve_left ?_
  rintro rfl
  have hdepth := h.depth_eq hparent
  rcases List.mem_cons.mp hway with rfl | hway
  · omega
  · have hhigher := h.depth_lt_of_mem_ancestors hway
    omega

/-- No way passes two children of one node. -/
theorem eq_of_siblings (h : t.Linked) {left right : Nat} (hleft : left ∈ t.way id)
    (hright : right ∈ t.way id) (hparent : t.parent? left = some parent)
    (hparent' : t.parent? right = some parent) : left = right := by
  have hapart : ((t.way id).map t.depth).Nodup :=
    List.pairwise_map.mpr ((h.pairwise_way id).imp fun hlt => Nat.ne_of_gt hlt)
  refine List.inj_on_of_nodup_map hapart hleft hright ?_
  rw [h.depth_eq hparent, h.depth_eq hparent']

end Linked

end Formula.Arena
