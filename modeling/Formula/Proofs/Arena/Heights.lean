/-
What the heights in a tree say.

A height is kept with every node and never counted again.  It is right if no node is higher than
its parent allows, none is lower than its value demands, and each is as high as it is for one of
these two reasons (`Measured`).  Then the height of the root is the greatest number of nodes above
a node and of levels that its value brings (`Measured.height_eq`).

While heights are raised, all this holds but at one node, the next one to be raised (`Raising`).
Raising it makes its parent that node, and the first node that is high enough ends it
(`Raising.measured`).  So the heights are right after a new leaf (`Measured.add`), and after a
new node around another one, if the value of that node brings no levels (`Measured.wrap`).

Where only the depth of a tree matters and not what its values bring, `Kept` is enough: links and
heights are in order somehow.
-/
import Formula.Proofs.Arena.Ways
import Formula.Proofs.Tree.Levels

namespace Formula.Arena

variable {α : Type} {t : Arena α} {levels : NodeId → Nat} {link : Option NodeId}
  {height id node parent : Nat}

/-- The heights of a tree are right, where `levels` says how many levels each value brings. -/
structure Measured (t : Arena α) (levels : NodeId → Nat) : Prop where
  le_height : ∀ id < t.size, levels id ≤ t.heightAt id
  child_lt : ∀ id parent : Nat, t.parent? id = some parent → t.heightAt id < t.heightAt parent
  reached : ∀ id < t.size, t.heightAt id = levels id ∨
    ∃ child, t.parent? child = some id ∧ t.heightAt id = t.heightAt child + 1

/-- The heights are right but at the node that is to be raised next, if there is one: it may be
lower than `height`, which it has to have for the sake of one of its children. -/
structure Raising (t : Arena α) (levels : NodeId → Nat) (link : Option NodeId) (height : Nat) :
    Prop where
  le_height : ∀ id < t.size, levels id ≤ t.heightAt id
  child_lt : ∀ id parent : Nat, t.parent? id = some parent → link ≠ some parent →
    t.heightAt id < t.heightAt parent
  pending : ∀ id parent : Nat, t.parent? id = some parent → link = some parent →
    t.heightAt id < max (t.heightAt parent) height
  reached : ∀ id < t.size, t.heightAt id = levels id ∨
    (∃ child, t.parent? child = some id ∧ t.heightAt id = t.heightAt child + 1) ∨
    (link = some id ∧ t.heightAt id < height)
  source : ∀ id, link = some id → ∃ child, t.parent? child = some id ∧
    height = t.heightAt child + 1

/-! ### Looking at changed nodes -/

theorem heightAt_eq (t : Arena α) (id : NodeId) :
    t.heightAt id = (t.nodes[id]?.map (·.height)).getD 0 := by
  rw [heightAt]
  cases t.nodes[id]? <;> rfl

theorem heightAt_push (nodes : Array (Node α)) (n : Node α) (id : NodeId) :
    (Arena.mk (nodes.push n)).heightAt id =
      if id = nodes.size then n.height else (Arena.mk nodes).heightAt id := by
  rw [heightAt_eq, heightAt_eq, Array.getElem?_push]
  split <;> rfl

theorem parent?_push (nodes : Array (Node α)) (n : Node α) (id : NodeId) :
    (Arena.mk (nodes.push n)).parent? id =
      if id = nodes.size then n.parent else (Arena.mk nodes).parent? id := by
  rw [parent?, parent?, Array.getElem?_push]
  split <;> rfl

section

variable {f : Node α → Node α}

theorem heightAt_modify (hf : ∀ n, (f n).height = n.height) (nodes : Array (Node α)) (i : Nat)
    (id : NodeId) : (Arena.mk (nodes.modify i f)).heightAt id = (Arena.mk nodes).heightAt id := by
  have hcomp : (fun n : Node α => n.height) ∘ f = (·.height) := funext hf
  rw [heightAt_eq, heightAt_eq, Array.getElem?_modify]
  split
  · rw [Option.map_map, hcomp]
  · rfl

theorem parent?_modify (hf : ∀ n, (f n).parent = n.parent) (nodes : Array (Node α)) (i : Nat)
    (id : NodeId) : (Arena.mk (nodes.modify i f)).parent? id = (Arena.mk nodes).parent? id := by
  have hcomp : (fun n : Node α => n.parent) ∘ f = (·.parent) := funext hf
  rw [parent?, parent?, Array.getElem?_modify]
  split
  · rw [Option.bind_map, hcomp]
  · rfl

theorem modify_comm {i j : Nat} (hne : i ≠ j) (nodes : Array (Node α)) (g : Node α → Node α) :
    (nodes.modify i f).modify j g = (nodes.modify j g).modify i f := by
  refine Array.ext_getElem? fun k => ?_
  simp only [Array.getElem?_modify]
  by_cases hi : i = k
  · have hj : ¬j = k := fun hj => hne (hi.trans hj.symm)
    simp only [if_pos hi, if_neg hj]
  · simp only [if_neg hi]

end

/-! ### Raising one node -/

/-- The tree with another height at one node. -/
def setHeight (t : Arena α) (id : NodeId) (height : Nat) : Arena α :=
  ⟨t.nodes.modify id fun n => { n with height := height }⟩

@[simp] theorem size_setHeight : (t.setHeight id height).size = t.size := by
  simp [setHeight, size]

@[simp] theorem parent?_setHeight (other : Nat) :
    (t.setHeight id height).parent? other = t.parent? other := by
  refine parent?_modify ?_ t.nodes id other
  exact fun _ => rfl

theorem heightAt_setHeight (hid : id < t.size) (other : Nat) :
    (t.setHeight id height).heightAt other = if other = id then height else t.heightAt other := by
  rw [heightAt_eq, setHeight, Array.getElem?_modify]
  split
  · next hsame =>
      rw [← hsame, if_pos rfl, Array.getElem?_eq_getElem hid]
      rfl
  · next hne => rw [if_neg (Ne.symm hne), heightAt_eq]

theorem raise_none (nodes : Array (Node α)) (fuel height : Nat) :
    raise nodes fuel none height = nodes := by
  cases fuel <;> rfl

theorem raise_some (t : Arena α) (fuel : Nat) (id : NodeId) (height : Nat) :
    raise t.nodes (fuel + 1) (some id) height = if height ≤ t.heightAt id then t.nodes
      else raise (t.setHeight id height).nodes fuel (t.parent? id) (height + 1) := by
  rw [raise, heightAt, parent?, setHeight]
  cases hnode : t.nodes[id]? with
  | some n => rfl
  | none =>
      have hsame : t.nodes.modify id (fun n => { n with height := height }) = t.nodes := by
        refine Array.ext_getElem? fun k => ?_
        rw [Array.getElem?_modify]
        split
        · next hk => rw [← hk, hnode]; rfl
        · rfl
      dsimp only [Option.bind_none]
      rw [raise_none, hsame, ite_self]

theorem parent?_raise (nodes : Array (Node α)) (fuel : Nat) (link : Option NodeId)
    (height : Nat) (id : NodeId) :
    (Arena.mk (raise nodes fuel link height)).parent? id = (Arena.mk nodes).parent? id := by
  rw [parent?_eq, parent?_eq, content?, content_raise]
  rfl

namespace Raising

/-- **One more node is raised**, and its parent is the next one. -/
theorem step (h : t.Raising levels (some id) height) (hne : ∀ id, t.parent? id ≠ some id)
    (hid : id < t.size) (hlow : t.heightAt id < height) :
    (t.setHeight id height).Raising levels (t.parent? id) (height + 1) := by
  have hat : ∀ other, (t.setHeight id height).heightAt other =
      if other = id then height else t.heightAt other := heightAt_setHeight hid
  refine ⟨?_, ?_, ?_, ?_, ?_⟩
  · intro other hother
    rw [size_setHeight] at hother
    have hold := h.le_height other hother
    rw [hat]
    split
    · next hsame =>
        rw [hsame] at hold ⊢
        omega
    · exact hold
  · intro other above habove hlink
    rw [parent?_setHeight] at habove
    have hother : other ≠ id := fun hsame => hlink (hsame ▸ habove)
    rw [hat, hat, if_neg hother]
    by_cases hsame : above = id
    · have hold := h.pending other above habove (by rw [hsame])
      rw [if_pos hsame]
      rw [hsame] at hold
      omega
    · rw [if_neg hsame]
      exact h.child_lt other above habove fun hsome => hsame (Option.some.inj hsome).symm
  · intro other above habove hlink
    rw [parent?_setHeight] at habove
    have hother : above ≠ id := fun hsame => hne id (hsame ▸ hlink)
    rw [hat, hat, if_neg hother]
    split
    · omega
    · have hold := h.child_lt other above habove fun hsome => hother (Option.some.inj hsome).symm
      omega
  · intro other hother
    rw [size_setHeight] at hother
    simp only [hat, parent?_setHeight]
    by_cases hsame : other = id
    · -- the node itself is as high as one of its children demands
      obtain ⟨child, hchild, hheight⟩ := h.source id rfl
      have hself : child ≠ id := fun heq => hne id (heq ▸ hchild)
      refine .inr (.inl ⟨child, hsame ▸ hchild, ?_⟩)
      rw [if_pos hsame, if_neg hself, hheight]
    · rw [if_neg hsame]
      rcases h.reached other hother with hlevels | ⟨child, hchild, hheight⟩ | ⟨hlink, -⟩
      · exact .inl hlevels
      · by_cases hbelow : child = id
        · -- its parent was high enough for it before, and is the next to be raised
          refine .inr (.inr ⟨hbelow ▸ hchild, ?_⟩)
          rw [hbelow] at hheight
          omega
        · refine .inr (.inl ⟨child, hchild, ?_⟩)
          rw [if_neg hbelow, hheight]
      · exact absurd (Option.some.inj hlink).symm hsame
  · intro above habove
    refine ⟨id, by rw [parent?_setHeight, habove], ?_⟩
    rw [hat, if_pos rfl]

/-- Nothing is left to be raised. -/
theorem done (h : t.Raising levels link height)
    (hdone : ∀ id, link = some id → height ≤ t.heightAt id) : t.Measured levels where
  le_height := h.le_height
  child_lt := by
    intro other above habove
    by_cases hlink : link = some above
    · have hpending := h.pending other above habove hlink
      rw [Nat.max_eq_left (hdone above hlink)] at hpending
      exact hpending
    · exact h.child_lt other above habove hlink
  reached := by
    intro other hother
    rcases h.reached other hother with hlevels | hchild | ⟨hlink, hlow⟩
    · exact .inl hlevels
    · exact .inr hchild
    · exact absurd (hdone other hlink) (Nat.not_le.mpr hlow)

/-- **Raising the heights makes them right**, if the fuel is enough to come to the root. -/
theorem measured {fuel : Nat} (h : t.Raising levels link height) (level : Nat → Nat)
    (hlevel : ∀ id above : Nat, t.parent? id = some above → level above < level id)
    (hlt : ∀ id above : Nat, t.parent? id = some above → above < t.size)
    (hlink : ∀ id, link = some id → id < t.size ∧ level id < fuel) :
    (Arena.mk (raise t.nodes fuel link height)).Measured levels := by
  induction fuel generalizing t link height with
  | zero =>
      refine h.done fun id hid => ?_
      exact absurd (hlink id hid).2 (Nat.not_lt_zero _)
  | succ fuel ih =>
      cases link with
      | none =>
          refine h.done fun id hid => ?_
          cases hid
      | some id =>
          obtain ⟨hid, hfuel⟩ := hlink id rfl
          rw [raise_some]
          split
          · next hhigh =>
              refine h.done fun other hother => ?_
              rw [← Option.some.inj hother]
              exact hhigh
          · next hlow =>
              have hne : ∀ id, t.parent? id ≠ some id := fun id hid =>
                Nat.lt_irrefl _ (hlevel id id hid)
              refine ih (h.step hne hid (Nat.not_le.mp hlow)) ?_ ?_ ?_
              · simpa using hlevel
              · simpa using hlt
              · intro above habove
                rw [size_setHeight]
                have hup := hlevel id above habove
                exact ⟨hlt id above habove, by omega⟩

/-- As many steps as the tree has nodes are always enough, if its links are in order. -/
theorem measured_of_linked (h : t.Raising levels (some parent) height) (hparent : parent < t.size)
    (hlinked : (Arena.mk (raise t.nodes t.size (some parent) height)).Linked) :
    (Arena.mk (raise t.nodes t.size (some parent) height)).Measured levels := by
  have hsize : (Arena.mk (raise t.nodes t.size (some parent) height)).size = t.size :=
    size_raise t.nodes t.size (some parent) height
  have hlink := parent?_raise t.nodes t.size (some parent) height
  refine h.measured (Arena.mk (raise t.nodes t.size (some parent) height)).depth ?_ ?_ ?_
  · intro id above habove
    rw [hlinked.depth_eq ((hlink id).trans habove)]
    exact Nat.lt_succ_self _
  · intro id above habove
    have hlt := hlinked.parent_lt id above ((hlink id).trans habove)
    rw [hsize] at hlt
    exact hlt
  · intro id hid
    obtain rfl := Option.some.inj hid
    have hlt := hparent
    rw [← hsize] at hlt
    exact ⟨hparent, Nat.lt_of_lt_of_eq (hlinked.depth_lt hlt) hsize⟩

end Raising

/-! ### The height of the root -/

namespace Measured

/-- No node reaches further down than the root is high. -/
theorem depth_add_heightAt_le (hm : t.Measured levels) (h : t.Linked) (hid : id < t.size) :
    t.depth id + t.heightAt id ≤ t.height := by
  refine h.upward (P := fun id => t.depth id + t.heightAt id ≤ t.height) ?_ ?_ id hid
  · rw [h.depth_root, Nat.zero_add]
    exact Nat.le_refl _
  · intro id above habove hrest
    have hlt := hm.child_lt id above habove
    rw [h.depth_eq habove]
    omega

/-- A node is as high as a value at or below it demands. -/
theorem exists_heightAt_eq (hm : t.Measured levels) (h : t.Linked) : ∀ id < t.size,
    ∃ node < t.size, t.depth id + t.heightAt id = t.depth node + levels node := by
  refine h.downward fun id hid hchildren => ?_
  rcases hm.reached id hid with hlevels | ⟨child, hchild, hheight⟩
  · exact ⟨id, hid, by rw [hlevels]⟩
  · obtain ⟨node, hnode, hdepth⟩ := hchildren child ((h.mem_children child id).mpr hchild)
    rw [h.depth_eq hchild] at hdepth
    exact ⟨node, hnode, by omega⟩

/-- **The height of a tree**, from the links and the values alone. -/
theorem height_eq (hm : t.Measured levels) (h : t.Linked) :
    t.height = greatest ((List.range t.size).map fun id => t.depth id + levels id) := by
  refine Nat.le_antisymm ?_ (greatest_le.mpr fun n hn => ?_)
  · obtain ⟨node, hnode, hheight⟩ := hm.exists_heightAt_eq h Arena.root h.size_pos
    rw [h.depth_root, Nat.zero_add] at hheight
    rw [height, hheight]
    exact greatest_le.mp (Nat.le_refl _) _
      (List.mem_map.mpr ⟨node, List.mem_range.mpr hnode, rfl⟩)
  · obtain ⟨id, hid, rfl⟩ := List.mem_map.mp hn
    have hid := List.mem_range.mp hid
    have hlevels := hm.le_height id hid
    have hdown := hm.depth_add_heightAt_le h hid
    omega

theorem single (value : α) (levels : NodeId → Nat) :
    (Arena.single value (levels Arena.root)).Measured levels := by
  have hzero : ∀ id : Nat, id < (Arena.single value (levels Arena.root)).size → id = Arena.root :=
    fun id hid => Nat.lt_one_iff.mp hid
  refine ⟨?_, ?_, ?_⟩
  · intro id hid
    rw [hzero id hid]
    exact Nat.le_refl _
  · intro id parent hparent
    cases id <;> cases hparent
  · intro id hid
    rw [hzero id hid]
    exact .inl rfl

end Measured

/-! ### A new node, before the heights are raised -/

/-- The tree with a new leaf, before the heights are raised. -/
def withLeaf (t : Arena α) (parent : NodeId) (value : α) (levels : Nat) : Arena α :=
  ⟨(t.nodes.push ⟨value, some parent, [], levels⟩).modify parent fun n =>
    { n with children := n.children ++ [t.nodes.size] }⟩

/-- The tree with a node that is to be put around another one, before the heights are raised;
the node inside still has its old parent. -/
def withSibling (t : Arena α) (node parent : NodeId) (value : α) : Arena α :=
  ⟨(t.nodes.push ⟨value, some parent, [node], t.heightAt node + 1⟩).modify parent fun n =>
    { n with children := n.children.replace node t.nodes.size }⟩

/-- The tree with another link from a node to its parent. -/
def setParent (t : Arena α) (id parent : NodeId) : Arena α :=
  ⟨t.nodes.modify id fun n => { n with parent := some parent }⟩

theorem add_eq_raise (t : Arena α) (parent : NodeId) (value : α) (levels : Nat) :
    t.add parent value levels = ⟨raise (t.withLeaf parent value levels).nodes
      (t.withLeaf parent value levels).size (some parent) (levels + 1)⟩ := rfl

theorem parent?_setParent_of_ne (hne : id ≠ node) (t : Arena α) (parent : NodeId) :
    (t.setParent node parent).parent? id = t.parent? id := by
  rw [parent?, setParent, Array.getElem?_modify, if_neg (Ne.symm hne), parent?]

theorem heightAt_setParent (t : Arena α) (node parent id : NodeId) :
    (t.setParent node parent).heightAt id = t.heightAt id := by
  refine heightAt_modify ?_ t.nodes node id
  exact fun _ => rfl

theorem size_setParent (t : Arena α) (node parent : NodeId) :
    (t.setParent node parent).size = t.size := by
  simp [setParent, size]

/-- It makes no difference whether the heights are raised before or after a link is written
that raising them does not follow. -/
theorem setParent_raise (t : Arena α) {fuel : Nat} {link : Option NodeId} (height parent : Nat)
    (hnode : node ∉ t.climb fuel link) :
    setParent ⟨raise t.nodes fuel link height⟩ node parent =
      ⟨raise (t.setParent node parent).nodes fuel link height⟩ := by
  induction fuel generalizing t link height with
  | zero => rfl
  | succ fuel ih =>
      cases link with
      | none => rfl
      | some id =>
          obtain ⟨hne, hrest⟩ := not_or.mp (mt List.mem_cons.mpr hnode)
          have hcomm : (t.setHeight id height).setParent node parent =
              (t.setParent node parent).setHeight id height := by
            rw [setParent, setHeight, modify_comm (Ne.symm hne)]
            rfl
          rw [raise_some, raise_some, heightAt_setParent, parent?_setParent_of_ne (Ne.symm hne)]
          split
          · rfl
          · rw [← hcomm]
            refine ih (t.setHeight id height) (height + 1) ?_
            rw [climb_congr parent?_setHeight]
            exact hrest

theorem wrap_eq_setParent (hparent : t.parent? node = some parent) (value : α) :
    t.wrap node value = setParent ⟨raise (t.withSibling node parent value).nodes
      (t.withSibling node parent value).size (some parent) (t.heightAt node + 2)⟩
        node t.size := by
  obtain ⟨⟨nodeValue, _, children, height⟩, hnode, rfl⟩ := Option.bind_eq_some_iff.mp hparent
  rw [wrap, withSibling, heightAt, hnode]
  rfl

theorem heightAt_withLeaf (value : α) (levels : Nat) (id : NodeId) :
    (t.withLeaf parent value levels).heightAt id =
      if id = t.size then levels else t.heightAt id := by
  refine (heightAt_modify ?_ _ parent id).trans (heightAt_push t.nodes _ id)
  exact fun _ => rfl

theorem parent?_withLeaf (value : α) (levels : Nat) (id : NodeId) :
    (t.withLeaf parent value levels).parent? id =
      if id = t.size then some parent else t.parent? id := by
  refine (parent?_modify ?_ _ parent id).trans (parent?_push t.nodes _ id)
  exact fun _ => rfl

theorem heightAt_withSibling (value : α) (id : NodeId) :
    (t.withSibling node parent value).heightAt id =
      if id = t.size then t.heightAt node + 1 else t.heightAt id := by
  refine (heightAt_modify ?_ _ parent id).trans (heightAt_push t.nodes _ id)
  exact fun _ => rfl

theorem parent?_withSibling (value : α) (id : NodeId) :
    (t.withSibling node parent value).parent? id =
      if id = t.size then some parent else t.parent? id := by
  refine (parent?_modify ?_ _ parent id).trans (parent?_push t.nodes _ id)
  exact fun _ => rfl

theorem Linked.wrap_eq_raise (h : t.Linked) (hparent : t.parent? node = some parent) (value : α) :
    t.wrap node value =
      ⟨raise ((t.withSibling node parent value).setParent node t.size).nodes
        ((t.withSibling node parent value).setParent node t.size).size (some parent)
        (t.heightAt node + 2)⟩ := by
  rw [wrap_eq_setParent hparent, setParent_raise, size_setParent]
  -- the links that are followed are those of a tree with a leaf below the parent
  have hlt := h.parent_lt node parent hparent
  have hlinks : ∀ id, (t.withSibling node parent value).parent? id =
      (t.add parent value 0).parent? id := by
    intro id
    rw [parent?_withSibling, parent?_add hlt]
  have hnodup := (h.add hlt value 0).nodup_climb (t.withSibling node parent value).size node
  rw [← hlinks, parent?_withSibling, if_neg (Nat.ne_of_lt (lt_size_of_parent? hparent)),
    hparent, ← climb_congr hlinks] at hnodup
  exact (List.nodup_cons.mp hnodup).1

/-! ### Heights stay right -/

namespace Measured

variable {levels' : NodeId → Nat}

/-- With one more node all heights are right but at its parent: `u` is the tree with the new
node, which has the height that its value or its child demands, and no other heights. -/
theorem raising (hm : t.Measured levels) (h : t.Linked) {u : Arena α}
    (hlevels : ∀ id < t.size, levels' id = levels id) (hsize : u.size = t.size + 1)
    (hheight : ∀ id, u.heightAt id = if id = t.size then height else t.heightAt id)
    (hnew : u.parent? t.size = some parent)
    (hlinks : ∀ id above : Nat, id ≠ t.size → u.parent? id = some above →
      t.parent? id = some above ∨ above = t.size ∧ t.heightAt id < height)
    (hkept : ∀ id above : Nat, t.parent? id = some above →
      u.parent? id = some above ∨ above = parent ∧ t.heightAt id < height)
    (hle : levels' t.size ≤ height)
    (hreached : height = levels' t.size ∨
      ∃ child < t.size, u.parent? child = some t.size ∧ height = t.heightAt child + 1) :
    u.Raising levels' (some parent) (height + 1) := by
  have hat : ∀ id : Nat, id < t.size → u.heightAt id = t.heightAt id := fun id hid => by
    rw [hheight, if_neg (Nat.ne_of_lt hid)]
  have hatNew : u.heightAt t.size = height := by rw [hheight, if_pos rfl]
  have hold : ∀ id : Nat, id < u.size → id ≠ t.size → id < t.size := by omega
  refine ⟨?_, ?_, ?_, ?_, ?_⟩
  · intro id hid
    by_cases hsame : id = t.size
    · rw [hsame, hatNew]
      exact hle
    · rw [hat id (hold id hid hsame), hlevels id (hold id hid hsame)]
      exact hm.le_height id (hold id hid hsame)
  · intro id above habove hlink
    have hsame : id ≠ t.size := by
      rintro rfl
      exact hlink (hnew.symm.trans habove)
    rw [hat id (hold id (lt_size_of_parent? habove) hsame)]
    rcases hlinks id above hsame habove with hbefore | ⟨rfl, hlow⟩
    · rw [hat above (h.parent_lt id above hbefore)]
      exact hm.child_lt id above hbefore
    · rw [hatNew]
      exact hlow
  · intro id above habove hlink
    by_cases hsame : id = t.size
    · rw [hsame, hatNew]
      omega
    · rw [hat id (hold id (lt_size_of_parent? habove) hsame)]
      rcases hlinks id above hsame habove with hbefore | ⟨rfl, hlow⟩
      · have hup := hm.child_lt id above hbefore
        rw [hat above (h.parent_lt id above hbefore)]
        omega
      · omega
  · intro id hid
    by_cases hsame : id = t.size
    · rw [hsame, hatNew]
      rcases hreached with hvalue | ⟨child, hchild, hlink, heq⟩
      · exact .inl hvalue
      · refine .inr (.inl ⟨child, hlink, ?_⟩)
        rw [hat child hchild]
        exact heq
    · have hid := hold id hid hsame
      rw [hat id hid]
      rcases hm.reached id hid with hvalue | ⟨child, hchild, heq⟩
      · exact .inl (hvalue.trans (hlevels id hid).symm)
      · rcases hkept child id hchild with hlink | ⟨rfl, hlow⟩
        · refine .inr (.inl ⟨child, hlink, ?_⟩)
          rw [hat child (lt_size_of_parent? hchild)]
          exact heq
        · exact .inr (.inr ⟨rfl, by omega⟩)
  · intro id hid
    obtain rfl := Option.some.inj hid
    exact ⟨t.size, hnew, by rw [hatNew]⟩

/-- **A new leaf leaves the heights right.** -/
theorem add (hm : t.Measured levels) (h : t.Linked) (hparent : parent < t.size) (value : α)
    (hlevels : ∀ id < t.size, levels' id = levels id) :
    (t.add parent value (levels' t.size)).Measured levels' := by
  have hsize : (t.withLeaf parent value (levels' t.size)).size = t.size + 1 := by
    simp [withLeaf, size]
  have hnew : (t.withLeaf parent value (levels' t.size)).parent? t.size = some parent := by
    rw [parent?_withLeaf, if_pos rfl]
  have hraising := hm.raising h hlevels hsize (heightAt_withLeaf value (levels' t.size)) hnew
    ?_ ?_ (Nat.le_refl _) (.inl rfl)
  · have hlinked := h.add hparent value (levels' t.size)
    rw [add_eq_raise] at hlinked ⊢
    refine hraising.measured_of_linked ?_ hlinked
    rw [hsize]
    exact Nat.lt_succ_of_lt hparent
  · intro id above hne habove
    rw [parent?_withLeaf, if_neg hne] at habove
    exact .inl habove
  · intro id above habove
    rw [parent?_withLeaf, if_neg (Nat.ne_of_lt (lt_size_of_parent? habove))]
    exact .inl habove

/-- **A new node around another one leaves the heights right**, as far as its own value brings no
levels. -/
theorem wrap (hm : t.Measured levels) (h : t.Linked) (hparent : t.parent? node = some parent)
    (value : α) (hlevels : ∀ id < t.size, levels' id = levels id) (hnone : levels' t.size = 0) :
    (t.wrap node value).Measured levels' := by
  have hlt := h.parent_lt node parent hparent
  have hnode := lt_size_of_parent? hparent
  have hsize : ((t.withSibling node parent value).setParent node t.size).size = t.size + 1 := by
    simp [setParent, withSibling, size]
  have hlinked := h.wrap hparent value
  rw [h.wrap_eq_raise hparent value] at hlinked
  -- the links are those of the finished tree
  have hlink : ∀ id, ((t.withSibling node parent value).setParent node t.size).parent? id =
      (t.wrap node value).parent? id := by
    intro id
    rw [h.wrap_eq_raise hparent value, parent?_raise]
  have hup := parent?_wrap hparent (h.parent_ne hparent) hlt value
  have hheight : ∀ id, ((t.withSibling node parent value).setParent node t.size).heightAt id =
      if id = t.size then t.heightAt node + 1 else t.heightAt id := by
    intro id
    rw [heightAt_setParent, heightAt_withSibling]
  have hnew : ((t.withSibling node parent value).setParent node t.size).parent? t.size =
      some parent := by
    rw [hlink, hup, if_pos rfl]
  have hraising := hm.raising h hlevels hsize hheight hnew ?_ ?_ ?_ ?_
  · rw [h.wrap_eq_raise hparent value]
    refine hraising.measured_of_linked ?_ hlinked
    rw [hsize]
    exact Nat.lt_succ_of_lt hlt
  · intro id above hne habove
    rw [hlink, hup, if_neg hne] at habove
    split at habove
    · next hsame =>
        exact .inr ⟨(Option.some.inj habove).symm, by rw [hsame]; exact Nat.lt_succ_self _⟩
    · exact .inl habove
  · intro id above habove
    rw [hlink, hup, if_neg (Nat.ne_of_lt (lt_size_of_parent? habove))]
    split
    · next hsame =>
        rw [hsame] at habove
        exact .inr ⟨Option.some.inj (habove.symm.trans hparent),
          by rw [hsame]; exact Nat.lt_succ_self _⟩
    · exact .inl habove
  · rw [hnone]
    exact Nat.zero_le _
  · refine .inr ⟨node, hnode, ?_, rfl⟩
    rw [hlink, hup, if_neg (Nat.ne_of_lt hnode), if_pos rfl]

end Measured

/-! ### Trees in order -/

/-- The links of a tree are in order, and its heights are right for some levels of its values. -/
structure Kept (t : Arena α) : Prop where
  linked : t.Linked
  measured : ∃ levels, t.Measured levels

namespace Kept

theorem single (value : α) (levels : Nat) : (Arena.single value levels).Kept :=
  ⟨.single value levels, fun _ => levels, .single value fun _ => levels⟩

theorem add (h : t.Kept) (hparent : parent < t.size) (value : α) (levels : Nat) :
    (t.add parent value levels).Kept := by
  obtain ⟨hlinked, kept, hmeasured⟩ := h
  have hold : ∀ id < t.size, (if id = t.size then levels else kept id) = kept id :=
    fun id hid => if_neg (Nat.ne_of_lt hid)
  have hadd := hmeasured.add hlinked hparent value hold
  rw [if_pos rfl] at hadd
  exact ⟨hlinked.add hparent value levels, _, hadd⟩

theorem wrap (h : t.Kept) (hparent : t.parent? node = some parent) (value : α) :
    (t.wrap node value).Kept := by
  obtain ⟨hlinked, kept, hmeasured⟩ := h
  have hold : ∀ id < t.size, (if id = t.size then 0 else kept id) = kept id :=
    fun id hid => if_neg (Nat.ne_of_lt hid)
  have hwrap := hmeasured.wrap hlinked hparent value hold (if_pos rfl)
  exact ⟨hlinked.wrap hparent value, _, hwrap⟩

end Kept

end Formula.Arena
