/-
What a new node changes.

A new node is written into one place of a tree.  What is below other nodes stays as it was, and
in a walk that passes the place, only the part below it is another one (`Replaces.exists_split`).
So a new leaf comes behind all that its parent had below it (`Linked.descendants_add`), and a
node that is put around another one comes right in front of it (`Linked.descendants_wrap`).

The ways up change as little.  They are the old ones after a new leaf (`Linked.way_add`), and
those that pass the node inside pass the new node around it next (`Linked.way_wrap`), so they are
one step longer (`Linked.depth_wrap`).
-/
import Formula.Proofs.Arena.Preorder

namespace Formula.Arena

variable {α : Type} {t u : Arena α} {place instead id node parent : Nat}

/-! ### Another part in one place -/

/-- `instead` in the place of `place`, and every other node in its own. -/
def standIn (place instead id : NodeId) : NodeId := if id = place then instead else id

theorem standIn_self (place id : NodeId) : standIn place place id = id := by
  rw [standIn]
  split
  · next h => exact h.symm
  · rfl

theorem map_standIn_self (place : NodeId) (ids : List NodeId) :
    ids.map (standIn place place) = ids :=
  (List.map_congr_left fun id _ => standIn_self place id).trans (List.map_id _)

theorem standIn_of_ne (h : id ≠ place) : standIn place instead id = id := if_neg h

/-- Nodes other than `place` below which two trees have the same nodes. -/
theorem flatMap_standIn {ids : List NodeId} (instead : NodeId)
    (hids : ∀ id ∈ ids, id ≠ place ∧ u.descendants id = t.descendants id) :
    (ids.map (standIn place instead)).flatMap u.descendants = ids.flatMap t.descendants := by
  rw [List.flatMap_map]
  refine List.flatMap_congr fun id hid => ?_
  rw [standIn_of_ne (hids id hid).1, (hids id hid).2]

/-- In `u`, the node `instead` has the place that `place` has in `t`.  Apart from that, each of
the other nodes has the same children. -/
structure Replaces (t u : Arena α) (place instead : NodeId) : Prop where
  linked : t.Linked
  linked' : u.Linked
  size_le : t.size ≤ u.size
  children : ∀ id < t.size, id ≠ place →
    u.children id = (t.children id).map (standIn place instead)

namespace Replaces

variable (h : Replaces t u place instead)
include h

/-- **Away from the place nothing is changed.** -/
theorem descendants_eq : ∀ id < t.size, place ∉ t.descendants id →
    u.descendants id = t.descendants id := by
  refine h.linked.downward fun id hid hchildren hplace => ?_
  rw [h.linked.descendants_eq hid] at hplace ⊢
  obtain ⟨hne, hbelow⟩ := not_or.mp (mt List.mem_cons.mpr hplace)
  rw [h.linked'.descendants_eq (Nat.lt_of_lt_of_le hid h.size_le), h.children id hid (Ne.symm hne),
    flatMap_standIn instead fun child hchild => ?_]
  have happart : place ∉ t.descendants child := fun hmem =>
    hbelow (List.mem_flatMap.mpr ⟨child, hchild, hmem⟩)
  refine ⟨?_, hchildren child hchild happart⟩
  rintro rfl
  have hlt := h.linked.child_lt hchild
  exact happart ((h.linked.mem_descendants hlt).mpr ⟨hlt, t.self_mem_way _⟩)

/-- What is below the place stays as it was. -/
theorem descendants_child {child : Nat} (hchild : child ∈ t.children place) :
    child ≠ place ∧ u.descendants child = t.descendants child := by
  have hlink := (h.linked.mem_children child place).mp hchild
  have hlt := h.linked.child_lt hchild
  have hne := h.linked.parent_ne hlink
  refine ⟨Ne.symm hne, h.descendants_eq child hlt fun hmem => ?_⟩
  have hway := ((h.linked.mem_descendants hlt).mp hmem).2
  have hup := h.linked.depth_lt_of_mem_ancestors
    (h.linked.parent_mem_ancestors (h.linked.parent_lt child place hlink) hway hlink)
  exact Nat.lt_irrefl _ hup

/-- What is below the siblings of a node that has the place below it stays as it was. -/
theorem descendants_sibling {child other : Nat} (hchild : child ∈ t.children id)
    (hbelow : place ∈ t.descendants child) (hother : other ∈ t.children id) (hne : other ≠ child) :
    other ≠ place ∧ u.descendants other = t.descendants other := by
  have hlt := h.linked.child_lt hother
  have happart : place ∉ t.descendants other := by
    intro hin
    have hway := (h.linked.mem_descendants (h.linked.child_lt hchild)).mp hbelow
    have hway' := (h.linked.mem_descendants hlt).mp hin
    exact hne (h.linked.eq_of_siblings hway'.2 hway.2 ((h.linked.mem_children other id).mp hother)
      ((h.linked.mem_children child id).mp hchild))
  refine ⟨?_, h.descendants_eq other hlt happart⟩
  rintro rfl
  exact happart ((h.linked.mem_descendants hlt).mpr ⟨hlt, t.self_mem_way _⟩)

/-- **A walk that passes the place has another part there**, and is the same before and after. -/
theorem exists_split : ∀ id < t.size, place ∈ t.descendants id → ∃ before after,
    t.descendants id = before ++ t.descendants place ++ after ∧
    u.descendants (standIn place instead id) = before ++ u.descendants instead ++ after := by
  refine h.linked.downward fun id hid hchildren hplace => ?_
  by_cases hsame : id = place
  · refine ⟨[], [], ?_, ?_⟩
    · rw [hsame, List.nil_append, List.append_nil]
    · rw [standIn, if_pos hsame, List.nil_append, List.append_nil]
  · rw [h.linked.descendants_eq hid] at hplace
    obtain ⟨child, hchild, hbelow⟩ :=
      List.mem_flatMap.mp (List.mem_of_ne_of_mem (Ne.symm hsame) hplace)
    obtain ⟨before, after, hold, hnew⟩ := hchildren child hchild hbelow
    -- the place is below one of the children only
    obtain ⟨left, right, hsplit⟩ := List.append_of_mem hchild
    have hnodup := h.linked.nodup id
    rw [hsplit, List.nodup_middle] at hnodup
    have hothers : ∀ other ∈ left ++ right,
        other ≠ place ∧ u.descendants other = t.descendants other := by
      intro other hmem
      refine h.descendants_sibling hchild hbelow ?_ ?_
      · rw [hsplit, List.perm_middle.mem_iff]
        exact List.mem_cons_of_mem _ hmem
      · rintro rfl
        exact (List.nodup_cons.mp hnodup).1 hmem
    have hleft := flatMap_standIn instead fun other hmem =>
      hothers other (List.mem_append_left right hmem)
    have hright := flatMap_standIn instead fun other hmem =>
      hothers other (List.mem_append_right left hmem)
    refine ⟨id :: left.flatMap t.descendants ++ before, after ++ right.flatMap t.descendants,
      ?_, ?_⟩
    · rw [h.linked.descendants_eq hid, hsplit, List.flatMap_append, List.flatMap_cons, hold]
      simp only [List.cons_append, List.append_assoc]
    · rw [standIn_of_ne hsame, h.linked'.descendants_eq (Nat.lt_of_lt_of_le hid h.size_le),
        h.children id hid hsame, hsplit, List.map_append, List.map_cons, List.flatMap_append,
        List.flatMap_cons, hleft, hright, hnew]
      simp only [List.cons_append, List.append_assoc]

end Replaces

/-! ### One more node -/

theorem size_wrap_of_parent? (hparent : t.parent? node = some parent) (value : α) :
    (t.wrap node value).size = t.size + 1 :=
  size_wrap value (Option.isSome_of_eq_some hparent)

theorem lt_size_wrap (hparent : t.parent? node = some parent) (value : α) :
    t.size < (t.wrap node value).size := by
  rw [size_wrap_of_parent? hparent]
  exact Nat.lt_succ_self _

/-- A node, with the node `new` above it if it is `node`. -/
def around (node new id : NodeId) : List NodeId :=
  if id = node then [node, new] else [id]

theorem length_flatMap_around (node new : NodeId) (ids : List NodeId) :
    (ids.flatMap (around node new)).length = ids.length + ids.count node := by
  induction ids with
  | nil => rfl
  | cons id ids ih =>
      rw [List.flatMap_cons, List.length_append, ih, List.count_cons, around]
      by_cases hsame : id = node
      · simp only [hsame, if_true, beq_self_eq_true, List.length_cons, List.length_nil]
        omega
      · simp only [hsame, if_false, beq_iff_eq, List.length_cons, List.length_nil]
        omega

namespace Linked

/-! ### After a new leaf -/

section

variable (h : t.Linked) (hparent : parent < t.size) (value : α) (levels : Nat)
include h hparent

theorem replaces_add : Replaces t (t.add parent value levels) parent parent where
  linked := h
  linked' := h.add hparent value levels
  size_le := by rw [size_add]; exact Nat.le_succ _
  children := by
    intro id _ hne
    rw [children_add hparent, if_neg hne, map_standIn_self]

theorem descendants_add_new :
    (t.add parent value levels).descendants t.size = [t.size] := by
  have hempty : (t.add parent value levels).children t.size = [] := by
    rw [children_add hparent, if_neg (Nat.ne_of_gt hparent), children_eq, content?_size]
    rfl
  rw [(h.add hparent value levels).descendants_eq (by rw [size_add]; exact Nat.lt_succ_self _),
    hempty, List.flatMap_nil]

/-- The leaf is the last node below its parent. -/
theorem descendants_add_parent : (t.add parent value levels).descendants parent =
    t.descendants parent ++ [t.size] := by
  have hreplaces := h.replaces_add hparent value levels
  have hchildren := flatMap_standIn parent fun _ hchild => hreplaces.descendants_child hchild
  rw [map_standIn_self] at hchildren
  rw [(h.add hparent value levels).descendants_eq (by rw [size_add]; omega),
    children_add hparent, if_pos rfl, List.flatMap_append, hchildren, List.flatMap_singleton,
    h.descendants_add_new hparent, h.descendants_eq hparent, List.cons_append]

/-- **A new leaf comes behind everything that its parent had below it.** -/
theorem descendants_add : ∃ before after,
    t.descendants Arena.root = before ++ t.descendants parent ++ after ∧
    (t.add parent value levels).descendants Arena.root =
      before ++ t.descendants parent ++ t.size :: after := by
  obtain ⟨before, after, hold, hnew⟩ := (h.replaces_add hparent value levels).exists_split
    Arena.root h.size_pos (h.mem_descendants_root.mpr hparent)
  refine ⟨before, after, hold, ?_⟩
  rw [standIn_self, h.descendants_add_parent hparent] at hnew
  rw [hnew]
  simp only [List.append_assoc, List.singleton_append]

/-- The ways of the other nodes stay as they are. -/
theorem way_add (hid : id < t.size) : (t.add parent value levels).way id = t.way id := by
  have hadd := h.add hparent value levels
  refine h.upward (P := fun id => (t.add parent value levels).way id = t.way id) ?_ ?_ id hid
  · rw [hadd.way_root, h.way_root]
  · intro id above habove hrest
    have hlink : (t.add parent value levels).parent? id = some above := by
      rw [parent?_add hparent, if_neg (Nat.ne_of_lt (lt_size_of_parent? habove)), habove]
    rw [hadd.way_eq_cons hlink, h.way_eq_cons habove, hrest]

end

/-! ### After a new node around another one -/

section

variable (h : t.Linked) (hparent : t.parent? node = some parent) (value : α)
include h hparent

theorem children_wrap_eq (hid : id < t.size) :
    (t.wrap node value).children id = (t.children id).map (standIn node t.size) := by
  rw [children_wrap hparent (h.parent_ne hparent) (h.parent_lt node parent hparent),
    if_neg (Nat.ne_of_lt hid)]
  split
  · next habove =>
      rw [habove, replace_eq_map (h.nodup parent)]
      rfl
  · next habove =>
      symm
      refine (List.map_congr_left fun child hchild => standIn_of_ne ?_).trans (List.map_id _)
      rintro rfl
      have hlink := (h.mem_children child id).mp hchild
      exact habove (Option.some.inj (hlink.symm.trans hparent))

theorem replaces_wrap : Replaces t (t.wrap node value) node t.size where
  linked := h
  linked' := h.wrap hparent value
  size_le := Nat.le_of_lt (lt_size_wrap hparent value)
  children := fun _ hid _ => h.children_wrap_eq hparent value hid

/-- What is below the node inside stays as it is. -/
theorem descendants_wrap_node : (t.wrap node value).descendants node = t.descendants node := by
  have hreplaces := h.replaces_wrap hparent value
  have hnode := lt_size_of_parent? hparent
  have hchildren := flatMap_standIn t.size fun _ hchild => hreplaces.descendants_child hchild
  rw [(h.wrap hparent value).descendants_eq (Nat.lt_trans hnode (lt_size_wrap hparent value)),
    h.children_wrap_eq hparent value hnode, hchildren, h.descendants_eq hnode]

theorem descendants_wrap_new : (t.wrap node value).descendants t.size =
    t.size :: t.descendants node := by
  have hbelow : (t.wrap node value).children t.size = [node] := by
    rw [children_wrap hparent (h.parent_ne hparent) (h.parent_lt node parent hparent), if_pos rfl]
  rw [(h.wrap hparent value).descendants_eq (lt_size_wrap hparent value), hbelow,
    List.flatMap_singleton, h.descendants_wrap_node hparent]

/-- **A node that is put around another one comes right in front of it.** -/
theorem descendants_wrap : ∃ before after,
    t.descendants Arena.root = before ++ t.descendants node ++ after ∧
    (t.wrap node value).descendants Arena.root =
      before ++ t.size :: t.descendants node ++ after := by
  have hnode := lt_size_of_parent? hparent
  obtain ⟨before, after, hold, hnew⟩ := (h.replaces_wrap hparent value).exists_split
    Arena.root h.size_pos (h.mem_descendants_root.mpr hnode)
  refine ⟨before, after, hold, ?_⟩
  rw [standIn_of_ne (Ne.symm (h.ne_root hparent)), h.descendants_wrap_new hparent] at hnew
  exact hnew

theorem parent?_wrap_new : (t.wrap node value).parent? t.size = some parent := by
  rw [parent?_wrap hparent (h.parent_ne hparent) (h.parent_lt node parent hparent), if_pos rfl]

theorem parent?_wrap_node : (t.wrap node value).parent? node = some t.size := by
  rw [parent?_wrap hparent (h.parent_ne hparent) (h.parent_lt node parent hparent),
    if_neg (Nat.ne_of_lt (lt_size_of_parent? hparent)), if_pos rfl]

theorem parent?_wrap_of_ne (hid : id < t.size) (hne : id ≠ node) :
    (t.wrap node value).parent? id = t.parent? id := by
  rw [parent?_wrap hparent (h.parent_ne hparent) (h.parent_lt node parent hparent),
    if_neg (Nat.ne_of_lt hid), if_neg hne]

/-- **A way that passes the node inside passes the new node next**, and is the old one apart
from that. -/
theorem way_wrap (hid : id < t.size) :
    (t.wrap node value).way id = (t.way id).flatMap (around node t.size) := by
  have hwrap := h.wrap hparent value
  refine h.upward (P := fun id => (t.wrap node value).way id =
    (t.way id).flatMap (around node t.size)) ?_ ?_ id hid
  · rw [hwrap.way_root, h.way_root, List.flatMap_singleton, around,
      if_neg (Ne.symm (h.ne_root hparent))]
  · intro id above habove hrest
    have hid := lt_size_of_parent? habove
    rw [h.way_eq_cons habove, List.flatMap_cons, ← hrest, around]
    split
    · next hsame =>
        obtain rfl : parent = above := Option.some.inj (hparent.symm.trans (hsame ▸ habove))
        rw [hsame, hwrap.way_eq_cons (h.parent?_wrap_node hparent value),
          hwrap.way_eq_cons (h.parent?_wrap_new hparent value)]
        rfl
    · next hne =>
        rw [hwrap.way_eq_cons ((h.parent?_wrap_of_ne hparent value hid hne).trans habove)]
        rfl

/-- Above the new node is what was above the node inside. -/
theorem way_wrap_new : (t.wrap node value).way t.size = t.size :: t.way parent := by
  have hlt := h.parent_lt node parent hparent
  have hbeside : node ∉ t.way parent := by
    have hnodup := h.nodup_way node
    rw [h.way_eq_cons hparent] at hnodup
    exact (List.nodup_cons.mp hnodup).1
  have hsame : (t.way parent).flatMap (around node t.size) = (t.way parent).flatMap ([·]) := by
    refine List.flatMap_congr fun id hid => if_neg ?_
    rintro rfl
    exact hbeside hid
  rw [(h.wrap hparent value).way_eq_cons (h.parent?_wrap_new hparent value),
    h.way_wrap hparent value hlt, hsame, List.flatMap_singleton']

theorem mem_way_wrap (hid : id < t.size) {above : Nat} :
    above ∈ (t.wrap node value).way id ↔
      above ∈ t.way id ∨ above = t.size ∧ node ∈ t.way id := by
  rw [h.way_wrap hparent value hid, List.mem_flatMap]
  constructor
  · rintro ⟨old, hold, hmem⟩
    rw [around] at hmem
    split at hmem
    · next hsame =>
        rcases List.mem_pair.mp hmem with rfl | rfl
        · exact .inl (hsame ▸ hold)
        · exact .inr ⟨rfl, hsame ▸ hold⟩
    · exact .inl (List.mem_singleton.mp hmem ▸ hold)
  · rintro (hold | ⟨rfl, hnode⟩)
    · refine ⟨above, hold, ?_⟩
      rw [around]
      split
      · next hsame => exact List.mem_pair.mpr (.inl hsame)
      · exact List.mem_singleton_self _
    · exact ⟨node, hnode, by simp [around]⟩

/-- **What is at and below the node inside becomes one level deeper**, and nothing else. -/
theorem depth_wrap (hid : id < t.size) : (t.wrap node value).depth id =
    if id ∈ t.descendants node then t.depth id + 1 else t.depth id := by
  have hlength := length_way (t.wrap node value) id
  rw [h.way_wrap hparent value hid, length_flatMap_around, length_way,
    (h.nodup_way id).count] at hlength
  have hmem : id ∈ t.descendants node ↔ node ∈ t.way id := by
    rw [h.mem_descendants (lt_size_of_parent? hparent)]
    exact and_iff_right hid
  rw [if_congr hmem rfl rfl]
  split at hlength
  · next hbelow =>
      rw [if_pos hbelow]
      omega
  · next hbeside =>
      rw [if_neg hbeside]
      omega

end

end Linked

end Formula.Arena
