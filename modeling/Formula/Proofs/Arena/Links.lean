/-
The links of a tree.

Growing a tree writes links in three places: at the new node, at its parent and, if it is put
around another node, at that one.  Raising the heights writes none.  So every link of a tree
that has been grown has its counterpart, and none of them leads out of the tree: `Linked`.
-/
import Formula.Arena

namespace Formula

variable {α : Type}

/-- A node without its height. -/
def Node.content (node : Node α) : α × Option NodeId × List NodeId :=
  (node.value, node.parent, node.children)

namespace Arena

variable {t : Arena α} {parent node id : Nat}

/-! ### What growing writes -/

/-- What a node holds and the links it has. -/
def content? (t : Arena α) (id : Nat) : Option (α × Option NodeId × List NodeId) :=
  t.nodes[id]?.map Node.content

theorem value?_eq (t : Arena α) (id : Nat) : t.value? id = (t.content? id).map (·.1) := by
  rw [value?, content?, Option.map_map]
  rfl

theorem parent?_eq (t : Arena α) (id : Nat) : t.parent? id = (t.content? id).bind (·.2.1) := by
  rw [parent?, content?, Option.bind_map]
  rfl

theorem children_eq (t : Arena α) (id : Nat) :
    t.children id = ((t.content? id).map (·.2.2)).getD [] := by
  rw [children, content?]
  cases t.nodes[id]? <;> rfl

theorem content?_isSome : (t.content? id).isSome ↔ id < t.size := by
  simp [content?, size]

theorem content?_size (t : Arena α) : t.content? t.size = none := by
  simp [content?, size]

theorem lt_size_of_parent? (h : t.parent? id = some parent) : id < t.size := by
  obtain ⟨n, hn, -⟩ := Option.bind_eq_some_iff.mp h
  exact (Array.getElem?_eq_some_iff.mp hn).1

/-- Raising the heights leaves everything else. -/
theorem content_raise (nodes : Array (Node α)) (fuel : Nat) (link : Option NodeId)
    (height : Nat) (id : Nat) :
    (raise nodes fuel link height)[id]?.map Node.content = nodes[id]?.map Node.content := by
  induction fuel generalizing nodes link height with
  | zero => rfl
  | succ fuel ih =>
      cases link with
      | none => rfl
      | some above =>
          rw [raise]
          split
          · rfl
          · split
            · rfl
            · rw [ih, Array.getElem?_modify]
              split
              · rw [Option.map_map]
                rfl
              · rfl

/-- **Hanging a leaf below a node** writes the leaf and the list of its parent's children. -/
theorem content?_add (hparent : parent < t.size) (value : α) (levels : Nat) (id : Nat) :
    (t.add parent value levels).content? id =
      if id = t.size then some (value, some parent, [])
      else if id = parent then
        (t.content? parent).map fun c => (c.1, c.2.1, c.2.2 ++ [t.size])
      else t.content? id := by
  rw [content?, add, content_raise, Array.getElem?_modify]
  rw [size] at hparent
  by_cases hnew : id = t.size
  · rw [if_pos hnew, if_neg (by rw [hnew, size]; omega), hnew, size, Array.getElem?_push_size]
    rfl
  · rw [if_neg hnew]
    rw [size] at hnew
    rw [Array.getElem?_push, if_neg hnew]
    by_cases hid : id = parent
    · rw [if_pos hid.symm, if_pos hid, hid, content?, Option.map_map, Option.map_map]
      rfl
    · rw [if_neg (Ne.symm hid), if_neg hid, content?]

/-- **Putting a node around another one** writes the new node, the link of the node inside and
the list of the parent's children. -/
theorem content?_wrap (hparent : t.parent? node = some parent) (hne : parent ≠ node)
    (hlt : parent < t.size) (value : α) (id : Nat) :
    (t.wrap node value).content? id =
      if id = t.size then some (value, some parent, [node])
      else if id = node then (t.content? node).map fun c => (c.1, some t.size, c.2.2)
      else if id = parent then
        (t.content? parent).map fun c => (c.1, c.2.1, c.2.2.replace node t.size)
      else t.content? id := by
  obtain ⟨⟨nodeValue, _, children, height⟩, hnode, rfl⟩ := Option.bind_eq_some_iff.mp hparent
  have hold : node < t.nodes.size := (Array.getElem?_eq_some_iff.mp hnode).1
  have hwrap : (t.wrap node value).nodes =
      (raise ((t.nodes.push ⟨value, some parent, [node], height + 1⟩).modify parent fun n =>
        { n with children := n.children.replace node t.nodes.size })
        ((t.nodes.push ⟨value, some parent, [node], height + 1⟩).modify parent fun n =>
          { n with children := n.children.replace node t.nodes.size }).size
        (some parent) (height + 2)).modify node fun n =>
          { n with parent := some t.nodes.size } := by
    rw [wrap, hnode]
  have hsame : ∀ (link : Option NodeId) (n : Option (Node α)),
      (n.map fun n => { n with parent := link }).map Node.content =
        (n.map Node.content).map fun c => (c.1, link, c.2.2) := by
    intro link n
    cases n <;> rfl
  rw [content?, hwrap, Array.getElem?_modify]
  rw [size] at hlt ⊢
  by_cases hnew : id = t.nodes.size
  · rw [if_neg (by omega), content_raise, Array.getElem?_modify, if_neg (by omega), hnew,
      Array.getElem?_push_size, if_pos rfl]
    rfl
  · by_cases hid : id = node
    · rw [if_pos hid.symm, hsame, content_raise, Array.getElem?_modify, hid,
        if_neg hne, Array.getElem?_push, if_neg (by omega), if_neg (by omega), if_pos rfl,
        content?]
    · rw [if_neg (Ne.symm hid), content_raise, Array.getElem?_modify, Array.getElem?_push,
        if_neg hnew, if_neg hnew, if_neg hid]
      by_cases habove : id = parent
      · rw [if_pos habove.symm, if_pos habove, habove, content?, Option.map_map, Option.map_map]
        rfl
      · rw [if_neg (Ne.symm habove), if_neg habove, content?]

theorem value?_add (hparent : parent < t.size) (value : α) (levels : Nat) (id : Nat) :
    (t.add parent value levels).value? id = if id = t.size then some value else t.value? id := by
  simp only [value?_eq, content?_add hparent]
  split
  · rfl
  · split
    · next hid => rw [hid, Option.map_map]; rfl
    · rfl

theorem parent?_add (hparent : parent < t.size) (value : α) (levels : Nat) (id : Nat) :
    (t.add parent value levels).parent? id =
      if id = t.size then some parent else t.parent? id := by
  simp only [parent?_eq, content?_add hparent]
  split
  · rfl
  · split
    · next hid => rw [hid, Option.bind_map]; rfl
    · rfl

theorem children_add (hparent : parent < t.size) (value : α) (levels : Nat) (id : Nat) :
    (t.add parent value levels).children id =
      if id = parent then t.children parent ++ [t.size] else t.children id := by
  simp only [children_eq, content?_add hparent]
  by_cases hnew : id = t.size
  · rw [if_pos hnew, if_neg (by omega), hnew, content?_size]
    rfl
  · rw [if_neg hnew]
    split
    · obtain ⟨c, hc⟩ := Option.isSome_iff_exists.mp (content?_isSome.mpr hparent)
      rw [hc]
      rfl
    · rfl

section

variable (hparent : t.parent? node = some parent) (hne : parent ≠ node) (hlt : parent < t.size)
include hparent hne hlt

theorem value?_wrap (value : α) (id : Nat) :
    (t.wrap node value).value? id = if id = t.size then some value else t.value? id := by
  simp only [value?_eq, content?_wrap hparent hne hlt]
  split
  · rfl
  · split
    · next hid => rw [hid, Option.map_map]; rfl
    · split
      · next hid => rw [hid, Option.map_map]; rfl
      · rfl

theorem parent?_wrap (value : α) (id : Nat) :
    (t.wrap node value).parent? id =
      if id = t.size then some parent else if id = node then some t.size else t.parent? id := by
  obtain ⟨c, hc⟩ := Option.isSome_iff_exists.mp (content?_isSome.mpr (lt_size_of_parent? hparent))
  simp only [parent?_eq, content?_wrap hparent hne hlt]
  split
  · rfl
  · split
    · rw [hc]; rfl
    · split
      · next hid => rw [hid, Option.bind_map]; rfl
      · rfl

theorem children_wrap (value : α) (id : Nat) :
    (t.wrap node value).children id =
      if id = t.size then [node]
      else if id = parent then (t.children parent).replace node t.size else t.children id := by
  obtain ⟨c, hc⟩ := Option.isSome_iff_exists.mp (content?_isSome.mpr hlt)
  simp only [children_eq, content?_wrap hparent hne hlt]
  split
  · rfl
  · by_cases hid : id = node
    · rw [if_pos hid, if_neg (by omega), hid, Option.map_map]
      rfl
    · rw [if_neg hid]
      split
      · rw [hc]; rfl
      · rfl

end

/-! ### Links that have their counterparts -/

/-- Replacing the one occurrence of a member. -/
theorem replace_eq_map {ids : List Nat} (h : ids.Nodup) (old new : Nat) :
    ids.replace old new = ids.map fun id => if id = old then new else id := by
  induction ids with
  | nil => rfl
  | cons id ids ih =>
      obtain ⟨hid, hids⟩ := List.nodup_cons.mp h
      by_cases hold : id = old
      · have hrest : ids.map (fun id => if id = old then new else id) = ids := by
          refine (List.map_congr_left fun other hother => if_neg ?_).trans (List.map_id _)
          rintro rfl
          exact hid (hold ▸ hother)
        simp [hold, hrest]
      · rw [List.map_cons, if_neg hold, List.replace_cons, ih hids,
          beq_eq_false_iff_ne.mpr (Ne.symm hold)]

theorem mem_replace {ids : List Nat} {old new id : Nat} (h : ids.Nodup) (hold : old ∈ ids) :
    id ∈ ids.replace old new ↔ id = new ∨ (id ∈ ids ∧ id ≠ old) := by
  rw [replace_eq_map h, List.mem_map]
  constructor
  · rintro ⟨other, hother, rfl⟩
    by_cases hsame : other = old
    · exact .inl (if_pos hsame)
    · rw [if_neg hsame]
      exact .inr ⟨hother, hsame⟩
  · rintro (rfl | ⟨hid, hne⟩)
    · exact ⟨old, hold, if_pos rfl⟩
    · exact ⟨id, hid, if_neg hne⟩

theorem nodup_replace {ids : List Nat} {old new : Nat} (h : ids.Nodup) (hnew : new ∉ ids) :
    (ids.replace old new).Nodup := by
  rw [replace_eq_map h]
  refine List.pairwise_map.mpr (h.imp_of_mem fun {a b} ha hb hab => ?_)
  have hne : ∀ c ∈ ids, new ≠ c := fun c hc hsame => hnew (hsame ▸ hc)
  by_cases hfirst : a = old
  · rw [if_pos hfirst, if_neg (fun hsecond => hab (hfirst.trans hsecond.symm))]
    exact hne b hb
  · rw [if_neg hfirst]
    split
    · exact (hne a ha).symm
    · exact hab

/-- Node 0 is the only node without a parent, the links between parents and children go both
ways, no node is linked twice from one parent, and going up from parent to parent ends. -/
structure Linked (t : Arena α) : Prop where
  size_pos : 0 < t.size
  parent_root : t.parent? root = none
  exists_parent : ∀ id : Nat, id < t.size → id ≠ root → ∃ parent, t.parent? id = some parent
  parent_lt : ∀ id parent : Nat, t.parent? id = some parent → parent < t.size
  mem_children : ∀ id parent : Nat, id ∈ t.children parent ↔ t.parent? id = some parent
  nodup : ∀ parent : Nat, (t.children parent).Nodup
  climbs : ∃ depth : Nat → Nat, ∀ id parent : Nat, t.parent? id = some parent →
    depth parent < depth id

namespace Linked

theorem single (value : α) (levels : Nat) : (Arena.single value levels).Linked := by
  have hparent : ∀ id, (Arena.single value levels).parent? id = none := by
    intro id
    cases id <;> rfl
  have hchildren : ∀ id, (Arena.single value levels).children id = [] := by
    intro id
    cases id <;> rfl
  refine ⟨Nat.one_pos, rfl, ?_, ?_, ?_, ?_, ⟨fun _ => 0, ?_⟩⟩
  · intro id hlt hne
    exact absurd (Nat.lt_one_iff.mp hlt) hne
  · intro id parent h
    rw [hparent] at h
    cases h
  · intro id parent
    simp [hparent, hchildren]
  · intro parent
    simp [hchildren]
  · intro id parent h
    rw [hparent] at h
    cases h

theorem parent_ne (h : t.Linked) (hparent : t.parent? node = some parent) : parent ≠ node := by
  obtain ⟨depth, hdepth⟩ := h.climbs
  rintro rfl
  exact Nat.lt_irrefl _ (hdepth _ _ hparent)

theorem child_lt (h : t.Linked) (hid : id ∈ t.children parent) : id < t.size :=
  lt_size_of_parent? ((h.mem_children id parent).mp hid)

theorem ne_root (h : t.Linked) (hparent : t.parent? node = some parent) : node ≠ root := by
  rintro rfl
  rw [h.parent_root] at hparent
  cases hparent

/-- Going up from a node stays in the tree. -/
theorem climb_lt (h : t.Linked) {fuel : Nat} {link : Option Nat}
    (hlink : ∀ id : Nat, link = some id → id < t.size) (hid : id ∈ t.climb fuel link) :
    id < t.size := by
  induction fuel generalizing link with
  | zero => cases hid
  | succ fuel ih =>
      cases link with
      | none => cases hid
      | some first =>
          rcases List.mem_cons.mp hid with rfl | hid
          · exact hlink _ rfl
          · exact ih (fun above habove => h.parent_lt first above habove) hid

theorem ancestors_lt (h : t.Linked) (hid : id ∈ t.ancestors node) : id < t.size :=
  h.climb_lt (fun above habove => h.parent_lt node above habove) hid

/-! ### A new leaf -/

section

variable (h : t.Linked) (hparent : parent < t.size) (value : α) (levels : Nat)
include h hparent

/-- The leaf is linked to its parent and from it, and nowhere else. -/
theorem mem_children_add (id above : Nat) :
    id ∈ (t.add parent value levels).children above ↔
      (t.add parent value levels).parent? id = some above := by
  have hfresh : t.size ∉ t.children above := fun hmem => Nat.lt_irrefl _ (h.child_lt hmem)
  rw [parent?_add hparent, children_add hparent]
  by_cases hid : id = t.size
  · rw [if_pos hid, hid]
    by_cases habove : above = parent
    · simp [habove]
    · rw [if_neg habove]
      simp [hfresh, Ne.symm habove]
  · rw [if_neg hid, ← h.mem_children]
    split
    · next habove => simp [habove, hid]
    · rfl

theorem climbs_add : ∃ depth : Nat → Nat, ∀ id above : Nat,
    (t.add parent value levels).parent? id = some above → depth above < depth id := by
  obtain ⟨depth, hdepth⟩ := h.climbs
  refine ⟨fun id => if id = t.size then depth parent + 1 else depth id,
    fun id above habove => ?_⟩
  rw [parent?_add hparent] at habove
  dsimp only
  split at habove
  · next hid =>
      obtain rfl := Option.some.inj habove
      rw [if_neg (Nat.ne_of_lt hparent), if_pos hid]
      exact Nat.lt_succ_self _
  · next hid =>
      rw [if_neg (Nat.ne_of_lt (h.parent_lt id above habove)), if_neg hid]
      exact hdepth id above habove

/-- **A new leaf leaves the links in order.** -/
theorem add : (t.add parent value levels).Linked := by
  have hsize := size_add t parent value levels
  have hup := parent?_add hparent value levels
  refine ⟨by omega, ?_, ?_, ?_, h.mem_children_add hparent value levels, ?_,
    h.climbs_add hparent value levels⟩
  · have hroot : root ≠ t.size := Nat.ne_of_lt h.size_pos
    rw [hup, if_neg hroot, h.parent_root]
  · intro id hlt hroot
    rw [hup]
    split
    · exact ⟨parent, rfl⟩
    · exact h.exists_parent id (by omega) hroot
  · intro id above habove
    rw [hup] at habove
    split at habove
    · obtain rfl := Option.some.inj habove
      omega
    · have hold := h.parent_lt id above habove
      omega
  · intro above
    rw [children_add hparent]
    split
    · refine List.nodup_append.mpr ⟨h.nodup parent, by simp, ?_⟩
      rintro id hid _ hnew rfl
      obtain rfl := List.mem_singleton.mp hnew
      exact Nat.lt_irrefl _ (h.child_lt hid)
    · exact h.nodup above

end

/-! ### A new node around another one -/

section

variable (h : t.Linked) (hparent : t.parent? node = some parent) (value : α)
include h hparent

/-- The new node is linked where the node inside was, and that one below the new node. -/
theorem mem_children_wrap (id above : Nat) :
    id ∈ (t.wrap node value).children above ↔
      (t.wrap node value).parent? id = some above := by
  have hne := h.parent_ne hparent
  have hlt := h.parent_lt node parent hparent
  have hnode := lt_size_of_parent? hparent
  have hmem := (h.mem_children node parent).mpr hparent
  have hnone : ∀ below, t.parent? below ≠ some t.size := fun below hsome =>
    Nat.lt_irrefl _ (h.parent_lt below _ hsome)
  have hfresh : t.parent? t.size = none :=
    Option.eq_none_iff_forall_ne_some.mpr fun above hsome =>
      Nat.lt_irrefl _ (lt_size_of_parent? hsome)
  rw [parent?_wrap hparent hne hlt, children_wrap hparent hne hlt]
  by_cases hnew : above = t.size
  · rw [if_pos hnew, hnew, List.mem_singleton]
    by_cases hid : id = t.size
    · rw [if_pos hid, hid, Option.some_inj]
      omega
    · rw [if_neg hid]
      split
      · next hsame => simp [hsame]
      · next hother => simp [hother, hnone]
  · rw [if_neg hnew]
    by_cases habove : above = parent
    · rw [if_pos habove, habove, mem_replace (h.nodup parent) hmem, h.mem_children]
      split
      · next hid => simp [hid]
      · next hid =>
          split
          · next hsame => simp [hsame, Nat.ne_of_lt hnode, Ne.symm (Nat.ne_of_lt hlt)]
          · next hother => simp [hid, hother]
    · rw [if_neg habove, h.mem_children]
      split
      · next hid => simp [hid, hfresh, Ne.symm habove]
      · split
        · next hsame => simp [hsame, hparent, Ne.symm habove, Ne.symm hnew]
        · rfl

/-- Room for the new node is made by counting every level twice. -/
theorem climbs_wrap : ∃ depth : Nat → Nat, ∀ id above : Nat,
    (t.wrap node value).parent? id = some above → depth above < depth id := by
  have hlt := h.parent_lt node parent hparent
  have hnode := lt_size_of_parent? hparent
  obtain ⟨depth, hdepth⟩ := h.climbs
  have hbelow := hdepth node parent hparent
  refine ⟨fun id => if id = t.size then 2 * depth node - 1 else 2 * depth id,
    fun id above habove => ?_⟩
  rw [parent?_wrap hparent (h.parent_ne hparent) hlt] at habove
  dsimp only
  split at habove
  · next hid =>
      obtain rfl := Option.some.inj habove
      rw [if_neg (Nat.ne_of_lt hlt), if_pos hid]
      omega
  · next hid =>
      rw [if_neg hid]
      split at habove
      · next hsame =>
          obtain rfl := Option.some.inj habove
          rw [if_pos rfl, hsame]
          omega
      · have hold := h.parent_lt id above habove
        have hup := hdepth id above habove
        rw [if_neg (Nat.ne_of_lt hold)]
        omega

/-- **A new node around another one leaves the links in order.** -/
theorem wrap : (t.wrap node value).Linked := by
  have hne := h.parent_ne hparent
  have hlt := h.parent_lt node parent hparent
  have hnode := lt_size_of_parent? hparent
  have hsize := size_wrap value (by rw [hparent]; rfl : (t.parent? node).isSome)
  have hup := parent?_wrap hparent hne hlt value
  refine ⟨by omega, ?_, ?_, ?_, h.mem_children_wrap hparent value, ?_,
    h.climbs_wrap hparent value⟩
  · have hold : root ≠ t.size := Nat.ne_of_lt h.size_pos
    rw [hup, if_neg hold, if_neg (Ne.symm (h.ne_root hparent)), h.parent_root]
  · intro id hid hidRoot
    rw [hup]
    split
    · exact ⟨parent, rfl⟩
    · split
      · exact ⟨t.size, rfl⟩
      · exact h.exists_parent id (by omega) hidRoot
  · intro id above habove
    rw [hup] at habove
    split at habove
    · obtain rfl := Option.some.inj habove
      omega
    · split at habove
      · obtain rfl := Option.some.inj habove
        omega
      · have hold := h.parent_lt id above habove
        omega
  · intro above
    rw [children_wrap hparent hne hlt]
    split
    · simp
    · split
      · exact nodup_replace (h.nodup parent) fun hmem => Nat.lt_irrefl _ (h.child_lt hmem)
      · exact h.nodup above

end

end Linked

end Arena

end Formula
