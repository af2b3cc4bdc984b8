/-
Where the nodes of a nested tree lie in an array.

A formula is read from left to right, and a node is created when its lexeme is read.  So the
node of an operator comes after everything below its first child and before everything below
the others, and any other node comes before everything below it.  `Nested.layout` writes the
nodes of a nested tree down in this order, with their links and heights: nothing else is left
to choose.  The main results are

  * `Draft.arena_nested`: the array of a draft is the layout of the nested tree that it shows,
    so the nested tree determines it;
  * `Nested.shows_root`, `Nested.shows_below`: every place of a layout shows one of the
    subtrees;
  * `Nested.inOrder_arena`: visiting the tree in the order of reading visits the array from
    its first place to its last.
-/
import Formula.Proofs.Arena.Fold

namespace Formula

/-! ### Nested trees -/

namespace Nested

variable {α β : Type}

/-- What the topmost node holds. -/
def value : Nested α → α
  | node value _ => value

/-- The trees directly below the topmost node. -/
def children : Nested α → List (Nested α)
  | node _ children => children

mutual

/-- The tree with another value at every node. -/
def map (f : α → β) : Nested α → Nested β
  | node value children => node (f value) (maps f children)

/-- The trees with another value at every node. -/
def maps (f : α → β) : List (Nested α) → List (Nested β)
  | [] => []
  | n :: ns => n.map f :: maps f ns

end

mutual

/-- The tree and every tree below it, each before those below it. -/
def subtrees : Nested α → List (Nested α)
  | node value children => node value children :: allSubtrees children

/-- The subtrees of some trees. -/
def allSubtrees : List (Nested α) → List (Nested α)
  | [] => []
  | n :: ns => n.subtrees ++ allSubtrees ns

end

/-- What holds of a tree once it holds of the trees directly below holds of every tree. -/
theorem induct {P : Nested α → Prop} (step : ∀ n, (∀ c ∈ children n, P c) → P n) : ∀ n, P n
  | node value cs => step (node value cs) fun c _ => induct step c
termination_by n => n
decreasing_by
  have hlt := List.sizeOf_lt_of_mem (show c ∈ cs from ‹_›)
  simp only [node.sizeOf_spec]
  omega

theorem node_value_children (n : Nested α) : node n.value n.children = n := by
  cases n
  rfl

theorem maps_eq_map (f : α → β) (ns : List (Nested α)) : maps f ns = ns.map (map f) := by
  induction ns with
  | nil => rfl
  | cons n ns ih => rw [maps, ih]; rfl

@[simp] theorem value_map (f : α → β) (n : Nested α) : (n.map f).value = f n.value := by
  cases n with
  | node value children => rw [map]; rfl

theorem children_map (f : α → β) (n : Nested α) : (n.map f).children = n.children.map (map f) := by
  cases n with
  | node value children => rw [map, ← maps_eq_map]; rfl

theorem mem_allSubtrees {s : Nested α} {ns : List (Nested α)} :
    s ∈ allSubtrees ns ↔ ∃ n ∈ ns, s ∈ n.subtrees := by
  induction ns with
  | nil => simp [allSubtrees]
  | cons n ns ih => simp [allSubtrees, ih]

theorem mem_subtrees {s n : Nested α} :
    s ∈ n.subtrees ↔ s = n ∨ ∃ c ∈ n.children, s ∈ c.subtrees := by
  cases n with
  | node value children => rw [subtrees, List.mem_cons, mem_allSubtrees]; rfl

theorem self_mem_subtrees (n : Nested α) : n ∈ n.subtrees := mem_subtrees.mpr (.inl rfl)

/-- What stands somewhere in a tree is the topmost value of a subtree. -/
theorem mem_preorder {v : α} {n : Nested α} :
    v ∈ n.preorder ↔ ∃ s ∈ n.subtrees, s.value = v := by
  have hlist : ∀ ns : List (Nested α), (∀ n ∈ ns, v ∈ n.preorder ↔ ∃ s ∈ n.subtrees, s.value = v) →
      (v ∈ preorders ns ↔ ∃ s ∈ allSubtrees ns, s.value = v) := by
    intro ns hns
    induction ns with
    | nil => simp [preorders, allSubtrees]
    | cons n ns ih =>
        rw [preorders, allSubtrees, List.mem_append, hns n (by simp),
          ih fun m hm => hns m (by simp [hm])]
        simp only [List.mem_append, or_and_right, exists_or]
  induction n using induct with
  | step n ih =>
      cases n with
      | node value children =>
          rw [preorder, subtrees, List.mem_cons, hlist children ih]
          simp only [List.mem_cons, or_and_right, exists_or, exists_eq_left]
          exact or_congr_left eq_comm

theorem size_pos (n : Nested α) : 0 < n.size := by
  cases n with
  | node value children => exact Nat.succ_pos _

theorem size_eq (n : Nested α) : n.size = sizes n.children + 1 := by
  cases n with
  | node value children => rw [size]; rfl

theorem sizes_append (ms ns : List (Nested α)) : sizes (ms ++ ns) = sizes ms + sizes ns := by
  induction ms with
  | nil => simp [sizes]
  | cons m ms ih => rw [List.cons_append, sizes, sizes, ih, Nat.add_assoc]

theorem size_le_of_mem {n : Nested α} {ns : List (Nested α)} (h : n ∈ ns) :
    n.size ≤ sizes ns := by
  induction ns with
  | nil => simp at h
  | cons m ns ih =>
      rw [sizes]
      rcases List.mem_cons.mp h with rfl | h
      · omega
      · have hle := ih h
        omega

theorem size_le_of_mem_subtrees {s n : Nested α} (h : s ∈ n.subtrees) : s.size ≤ n.size := by
  induction n using induct with
  | step n ih =>
      rcases mem_subtrees.mp h with rfl | ⟨c, hc, hs⟩
      · exact Nat.le_refl _
      · have hle := ih c hc hs
        have hchild := size_le_of_mem hc
        rw [n.size_eq]
        omega

theorem mem_subtrees_trans {r s n : Nested α} (hr : r ∈ s.subtrees) (hs : s ∈ n.subtrees) :
    r ∈ n.subtrees := by
  induction n using induct with
  | step n ih =>
      rcases mem_subtrees.mp hs with rfl | ⟨c, hc, hs⟩
      · exact hr
      · exact mem_subtrees.mpr (.inr ⟨c, hc, ih c hc hs⟩)

end Nested

/-! ### The order of reading -/

/-- How many of the nodes below a token are read before the token itself. -/
def Token.leading : Token → Nat
  | operator _ => 1
  | _ => 0

theorem Token.leading_eq_one {token : Token} :
    token.leading = 1 ↔ ∃ op, token = .operator op := by
  cases token <;> simp [leading]

/-- The node `id` and what is below it, in the order of reading; `fuel` bounds the levels. -/
def Tree.inOrder (t : Tree) : (fuel : Nat) → NodeId → List NodeId
  | 0, _ => []
  | fuel + 1, id =>
    ((t.children id).take (t.token id).leading).flatMap (t.inOrder fuel) ++
      id :: ((t.children id).drop (t.token id).leading).flatMap (t.inOrder fuel)

namespace Nested

/-- The trees below the topmost node that are read before it. -/
def before (n : Nested Token) : List (Nested Token) := n.children.take n.value.leading

/-- The trees below the topmost node that are read after it. -/
def after (n : Nested Token) : List (Nested Token) := n.children.drop n.value.leading

/-- The number of nodes that are read before the topmost one. -/
def lead : Nested Token → Nat
  | node (.operator _) (first :: _) => first.size
  | _ => 0

/-- The topmost node of a tree whose stretch of the array starts at `base`. -/
def top (base : Nat) (n : Nested Token) : Nat := base + n.lead

/-- The topmost nodes of trees whose stretch starts at `base`. -/
def tops (base : Nat) : List (Nested Token) → List Nat
  | [] => []
  | n :: ns => n.top base :: tops (base + n.size) ns

mutual

/-- The number of levels below the topmost node. -/
def height : Nested Token → Nat
  | node token children => max token.levels (heights children)

/-- The number of levels below a node that has the trees below it. -/
def heights : List (Nested Token) → Nat
  | [] => 0
  | n :: ns => max (n.height + 1) (heights ns)

end

mutual

/-- The nodes of a tree in the order of reading, below `parent` and from the place `base`
on. -/
def layout (parent : Option NodeId) (base : Nat) : Nested Token → List (Node Token)
  | node (.operator op) (first :: rest) =>
    let id := base + first.size
    first.layout (some id) base ++
      ⟨.operator op, parent, first.top base :: tops (id + 1) rest, heights (first :: rest)⟩ ::
      layouts (some id) (id + 1) rest
  | node token children =>
    ⟨token, parent, tops (base + 1) children, max token.levels (heights children)⟩ ::
      layouts (some base) (base + 1) children

/-- The nodes of trees side by side. -/
def layouts (parent : Option NodeId) (base : Nat) : List (Nested Token) → List (Node Token)
  | [] => []
  | n :: ns => n.layout parent base ++ layouts parent (base + n.size) ns

end

/-- The tree in an array. -/
def arena (n : Nested Token) : Tree := ⟨(n.layout none 0).toArray⟩

theorem before_append_after (n : Nested Token) : n.before ++ n.after = n.children :=
  List.take_append_drop _ _

theorem sizes_before (n : Nested Token) : sizes n.before = n.lead := by
  cases n with
  | node token children =>
      cases token <;> cases children <;>
        simp [before, lead, sizes, Token.leading, value, Nested.children]

theorem size_eq_lead (n : Nested Token) : n.size = n.lead + sizes n.after + 1 := by
  rw [size_eq, ← before_append_after, sizes_append, sizes_before]

theorem height_eq (n : Nested Token) : n.height = max n.value.levels (heights n.children) := by
  cases n with
  | node token children => rw [height]; rfl

/-- The node that is written for the topmost one. -/
def entry (parent : Option NodeId) (base : Nat) (n : Nested Token) : Node Token :=
  ⟨n.value, parent, tops base n.before ++ tops (n.top base + 1) n.after, n.height⟩

/-- Every layout is what is read before the node, the node, and what is read after it. -/
theorem layout_eq (parent : Option NodeId) (base : Nat) (n : Nested Token) :
    n.layout parent base = layouts (some (n.top base)) base n.before ++
      n.entry parent base :: layouts (some (n.top base)) (n.top base + 1) n.after := by
  cases n with
  | node token children =>
      cases token <;> cases children <;>
        simp [layout, entry, before, after, layouts, tops, top, lead, height, heights, value,
          Nested.children, Token.leading, Token.levels]

/-- A node with nothing read before it comes before everything below it. -/
theorem layout_plain {token : Token} {cs : List (Nested Token)}
    (h : token.leading = 0 ∨ cs = []) (parent : Option NodeId) (base : Nat) :
    (node token cs).layout parent base =
      ⟨token, parent, tops (base + 1) cs, max token.levels (heights cs)⟩ ::
        layouts (some base) (base + 1) cs := by
  cases token <;> cases cs <;> simp_all [layout, Token.leading]

theorem lead_eq_zero {n : Nested Token} (h : n.value.leading = 0) : n.lead = 0 := by
  rw [← sizes_before, before, h]
  rfl

/-- A root that is read first is written first. -/
theorem top_zero {n : Nested Token} (h : n.value.leading = 0) : n.top 0 = Arena.root := by
  rw [top, lead_eq_zero h]
  rfl

/-! ### The stretch of a tree -/

theorem mem_children_of_mem_before {c n : Nested Token} (h : c ∈ n.before) : c ∈ n.children :=
  List.mem_of_mem_take h

theorem mem_children_of_mem_after {c n : Nested Token} (h : c ∈ n.after) : c ∈ n.children :=
  List.mem_of_mem_drop h

theorem length_layouts_of {ns : List (Nested Token)}
    (h : ∀ n ∈ ns, ∀ parent base, (n.layout parent base).length = n.size)
    (parent : Option NodeId) (base : Nat) : (layouts parent base ns).length = sizes ns := by
  induction ns generalizing base with
  | nil => rfl
  | cons n ns ih =>
      rw [layouts, sizes, List.length_append, h n (by simp), ih fun m hm => h m (by simp [hm])]

@[simp] theorem length_layout (parent : Option NodeId) (base : Nat) (n : Nested Token) :
    (n.layout parent base).length = n.size := by
  induction n using induct generalizing parent base with
  | step n ih =>
      rw [layout_eq, List.length_append, List.length_cons,
        length_layouts_of fun c hc => ih c (mem_children_of_mem_before hc),
        length_layouts_of fun c hc => ih c (mem_children_of_mem_after hc), sizes_before,
        size_eq_lead]
      omega

@[simp] theorem length_layouts (parent : Option NodeId) (base : Nat) (ns : List (Nested Token)) :
    (layouts parent base ns).length = sizes ns :=
  length_layouts_of (fun n _ parent base => length_layout parent base n) parent base

theorem lead_lt_size (n : Nested Token) : n.lead < n.size := by
  rw [size_eq_lead]
  omega

@[simp] theorem size_arena (n : Nested Token) : n.arena.size = n.size := by
  simp [arena, Arena.size]

@[simp] theorem length_tops (base : Nat) (ns : List (Nested Token)) :
    (tops base ns).length = ns.length := by
  induction ns generalizing base with
  | nil => rfl
  | cons n ns ih => simp [tops, ih]

/-- The links to what is read before a node are the first ones. -/
theorem take_tops (n : Nested Token) (base place : Nat) :
    (tops base n.before ++ tops place n.after).take n.value.leading = tops base n.before := by
  have hlen : n.before.length = min n.value.leading n.children.length := List.length_take
  rw [List.take_append, List.take_of_length_le (by rw [length_tops, hlen]; omega), length_tops]
  rcases Nat.le_total n.value.leading n.children.length with hle | hle
  · have hzero : n.value.leading - n.before.length = 0 := by omega
    rw [hzero, List.take_zero, List.append_nil]
  · rw [after, List.drop_eq_nil_of_le hle, tops, List.take_nil, List.append_nil]

theorem drop_tops (n : Nested Token) (base place : Nat) :
    (tops base n.before ++ tops place n.after).drop n.value.leading = tops place n.after := by
  have h := List.take_append_drop n.value.leading (tops base n.before ++ tops place n.after)
  rw [take_tops] at h
  exact List.append_cancel_left h

end Nested

/-! ### What the places of a layout show -/

/-- The node `id` of the tree shows the nested tree `n`: it has the height of `n`, and `n` is
read back there. -/
structure Tree.Shows (t : Tree) (id : NodeId) (n : Nested Token) : Prop where
  heightAt : t.heightAt id = n.height
  nestedAt? : ∀ fuel, n.size ≤ fuel → t.nestedAt? fuel id = some n

namespace Arena

variable {t : Tree}

/-- The node of the topmost value of a tree that is written in the array. -/
theorem entry_of_has {parent : Option NodeId} {base : Nat} {n : Nested Token}
    (h : t.Has base (n.layout parent base)) :
    t.Has base (Nested.layouts (some (n.top base)) base n.before) ∧
      t.nodes[n.top base]? = some (n.entry parent base) ∧
      t.Has (n.top base + 1) (Nested.layouts (some (n.top base)) (n.top base + 1) n.after) := by
  rw [Nested.layout_eq] at h
  obtain ⟨hbefore, hrest⟩ := has_append h
  rw [Nested.length_layouts, Nested.sizes_before] at hrest
  obtain ⟨hentry, hafter⟩ := has_cons hrest
  exact ⟨hbefore, hentry, hafter⟩

theorem mapM_append_of {α β : Type} {f : α → Option β} {xs ys : List α} {us vs : List β}
    (hx : xs.mapM f = some us) (hy : ys.mapM f = some vs) :
    (xs ++ ys).mapM f = some (us ++ vs) := by
  rw [List.mapM_append, hx, hy]
  rfl

/-- Trees that are written side by side are read back one by one. -/
theorem mapM_nestedAt?_of {parent : Option NodeId} {base fuel : Nat} {ns : List (Nested Token)}
    (hns : ∀ n ∈ ns, ∀ parent base, t.Has base (n.layout parent base) → n.size ≤ fuel →
      t.nestedAt? fuel (n.top base) = some n)
    (h : t.Has base (Nested.layouts parent base ns)) (hfuel : Nested.sizes ns ≤ fuel) :
    (Nested.tops base ns).mapM (t.nestedAt? fuel) = some ns := by
  induction ns generalizing base with
  | nil => rfl
  | cons n ns ih =>
      rw [Nested.sizes] at hfuel
      obtain ⟨hn, hrest⟩ := has_append h
      rw [Nested.length_layout] at hrest
      have hread := hns n (by simp) parent base hn (by omega)
      have hothers := ih (fun m hm => hns m (by simp [hm])) hrest (by omega)
      rw [Nested.tops, List.mapM_cons, hread, hothers]
      rfl

/-- A tree that is written in the array is read back as it is. -/
theorem nestedAt?_layout {parent : Option NodeId} {base fuel : Nat} {n : Nested Token}
    (h : t.Has base (n.layout parent base)) (hfuel : n.size ≤ fuel) :
    t.nestedAt? fuel (n.top base) = some n := by
  induction n using Nested.induct generalizing parent base fuel with
  | step n ih =>
      obtain ⟨hbefore, hentry, hafter⟩ := entry_of_has h
      have hsizes := n.size_eq_lead
      have hlead := n.sizes_before
      obtain ⟨fuel, rfl⟩ : ∃ k, fuel = k + 1 := ⟨fuel - 1, by omega⟩
      have hfirst := mapM_nestedAt?_of
        (fun c hc _ _ hhas hle => ih c (Nested.mem_children_of_mem_before hc) hhas hle) hbefore
        (show _ ≤ fuel by omega)
      have hrest := mapM_nestedAt?_of
        (fun c hc _ _ hhas hle => ih c (Nested.mem_children_of_mem_after hc) hhas hle) hafter
        (show _ ≤ fuel by omega)
      rw [nestedAt?, hentry]
      simp only [Nested.entry]
      rw [mapM_append_of hfirst hrest, Nested.before_append_after, Option.map_some,
        Nested.node_value_children]

/-- The topmost node of a tree that is written in the array shows the tree. -/
theorem shows_layout {parent : Option NodeId} {base : Nat} {n : Nested Token}
    (h : t.Has base (n.layout parent base)) : Tree.Shows t (n.top base) n := by
  obtain ⟨-, hentry, -⟩ := entry_of_has h
  refine ⟨?_, fun fuel hfuel => nestedAt?_layout h hfuel⟩
  rw [heightAt, hentry]
  rfl

/-- Every place in the stretches of some trees shows one of their subtrees. -/
theorem shows_of_layouts {parent : Option NodeId} {base i : Nat} {ns : List (Nested Token)}
    (hns : ∀ n ∈ ns, ∀ parent base i, t.Has base (n.layout parent base) → i < n.size →
      ∃ s ∈ n.subtrees, Tree.Shows t (base + i) s)
    (h : t.Has base (Nested.layouts parent base ns)) (hi : i < Nested.sizes ns) :
    ∃ s ∈ Nested.allSubtrees ns, Tree.Shows t (base + i) s := by
  induction ns generalizing base i with
  | nil => simp [Nested.sizes] at hi
  | cons n ns ih =>
      rw [Nested.sizes] at hi
      obtain ⟨hn, hrest⟩ := has_append h
      rw [Nested.length_layout] at hrest
      by_cases hlt : i < n.size
      · obtain ⟨s, hs, hshows⟩ := hns n (by simp) parent base i hn hlt
        exact ⟨s, List.mem_append_left _ hs, hshows⟩
      · obtain ⟨s, hs, hshows⟩ := ih (i := i - n.size) (fun m hm => hns m (by simp [hm])) hrest
          (by omega)
        have hplace : base + n.size + (i - n.size) = base + i := by omega
        rw [hplace] at hshows
        exact ⟨s, List.mem_append_right _ hs, hshows⟩

/-- Every place in the stretch of a tree but that of the topmost node shows a tree below it, if
the same is known of the trees directly below. -/
theorem shows_below_of {parent : Option NodeId} {base i : Nat} {n : Nested Token}
    (hchildren : ∀ c ∈ n.children, ∀ parent base i, t.Has base (c.layout parent base) →
      i < c.size → ∃ s ∈ c.subtrees, Tree.Shows t (base + i) s)
    (h : t.Has base (n.layout parent base)) (hi : i < n.size) (hne : i ≠ n.lead) :
    ∃ s ∈ Nested.allSubtrees n.children, Tree.Shows t (base + i) s := by
  obtain ⟨hbefore, -, hafter⟩ := entry_of_has h
  have hsizes := n.size_eq_lead
  have hlead := n.sizes_before
  have hsubtrees : ∀ s, s ∈ Nested.allSubtrees n.before ∨ s ∈ Nested.allSubtrees n.after →
      s ∈ Nested.allSubtrees n.children := by
    intro s hs
    rw [Nested.mem_allSubtrees, Nested.mem_allSubtrees] at hs
    rw [← n.before_append_after, Nested.mem_allSubtrees]
    rcases hs with ⟨c, hc, hsc⟩ | ⟨c, hc, hsc⟩
    · exact ⟨c, List.mem_append_left _ hc, hsc⟩
    · exact ⟨c, List.mem_append_right _ hc, hsc⟩
  by_cases hlt : i < n.lead
  · obtain ⟨s, hs, hshows⟩ := shows_of_layouts
      (fun c hc => hchildren c (Nested.mem_children_of_mem_before hc)) hbefore
      (show i < Nested.sizes n.before by omega)
    exact ⟨s, hsubtrees s (.inl hs), hshows⟩
  · obtain ⟨s, hs, hshows⟩ := shows_of_layouts (i := i - n.lead - 1)
      (fun c hc => hchildren c (Nested.mem_children_of_mem_after hc)) hafter
      (show i - n.lead - 1 < Nested.sizes n.after by omega)
    have hplace : n.top base + 1 + (i - n.lead - 1) = base + i := by
      rw [Nested.top]
      omega
    rw [hplace] at hshows
    exact ⟨s, hsubtrees s (.inr hs), hshows⟩

/-- **Every place in the stretch of a tree shows one of its subtrees.** -/
theorem shows_of_layout {parent : Option NodeId} {base i : Nat} {n : Nested Token}
    (h : t.Has base (n.layout parent base)) (hi : i < n.size) :
    ∃ s ∈ n.subtrees, Tree.Shows t (base + i) s := by
  induction n using Nested.induct generalizing parent base i with
  | step n ih =>
      by_cases hne : i = n.lead
      · rw [hne]
        exact ⟨n, n.self_mem_subtrees, shows_layout h⟩
      · obtain ⟨s, hs, hshows⟩ :=
          shows_below_of (fun c hc _ _ _ hhas hlt => ih c hc hhas hlt) h hi hne
        rw [Nested.mem_allSubtrees] at hs
        exact ⟨s, Nested.mem_subtrees.mpr (.inr hs), hshows⟩

end Arena

/-! ### Visiting the array in order -/

namespace Tree

variable {t : Tree}

/-- Trees that are written side by side are visited one after the other. -/
theorem inOrder_of_layouts {parent : Option NodeId} {base fuel : Nat} {ns : List (Nested Token)}
    (hns : ∀ n ∈ ns, ∀ parent base, t.Has base (n.layout parent base) → n.size ≤ fuel →
      t.inOrder fuel (n.top base) = List.range' base n.size)
    (h : t.Has base (Nested.layouts parent base ns)) (hfuel : Nested.sizes ns ≤ fuel) :
    (Nested.tops base ns).flatMap (t.inOrder fuel) = List.range' base (Nested.sizes ns) := by
  induction ns generalizing base with
  | nil => rfl
  | cons n ns ih =>
      rw [Nested.sizes] at hfuel
      obtain ⟨hn, hrest⟩ := Arena.has_append h
      rw [Nested.length_layout] at hrest
      rw [Nested.tops, List.flatMap_cons, hns n (by simp) parent base hn (by omega),
        ih (fun m hm => hns m (by simp [hm])) hrest (by omega), Nested.sizes,
        List.range'_append_1]

/-- **A tree that is written in the array is visited from its first place to its last.** -/
theorem inOrder_layout {parent : Option NodeId} {base fuel : Nat} {n : Nested Token}
    (h : t.Has base (n.layout parent base)) (hfuel : n.size ≤ fuel) :
    t.inOrder fuel (n.top base) = List.range' base n.size := by
  induction n using Nested.induct generalizing parent base fuel with
  | step n ih =>
      obtain ⟨hbefore, hentry, hafter⟩ := Arena.entry_of_has h
      have hsizes := n.size_eq_lead
      have hlead := n.sizes_before
      obtain ⟨fuel, rfl⟩ : ∃ k, fuel = k + 1 := ⟨fuel - 1, by omega⟩
      have hfirst := inOrder_of_layouts
        (fun c hc _ _ hhas hle => ih c (Nested.mem_children_of_mem_before hc) hhas hle) hbefore
        (show _ ≤ fuel by omega)
      have hrest := inOrder_of_layouts
        (fun c hc _ _ hhas hle => ih c (Nested.mem_children_of_mem_after hc) hhas hle) hafter
        (show _ ≤ fuel by omega)
      have htoken : t.token (n.top base) = n.value := by
        rw [Tree.token, Arena.value?, hentry]
        rfl
      have hchildren : t.children (n.top base) =
          Nested.tops base n.before ++
            Nested.tops (n.top base + 1)
              n.after := by
        rw [Arena.children, hentry]
        rfl
      rw [inOrder, htoken, hchildren, Nested.take_tops, Nested.drop_tops, hfirst, hrest,
        Nested.top, hlead]
      have hsplit : n.size = n.lead + (Nested.sizes n.after + 1) := by omega
      rw [hsplit, ← List.range'_append_1 (m := n.lead), List.range'_succ]

end Tree

/-! ### Folding the tokens -/

namespace Arena

variable {β : Type} (leaf : Token → β) (call : String → List (Arena β) → β)

theorem getElem?_foldTokens (t : Tree) (id : NodeId) :
    (t.foldTokens leaf call).nodes[id]? = t.nodes[id]?.map fun n =>
      ⟨n.value.fold leaf call, n.parent, n.children, n.height⟩ := by
  rw [← Array.getElem?_toList, nodes_foldTokens, List.getElem?_map, Array.getElem?_toList]

@[simp] theorem size_foldTokens (t : Tree) : (t.foldTokens leaf call).size = t.size := by
  rw [size, ← Array.length_toList, nodes_foldTokens, List.length_map, Array.length_toList, size]

theorem mapM_map_of {γ δ : Type} {f : Nat → Option γ} {g : Nat → Option δ} {h : γ → δ}
    (hfg : ∀ id, g id = (f id).map h) (ids : List Nat) :
    ids.mapM g = (ids.mapM f).map (List.map h) := by
  induction ids with
  | nil => rfl
  | cons id ids ih =>
      rw [List.mapM_cons, List.mapM_cons, hfg, ih]
      cases f id <;> cases ids.mapM f <;> rfl

/-- Folding the tokens of a tree folds the values of what is read back. -/
theorem nestedAt?_foldTokens (t : Tree) (fuel : Nat) (id : NodeId) :
    (t.foldTokens leaf call).nestedAt? fuel id =
      (t.nestedAt? fuel id).map (Nested.map (Token.fold leaf call)) := by
  induction fuel generalizing id with
  | zero => rfl
  | succ fuel ih =>
      rw [nestedAt?, nestedAt?, getElem?_foldTokens]
      cases t.nodes[id]? with
      | none => rfl
      | some node =>
          simp only [Option.map_some]
          rw [mapM_map_of ih, Option.map_map, Option.map_map]
          refine congrArg (Option.map · _) (funext fun ns => ?_)
          simp only [Function.comp_apply]
          rw [Nested.map, Nested.maps_eq_map]

end Arena

namespace Nested

theorem has_arena (n : Nested Token) : n.arena.Has 0 (n.layout none 0) := by
  intro i node hnode
  rw [Nat.zero_add, arena, List.getElem?_toArray]
  exact hnode

/-- The root shows the whole tree. -/
theorem shows_root {n : Nested Token} (h : n.value.leading = 0) :
    n.arena.Shows Arena.root n := by
  rw [← top_zero h]
  exact Arena.shows_layout n.has_arena

/-- **Every node of the array but the root shows a tree below the root.** -/
theorem shows_below {n : Nested Token} {id : NodeId} (h : n.value.leading = 0)
    (hid : id < n.arena.size) (hne : id ≠ Arena.root) :
    ∃ s ∈ allSubtrees n.children, n.arena.Shows id s := by
  rw [size_arena] at hid
  have hlead : id ≠ n.lead := by
    rw [lead_eq_zero h]
    exact hne
  obtain ⟨s, hs, hshows⟩ := Arena.shows_below_of (fun _ _ _ _ _ => Arena.shows_of_layout)
    n.has_arena hid hlead
  rw [Nat.zero_add] at hshows
  exact ⟨s, hs, hshows⟩

/-- The array of a tree below a root that is read first is visited from its first place to its
last. -/
theorem inOrder_arena {n : Nested Token} (h : n.value.leading = 0) :
    n.arena.inOrder n.arena.size Arena.root = List.range n.arena.size := by
  rw [size_arena, ← top_zero h, Tree.inOrder_layout n.has_arena (Nat.le_refl _),
    List.range_eq_range']

/-- The tree is read back from its array, with its tokens folded. -/
theorem nested?_foldTokens_arena {β : Type} (leaf : Token → β)
    (call : String → List (Arena β) → β) {n : Nested Token} (h : n.value.leading = 0) :
    (n.arena.foldTokens leaf call).nested? = some (n.map (Token.fold leaf call)) := by
  rw [Arena.nested?, Arena.size_foldTokens, size_arena, Arena.nestedAt?_foldTokens, ← top_zero h,
    Arena.nestedAt?_layout n.has_arena (Nat.le_refl _), Option.map_some]

end Nested

end Formula
