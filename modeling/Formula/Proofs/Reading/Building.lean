/-
What happens to a tree under construction.

A tree grows by leaves below its cursor, by pairs of brackets and by operators that find their
place in it, and its cursor goes up where brackets close.  `Builder.Grows` lists these moves,
and `Builder.Sound` is what they keep: the links of the tree are in order, the cursor is one of
its nodes, and the root is no operator.  So an operator is never put around the root.
-/
import Formula.Proofs.Arena.Links
import Formula.Reading.Builder

namespace Formula

/-- Where the cursor goes when a bracket closes. -/
def Closing.node : Closing → NodeId
  | group parent => parent
  | call root => root

namespace Builder

/-- How a tree under construction changes. -/
inductive Grows (b : Builder) : Builder → Prop
  | refl : Grows b b
  | attach {c : Builder} (h : Grows b c) (token : Token) : Grows b (c.attach token)
  | openParen {c : Builder} (h : Grows b c) : Grows b c.openParen
  | close {c : Builder} {closing : Closing} (h : Grows b c)
      (hclosing : c.closing? = some closing) : Grows b { c with cursor := closing.node }
  | insert {c : Builder} {op : Operator} {place : Placement} (h : Grows b c)
      (hplace : c.placement? op = some place) : Grows b (c.insert op place)

/-- The links of the tree are in order, the cursor is in the tree, and the root is no
operator. -/
structure Sound (b : Builder) : Prop where
  linked : b.tree.Linked
  cursor_lt : b.cursor < b.tree.size
  operator?_root : (b.tree.token Arena.root).operator? = none

namespace Sound

variable {b c : Builder} {op : Operator} {place : Placement}

theorem ofRoot {token : Token} (h : token.operator? = none) : (Builder.ofRoot token).Sound :=
  ⟨.single token token.levels, Nat.one_pos, h⟩

/-! ### Nodes that are looked up -/

/-- The cursor and the nodes above it are in the tree. -/
theorem path_lt (h : b.Sound) {id : Nat} (hid : id ∈ b.path) : id < b.tree.size := by
  rcases List.mem_cons.mp hid with rfl | hid
  · exact h.cursor_lt
  · exact h.linked.ancestors_lt hid

theorem closing_lt (h : b.Sound) {closing : Closing} (hclosing : b.closing? = some closing) :
    closing.node < b.tree.size := by
  obtain ⟨id, hid, hat⟩ := List.exists_of_findSome?_eq_some hclosing
  rw [closingAt] at hat
  split at hat
  · obtain ⟨parent, hparent, rfl⟩ := Option.map_eq_some_iff.mp hat
    exact h.linked.parent_lt id parent hparent
  · obtain rfl := Option.some.inj hat
    exact h.path_lt hid
  · cases hat

/-- A node that holds an operator is not the root. -/
theorem ne_root (h : b.Sound) {id : Nat} {current : Operator}
    (hid : (b.tree.token id).operator? = some current) : id ≠ Arena.root := by
  rintro rfl
  rw [h.operator?_root] at hid
  cases hid

/-- Going up through operators leads to an operator. -/
theorem resurface_spec (h : b.Sound) {id : Nat} {current : Operator} (hlt : id < b.tree.size)
    (hid : (b.tree.token id).operator? = some current) :
    b.resurface id < b.tree.size ∧ b.resurface id ≠ Arena.root := by
  rw [resurface]
  cases hlast : ((b.tree.ancestors id).takeWhile fun above =>
      (b.tree.token above).operator?.any fun op => op.precedence = .term).getLast? with
  | none => exact ⟨hlt, h.ne_root hid⟩
  | some top =>
      have hmem := List.mem_of_getLast? hlast
      have htake := List.all_eq_true.mp List.all_takeWhile top hmem
      refine ⟨h.linked.ancestors_lt (List.takeWhile_subset _ hmem), ?_⟩
      cases htop : (b.tree.token top).operator? with
      | none => simp [htop] at htake
      | some above => exact h.ne_root htop

/-- **An operator is never put around the root**, and what it is put around is in the tree. -/
theorem placement (h : b.Sound) (hplace : b.placement? op = some place) :
    place.left < b.tree.size ∧ place.left ≠ Arena.root := by
  have hchild : ∀ id, b.tree.lastChild? b.cursor = some id →
      id < b.tree.size ∧ id ≠ Arena.root := by
    intro id hlast
    have hid := List.mem_of_getLast? hlast
    exact ⟨h.linked.child_lt hid, h.linked.ne_root ((h.linked.mem_children _ _).mp hid)⟩
  rw [placement?] at hplace
  cases hcurrent : b.current.operator? with
  | none =>
      rw [hcurrent] at hplace
      obtain ⟨id, hfilter, rfl⟩ := Option.map_eq_some_iff.mp hplace
      exact hchild id (Option.filter_eq_some_iff.mp hfilter).1
  | some current =>
      have hcursor := h.ne_root hcurrent
      rw [hcurrent] at hplace
      dsimp only at hplace
      split at hplace
      · next operand _ hlast =>
          obtain rfl := Option.some.inj hplace
          exact hchild _ hlast
      · obtain rfl := Option.some.inj hplace
        exact ⟨h.cursor_lt, hcursor⟩
      · obtain rfl := Option.some.inj hplace
        exact ⟨h.cursor_lt, hcursor⟩
      · obtain rfl := Option.some.inj hplace
        exact h.resurface_spec h.cursor_lt hcurrent

/-! ### Moves -/

theorem attach (h : b.Sound) (token : Token) : (b.attach token).Sound := by
  have hold : Arena.root ≠ b.tree.size := Nat.ne_of_lt h.linked.size_pos
  refine ⟨h.linked.add h.cursor_lt token token.levels, ?_, ?_⟩
  · show b.cursor < (Arena.add b.tree b.cursor token token.levels).size
    rw [Arena.size_add]
    exact Nat.lt_succ_of_lt h.cursor_lt
  · have hroot := h.operator?_root
    rw [Tree.token] at hroot ⊢
    show ((Arena.add b.tree b.cursor token token.levels).value? Arena.root |>.getD
      .empty).operator? = none
    rw [Arena.value?_add h.cursor_lt, if_neg hold]
    exact hroot

theorem openParen (h : b.Sound) : b.openParen.Sound := by
  obtain ⟨hlinked, -, hroot⟩ := h.attach (.group .paren)
  refine ⟨hlinked, ?_, hroot⟩
  show b.tree.size < (Arena.add b.tree b.cursor (.group .paren) _).size
  rw [Arena.size_add]
  exact Nat.lt_succ_self _

theorem insert (h : b.Sound) (hplace : b.placement? op = some place) :
    (b.insert op place).Sound := by
  obtain ⟨hlt, hne⟩ := h.placement hplace
  obtain ⟨parent, hparent⟩ := h.linked.exists_parent _ hlt hne
  have hold : Arena.root ≠ b.tree.size := Nat.ne_of_lt h.linked.size_pos
  refine ⟨h.linked.wrap hparent _, ?_, ?_⟩
  · show b.tree.size < (Arena.wrap b.tree place.left (.operator op)).size
    rw [Arena.size_wrap _ (by rw [hparent]; rfl)]
    exact Nat.lt_succ_self _
  · have hroot := h.operator?_root
    rw [Tree.token] at hroot ⊢
    show ((Arena.wrap b.tree place.left (.operator op)).value? Arena.root |>.getD
      .empty).operator? = none
    rw [Arena.value?_wrap hparent (h.linked.parent_ne hparent)
      (h.linked.parent_lt _ _ hparent), if_neg hold]
    exact hroot

/-- **No move takes a tree under construction out of order.** -/
theorem grows (h : b.Sound) (hgrows : b.Grows c) : c.Sound := by
  induction hgrows with
  | refl => exact h
  | attach _ token ih => exact ih.attach token
  | openParen _ ih => exact ih.openParen
  | close _ hclosing ih => exact ⟨ih.linked, ih.closing_lt hclosing, ih.operator?_root⟩
  | insert _ hplace ih => exact ih.insert hplace

end Sound

end Builder

end Formula
