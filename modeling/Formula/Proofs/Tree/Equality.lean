/-
Equality of grown trees.

Trees are compared node by node, and their numbers as numbers.  The numbers of a grown tree are
finite and have no sign, so that numbers are equal only if they are the same.  Hence grown trees
are equal only if they are the same (`Grown.equals_iff`), and each of them equals itself.
-/
import Formula.Proofs.Number.Interval
import Formula.Proofs.Tree.Grown
import Formula.Token.Equality

namespace Formula

/-- Plain numbers are equal only if they are the same. -/
theorem Binary64.equals_iff {x y : Binary64} (hx : x.IsPlain) (hy : y.IsPlain) :
    x.equals y = true ↔ x = y := by
  rw [equals, hx.isNaN_eq, hy.isNaN_eq]
  simp only [Bool.not_false, Bool.true_and, Bool.or_eq_true, Bool.and_eq_true, beq_iff_eq]
  constructor
  · rintro (hbits | ⟨hzero, hother⟩)
    · obtain ⟨bits⟩ := x
      exact congrArg Binary64.mk hbits
    · exact hx.eq_of_pattern hy (by rw [hzero, hother])
  · rintro rfl
    exact .inl rfl

namespace Token

/-- Lists of nodes are compared value by value. -/
theorem equalNodes_iff {as bs : List (Node Token)}
    (h : ∀ a ∈ as, ∀ b ∈ bs, (a.value.equals b.value = true ↔ a.value = b.value)) :
    equalNodes as bs = true ↔ as = bs := by
  induction as generalizing bs with
  | nil => cases bs <;> simp [equalNodes]
  | cons a as ih =>
      cases bs with
      | nil => simp [equalNodes]
      | cons b bs =>
          have hvalue := h a (by simp) b (by simp)
          have hrest := @ih bs fun c hc d hd => h c (by simp [hc]) d (by simp [hd])
          obtain ⟨a, parentA, childrenA, heightA⟩ := a
          obtain ⟨b, parentB, childrenB, heightB⟩ := b
          simp only at hvalue
          simp only [equalNodes, Bool.and_eq_true, beq_iff_eq, hvalue, hrest, List.cons.injEq,
            Node.mk.injEq, and_assoc]

/-- Lists of trees are compared tree by tree. -/
theorem equalTrees_iff {as bs : List Tree}
    (h : ∀ a ∈ as, ∀ b ∈ bs, (a.equals b = true ↔ a = b)) :
    equalTrees as bs = true ↔ as = bs := by
  induction as generalizing bs with
  | nil => cases bs <;> simp [equalTrees]
  | cons a as ih =>
      cases bs with
      | nil => simp [equalTrees]
      | cons b bs =>
          have htree := h a (by simp) b (by simp)
          have hrest := @ih bs fun c hc d hd => h c (by simp [hc]) d (by simp [hd])
          obtain ⟨⟨nodes⟩⟩ := a
          obtain ⟨⟨others⟩⟩ := b
          rw [equalTrees, Bool.and_eq_true, hrest, List.cons.injEq, ← htree]
          rfl

/-- Tokens are equal only if they are the same, if this is known of the trees inside. -/
theorem equals_iff {σ τ : Token} (hσ : σ.IsPlain) (hτ : τ.IsPlain)
    (h : ∀ a ∈ σ.arguments, ∀ b ∈ τ.arguments, (Tree.equals a b = true ↔ a = b)) :
    σ.equals τ = true ↔ σ = τ := by
  cases σ with
  | call name as =>
      cases τ with
      | call other bs =>
          have hlists : equalTrees as bs = true ↔ as = bs := equalTrees_iff h
          rw [equals, Bool.and_eq_true, beq_iff_eq, hlists, call.injEq]
      | _ => simp [equals]
  | number x =>
      cases τ with
      | number y => rw [equals, Binary64.equals_iff (hσ x rfl) (hτ y rfl), number.injEq]
      | _ => simp [equals]
  | _ => cases τ <;> simp [equals]

end Token

/-- What stands in a node of the array stands in the nested tree. -/
theorem Nested.Formed.mem_preorder_of_mem {n : Nested Token} (h : n.Formed) {node : Node Token}
    (hnode : node ∈ n.arena.nodes.toList) : node.value ∈ n.preorder := by
  obtain ⟨id, hlt, heq⟩ := List.mem_iff_getElem.mp hnode
  have hvalue : n.arena.value? id = some node.value := by
    rw [Arena.value?, ← Array.getElem?_toList, List.getElem?_eq_getElem hlt, heq]
    rfl
  exact h.mem_preorder hvalue

/-- **Grown trees are equal only if they are the same.** -/
theorem Tree.Grown.equals_iff {t u : Tree} (ht : t.Grown) (hu : u.Grown) :
    t.equals u = true ↔ t = u := by
  induction ht generalizing u with
  | @intro n hn hplain _ ih =>
      cases hu with
      | @intro m hm hother harguments =>
          have hnodes : n.arena.nodes.toList = m.arena.nodes.toList ↔ n.arena = m.arena := by
            rw [Array.toList_inj]
            constructor
            · intro heq
              exact congrArg Arena.mk heq
            · intro heq
              rw [heq]
          rw [Tree.equals, Token.equalNodes_iff, hnodes]
          intro a ha b hb
          have hleft := hn.mem_preorder_of_mem ha
          have hright := hm.mem_preorder_of_mem hb
          refine Token.equals_iff (hplain _ hleft) (hother _ hright) fun c hc d hd => ?_
          exact ih _ hleft c hc (harguments _ hright d hd)

end Formula
