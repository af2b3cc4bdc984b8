/-
The order of the nodes of a result.

Nodes are created in the order in which their lexemes are read.  So a visit that takes an
operator between its first child and the others, and any other node before its children, finds
the nodes one after the other as they lie in the array.  No node is left out, and the nested
tree says where each one lies.
-/
import Formula.Proofs.Reading.Growth

namespace Formula

/-! ### Labels keep tokens apart -/

theorem Label.leaf_injective {σ τ : Token} (hσ : ∀ name as, σ ≠ .call name as)
    (hτ : ∀ name as, τ ≠ .call name as) (h : Label.leaf σ = Label.leaf τ) : σ = τ := by
  cases σ with
  | call name as => exact absurd rfl (hσ name as)
  | _ =>
      cases τ with
      | call name as => exact absurd rfl (hτ name as)
      | _ => simp_all [Label.leaf]

/-- Different tokens have different labels, as far as the trees inside them have different nested
forms. -/
theorem Label.separates : Token.Separates Label.leaf Label.ofCall where
  leaf_injective := fun _ _ => leaf_injective
  leaf_ne_call := by
    intro σ name as hσ h
    cases σ with
    | call other bs => exact absurd rfl (hσ other bs)
    | _ => simp [leaf, ofCall] at h
  call_injective := by
    intro name other as bs h
    obtain ⟨hname, harguments⟩ := Label.call.inj h
    exact ⟨hname, harguments⟩

/-- A grown tree is known from its view. -/
theorem Tree.Grown.eq_of_view? {t u : Tree} (ht : t.Grown) (hu : u.Grown)
    (h : t.view? = u.view?) : t = u :=
  ht.eq_of_nested? Label.separates hu h

theorem Tree.Grown.inOrder {t : Tree} (h : t.Grown) :
    t.inOrder t.size Arena.root = List.range t.size := by
  cases h with
  | intro hformed _ _ => exact Nested.inOrder_arena hformed.leading_eq

/-! ### All results -/

variable {limits : Limits} {source : String}

/-- **The array of every tree of a result is in the order of reading.**  Visiting the tree in
that order finds the nodes from the first to the last, and the array is determined by what the
tree shows: a tree of any result that shows the same is the same. -/
theorem nodes_in_order {t : Tree} (ht : (parse limits source).tree.IsPart t) :
    t.inOrder t.size Arena.root = List.range t.size ∧
      ∀ (others : Limits) (text : String) (u : Tree), (parse others text).tree.IsPart u →
        t.view? = u.view? → t = u := by
  have hgrown := (grown_parse limits source).part ht
  refine ⟨hgrown.inOrder, ?_⟩
  intro others text u hu hview
  exact hgrown.eq_of_view? ((grown_parse others text).part hu) hview

/-- In `a+b*(c` the operators are put around what has been read, and the brackets stay open. -/
theorem nodes_in_order_broken :
    ((parse ⟨9, 9, 9⟩ "a+b*(c").failure.isSome ∧ (parse ⟨9, 9, 9⟩ "a+b*(c").tree.size = 8) ∧
    ((parse ⟨9, 9, 9⟩ "a+b*(c").tree.inOrder (parse ⟨9, 9, 9⟩ "a+b*(c").tree.size Arena.root =
        List.range (parse ⟨9, 9, 9⟩ "a+b*(c").tree.size ∧
      ∀ (others : Limits) (text : String) (u : Tree), (parse others text).tree.IsPart u →
        (parse ⟨9, 9, 9⟩ "a+b*(c").tree.view? = u.view? → (parse ⟨9, 9, 9⟩ "a+b*(c").tree = u) :=
  ⟨⟨by decide +kernel, by decide +kernel⟩, nodes_in_order .whole⟩

end Formula
