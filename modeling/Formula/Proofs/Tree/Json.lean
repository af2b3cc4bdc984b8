/-
Grown trees are known from their JSON.

The JSON of a tree is nested: it has no positions in the array, no parents and no heights, and
the trees inside a call are part of its token.  Still different tokens have different JSON, as
far as the trees inside them do, so that a grown tree can be told from its JSON
(`Grown.eq_of_json`).
-/
import Formula.Proofs.Json.Text
import Formula.Proofs.Tree.Levels

namespace Formula

/-! ### Nested trees -/

/-- What can be told from the parts of lists can be told from the lists. -/
theorem map_eq_of_map_eq {α β γ : Type} {f : α → β} {g : α → γ} {xs ys : List α}
    (hfg : ∀ x y, f x = f y → g x = g y) (h : xs.map f = ys.map f) : xs.map g = ys.map g := by
  induction xs generalizing ys with
  | nil =>
      cases ys with
      | nil => rfl
      | cons y ys => cases h
  | cons x xs ih =>
      cases ys with
      | nil => cases h
      | cons y ys =>
          rw [List.map_cons, List.map_cons] at h ⊢
          obtain ⟨hxy, hrest⟩ := List.cons.inj h
          rw [hfg x y hxy, ih hrest]

theorem Nested.json_injective {n m : Nested Json} (h : n.json = m.json) : n = m := by
  induction n using induct generalizing m with
  | step n ih =>
      rw [json_eq, json_eq] at h
      simp only [Json.object.injEq, Json.array.injEq, List.cons.injEq, Prod.mk.injEq, true_and,
        and_true] at h
      obtain ⟨hvalue, hchildren⟩ := h
      have hlists : n.children = m.children :=
        eq_of_map_eq (fun c hc d _ hcd => ih c hc hcd) hchildren
      rw [← n.node_value_children, ← m.node_value_children, hvalue, hlists]

/-- The JSON of a tree of values tells the nested tree. -/
theorem Arena.nested?_eq_of_json {a b : Arena Json} (h : a.json = b.json) :
    a.nested? = b.nested? := by
  have hobject : ∀ n : Nested Json, n.json ≠ .null := by
    intro n heq
    rw [Nested.json_eq] at heq
    cases heq
  rw [json, json] at h
  cases ha : a.nested? with
  | none =>
      cases hb : b.nested? with
      | none => rfl
      | some m =>
          rw [ha, hb] at h
          exact absurd h.symm (hobject m)
  | some n =>
      cases hb : b.nested? with
      | none =>
          rw [ha, hb] at h
          exact absurd h (hobject n)
      | some m =>
          rw [ha, hb] at h
          rw [Nested.json_injective h]

/-! ### Tokens -/

theorem Operator.text_injective : ∀ op other : Operator, op.text = other.text → op = other := by
  intro op other h
  have hsymbol : op.symbol = other.symbol := (List.cons.inj (String.ofList_inj.mp h)).1
  have hread := ofSymbol?_symbol op
  rw [hsymbol, ofSymbol?_symbol] at hread
  exact (Option.some.inj hread).symm

theorem Bracket.name_injective {b c : Bracket} (h : b.name = c.name) : b = c := by
  cases b <;> cases c <;> first | rfl | simp [name] at h

namespace Token

theorem leafJson_injective {σ τ : Token} (hσ : ∀ name as, σ ≠ .call name as)
    (hτ : ∀ name as, τ ≠ .call name as) (h : leafJson σ = leafJson τ) : σ = τ := by
  cases σ with
  | call name as => exact absurd rfl (hσ name as)
  | operator op =>
      cases τ with
      | call name as => exact absurd rfl (hτ name as)
      | operator other =>
          have htext : op.text = other.text := by simpa [leafJson, tagged] using h
          rw [Operator.text_injective op other htext]
      | _ => simp [leafJson, tagged] at h
  | group bracket =>
      cases τ with
      | call name as => exact absurd rfl (hτ name as)
      | group other =>
          have hname : bracket.name = other.name := by simpa [leafJson, tagged] using h
          rw [Bracket.name_injective hname]
      | _ => simp [leafJson, tagged] at h
  | _ =>
      cases τ with
      | call name as => exact absurd rfl (hτ name as)
      | _ => simp_all [leafJson, tagged]

theorem leafJson_ne_callJson {σ : Token} (hσ : ∀ name as, σ ≠ .call name as) (name : String)
    (as : List (Arena Json)) : leafJson σ ≠ callJson name as := by
  intro h
  cases σ with
  | call other bs => exact absurd rfl (hσ other bs)
  | _ => simp [leafJson, callJson, tagged] at h

/-- **Different tokens have different JSON**, as far as the trees inside them do. -/
theorem json_separates : Separates leafJson callJson where
  leaf_injective := fun _ _ => leafJson_injective
  leaf_ne_call := fun _ name as hσ => leafJson_ne_callJson hσ name as
  call_injective := by
    intro name other as bs h
    simp only [callJson, tagged, Json.object.injEq, Json.array.injEq, Json.string.injEq,
      List.cons.injEq, Prod.mk.injEq, true_and, and_true] at h
    obtain ⟨hname, hlists⟩ := h
    exact ⟨hname, map_eq_of_map_eq (fun _ _ => Arena.nested?_eq_of_json) hlists⟩

end Token

/-- **The JSON of a grown tree tells the tree.** -/
theorem Tree.Grown.eq_of_json {t u : Tree} (ht : t.Grown) (hu : u.Grown) (h : t.json = u.json) :
    t = u :=
  ht.eq_of_nested? Token.json_separates hu (Arena.nested?_eq_of_json h)

/-! ### The numbers of a tree -/

theorem Nested.isPlain_json {f : Token → Json} {n : Nested Token}
    (hf : ∀ token ∈ n.preorder, (f token).IsPlain) : (n.map f).json.IsPlain := by
  induction n using induct with
  | step n ih =>
      have htop := hf n.value (mem_preorder.mpr ⟨n, n.self_mem_subtrees, rfl⟩)
      have hchildren : ∀ c ∈ n.children, (c.map f).json.IsPlain := fun c hc =>
        ih c hc fun token htoken => hf token (mem_preorder_of_mem_children hc htoken)
      rw [json_eq, value_map, children_map]
      simpa using ⟨htop, hchildren⟩

theorem Token.isPlain_json {token : Token} (hplain : token.IsPlain)
    (h : ∀ a ∈ token.arguments, (Tree.json a).IsPlain) : token.json.IsPlain := by
  have htagged : ∀ kind value, value.IsPlain → (tagged kind value).IsPlain := by
    intro kind value hvalue
    simpa [tagged] using hvalue
  rcases token.call_or_leaf with ⟨name, as, rfl⟩ | hleaf
  · have harguments : ∀ a ∈ as, (Tree.json a).IsPlain := h
    rw [json_call]
    refine htagged _ _ ?_
    simpa using harguments
  · rw [json, fold_leaf hleaf]
    cases token with
    | call name as => exact absurd rfl (hleaf name as)
    | number x => exact htagged _ _ (Json.isPlain_number.mpr (hplain x rfl))
    | empty => simp [leafJson]
    | error | identifier | operator | group | text =>
        exact htagged _ _ (Json.isPlain_string _)

/-- **All numbers in the JSON of a grown tree are plain.** -/
theorem Tree.Grown.isPlain_json {t : Tree} (h : t.Grown) : t.json.IsPlain := by
  induction h with
  | @intro n hformed hplain _ ih =>
      rw [Tree.json_eq hformed]
      refine Nested.isPlain_json fun token htoken => ?_
      exact Token.isPlain_json (hplain token htoken) (ih token htoken)

end Formula
