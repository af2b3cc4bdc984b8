/-
What the trees of formulas look like.

The trees that come out of reading, complete or broken off, and the trees of the arguments
inside them all have the same build.  `Tree.Grown` says what it is: the array is the layout of
a nested tree (`Nested.arena`), every node has the children that its token calls for
(`Token.Fits`), numbers are finite and without a sign, and the arguments of calls are such
trees again.

Two things follow once and for all.  The argument of a call inside a grown tree is grown
(`Grown.part`), and a grown tree is known from any way of folding it that keeps different
tokens apart (`Grown.eq_of_nested?`).
-/
import Formula.Proofs.Arena.Faithful
import Formula.Proofs.Number.Literal
import Formula.Proofs.Grammar.Expr

namespace Formula

/-! ### The nodes below a node -/

namespace Token

/-- The trees inside a token. -/
def arguments : Token → List Tree
  | call _ arguments => arguments
  | _ => []

/-- How many children a node with the token can have.  An empty formula has none. -/
def arity : Token → Nat
  | operator _ => 2
  | empty | group _ => 1
  | _ => 0

/-- A node with the token has all its children, which hold `below`. -/
structure IsFilled (token : Token) (below : List Token) : Prop where
  length_le : below.length ≤ token.arity
  length_eq : token ≠ .empty → below.length = token.arity
  operands : ∀ operand ∈ below, operand.isOperand = true

/-- A node with the token is where reading failed: it has some of its children, an operator at
least the first, and then the mark of the failure. -/
structure IsBroken (token : Token) (below front : List Token) (message : String) : Prop where
  mark : below = front ++ [.error message]
  length_le : front.length ≤ token.arity
  arity_pos : 0 < token.arity
  left : ∀ op, token = .operator op → front ≠ []
  operands : ∀ operand ∈ front, operand.isOperand = true

/-- What a node with the token may have below it: its children, or some of them and the mark of
a failure.  An operator binds at most as tightly as the operator below it on the left, and
less tightly than the one on the right. -/
structure Fits (token : Token) (below : List Token) : Prop where
  complete : token.IsFilled below ∨ ∃ front message, token.IsBroken below front message
  left : ∀ op inner, token = .operator op → below[0]? = some (.operator inner) →
    op.level ≤ inner.level
  right : ∀ op inner, token = .operator op → below[1]? = some (.operator inner) →
    op.level < inner.level

/-- A number in the token is finite and has no sign. -/
def IsPlain (token : Token) : Prop :=
  ∀ x, token = .number x → x.IsPlain

end Token

/-- A nested tree of tokens has the build of an expression below its root. -/
structure Nested.Formed (n : Nested Token) : Prop where
  root : n.value = .empty ∨ n.value = .group .scope
  nodes : ∀ s ∈ n.subtrees, s.value.Fits (s.children.map Nested.value)

theorem Nested.Formed.leading_eq {n : Nested Token} (h : n.Formed) : n.value.leading = 0 := by
  rcases h.root with hroot | hroot <;> rw [hroot] <;> rfl

/-- A tree that reading a formula can leave behind. -/
inductive Tree.Grown : Tree → Prop
  | intro {n : Nested Token} (hformed : n.Formed)
      (hplain : ∀ token ∈ n.preorder, token.IsPlain)
      (harguments : ∀ token ∈ n.preorder, ∀ argument ∈ token.arguments, Tree.Grown argument) :
      Tree.Grown n.arena

/-! ### The trees inside a tree -/

/-- The tree itself, and the trees of the arguments of calls in it at any depth. -/
inductive Tree.IsPart (whole : Tree) : Tree → Prop
  | whole : IsPart whole whole
  | argument {t argument : Tree} {id : NodeId} {name : String} {arguments : List Tree}
      (ht : IsPart whole t) (hid : t.value? id = some (.call name arguments))
      (hmem : argument ∈ arguments) : IsPart whole argument

/-- What is read back at a node has the token of that node on top. -/
theorem Arena.value?_of_nestedAt? {α : Type} {t : Arena α} {fuel : Nat} {id : NodeId}
    {n : Nested α} (h : t.nestedAt? fuel id = some n) : t.value? id = some n.value := by
  cases fuel with
  | zero => cases h
  | succ fuel =>
      rw [nestedAt?] at h
      rw [value?]
      cases hnode : t.nodes[id]? with
      | none => rw [hnode] at h; cases h
      | some node =>
          rw [hnode] at h
          obtain ⟨ns, -, rfl⟩ := Option.map_eq_some_iff.mp h
          rfl

/-- What is read back below a node are the trees below its children. -/
theorem Arena.children_of_nestedAt? {α : Type} {t : Arena α} {fuel : Nat} {id : NodeId}
    {n : Nested α} (h : t.nestedAt? (fuel + 1) id = some n) :
    (t.children id).mapM (t.nestedAt? fuel) = some n.children := by
  rw [nestedAt?] at h
  rw [children]
  cases hnode : t.nodes[id]? with
  | none => rw [hnode] at h; cases h
  | some node =>
      rw [hnode] at h
      obtain ⟨ns, hns, rfl⟩ := Option.map_eq_some_iff.mp h
      exact hns

theorem map_eq_of_mapM {α β γ : Type} {f : α → Option β} {g : α → γ} {k : β → γ} {xs : List α}
    {ys : List β} (hfg : ∀ x y, f x = some y → g x = k y) (h : xs.mapM f = some ys) :
    xs.map g = ys.map k := by
  induction xs generalizing ys with
  | nil =>
      obtain rfl : ys = [] := by simpa using h.symm
      rfl
  | cons x xs ih =>
      simp only [List.mapM_cons, Option.bind_eq_bind, Option.bind_eq_some_iff, Option.pure_def,
        Option.some.injEq] at h
      obtain ⟨y, hy, zs, hzs, rfl⟩ := h
      rw [List.map_cons, List.map_cons, hfg x y hy, ih hzs]

namespace Tree.Shows

variable {t : Tree} {id : NodeId} {s : Nested Token}

theorem value? (h : t.Shows id s) : Arena.value? t id = some s.value :=
  Arena.value?_of_nestedAt? (h.nestedAt? s.size (Nat.le_refl _))

theorem token (h : t.Shows id s) : t.token id = s.value := by
  rw [Tree.token, h.value?]
  rfl

/-- The tokens of the children. -/
theorem children (h : t.Shows id s) :
    (t.children id).map t.token = s.children.map Nested.value := by
  have hread := h.nestedAt? (s.size - 1 + 1) (by omega)
  refine map_eq_of_mapM (fun c n hn => ?_) (Arena.children_of_nestedAt? hread)
  rw [Tree.token, Arena.value?_of_nestedAt? hn]
  rfl

end Tree.Shows

/-- Every node of the array shows one of the subtrees. -/
theorem Nested.Formed.exists_shows {n : Nested Token} (h : n.Formed) {id : NodeId}
    (hid : id < n.arena.size) : ∃ s ∈ n.subtrees, n.arena.Shows id s := by
  by_cases hroot : id = Arena.root
  · subst hroot
    exact ⟨n, n.self_mem_subtrees, Nested.shows_root h.leading_eq⟩
  · obtain ⟨s, hs, hshows⟩ := Nested.shows_below h.leading_eq hid hroot
    exact ⟨s, Nested.mem_subtrees.mpr (.inr (Nested.mem_allSubtrees.mp hs)), hshows⟩

/-- What stands at a node of the array stands in the nested tree. -/
theorem Nested.Formed.mem_preorder {n : Nested Token} (h : n.Formed) {id : NodeId} {token : Token}
    (hid : n.arena.value? id = some token) : token ∈ n.preorder := by
  have hlt : id < n.arena.size := by
    rw [Arena.value?] at hid
    obtain ⟨node, hnode, -⟩ := Option.map_eq_some_iff.mp hid
    obtain ⟨hlt, -⟩ := Array.getElem?_eq_some_iff.mp hnode
    exact hlt
  obtain ⟨s, hs, hshows⟩ := h.exists_shows hlt
  have hvalue := hshows.value?
  rw [hid] at hvalue
  exact Nested.mem_preorder.mpr ⟨s, hs, (Option.some.inj hvalue).symm⟩

/-- What is below a tree is directly below one of its subtrees. -/
theorem Nested.exists_above {α : Type} {n s : Nested α} (h : s ∈ allSubtrees n.children) :
    ∃ above ∈ n.subtrees, s ∈ above.children := by
  induction n using induct with
  | step n ih =>
      obtain ⟨c, hc, hs⟩ := mem_allSubtrees.mp h
      rcases mem_subtrees.mp hs with rfl | hs
      · exact ⟨n, n.self_mem_subtrees, hc⟩
      · obtain ⟨above, habove, hmem⟩ := ih c hc (mem_allSubtrees.mpr hs)
        exact ⟨above, mem_subtrees.mpr (.inr ⟨c, hc, habove⟩), hmem⟩

theorem Token.Fits.ne_root {token below : Token} {others : List Token} (h : token.Fits others)
    (hbelow : below ∈ others) : below ≠ .empty ∧ below ≠ .group .scope := by
  have hoperand : below.isOperand = true → below ≠ .empty ∧ below ≠ .group .scope := by
    intro hoperand
    constructor <;> rintro rfl <;> cases hoperand
  rcases h.complete with hfilled | ⟨front, message, hbroken⟩
  · exact hoperand (hfilled.operands below hbelow)
  · rw [hbroken.mark] at hbelow
    rcases List.mem_append.mp hbelow with hmem | hmem
    · exact hoperand (hbroken.operands below hmem)
    · rw [List.mem_singleton.mp hmem]
      exact ⟨by simp, by simp⟩

/-- **Every node of a grown tree** has the children that its token calls for, and only the root
has the token of a root. -/
theorem Tree.Grown.node {t : Tree} (h : t.Grown) {id : NodeId} (hid : id < t.size) :
    ∃ s, t.Shows id s ∧ s.value.Fits (s.children.map Nested.value) ∧
      (id = Arena.root ↔ s.value = .empty ∨ s.value = .group .scope) := by
  cases h with
  | @intro n hformed _ _ =>
      by_cases hroot : id = Arena.root
      · subst hroot
        exact ⟨n, Nested.shows_root hformed.leading_eq, hformed.nodes n n.self_mem_subtrees,
          fun _ => hformed.root, fun _ => rfl⟩
      · obtain ⟨s, hs, hshows⟩ := Nested.shows_below hformed.leading_eq hid hroot
        obtain ⟨above, habove, hmem⟩ := Nested.exists_above hs
        obtain ⟨hempty, hscope⟩ :=
          (hformed.nodes above habove).ne_root (List.mem_map_of_mem hmem)
        refine ⟨s, hshows, hformed.nodes s ?_, fun heq => absurd heq hroot, ?_⟩
        · exact Nested.mem_subtrees.mpr (.inr (Nested.mem_allSubtrees.mp hs))
        · rintro (heq | heq)
          · exact absurd heq hempty
          · exact absurd heq hscope

/-- **The trees inside a grown tree are grown.** -/
theorem Tree.Grown.part {whole t : Tree} (h : whole.Grown) (ht : whole.IsPart t) : t.Grown := by
  induction ht with
  | whole => exact h
  | @argument t argument id name arguments _ hid hmem ih =>
      cases ih with
      | intro hformed _ harguments =>
          exact harguments _ (hformed.mem_preorder hid) argument hmem

/-- The numbers in a grown tree are plain. -/
theorem Tree.Grown.isPlain_number {t : Tree} (h : t.Grown) {id : NodeId} {x : Binary64}
    (hid : t.value? id = some (.number x)) : x.IsPlain := by
  cases h with
  | intro hformed hplain _ => exact hplain _ (hformed.mem_preorder hid) x rfl

/-! ### What a grown tree is known from -/

/-- Lists are equal if they are after a change that keeps their elements apart. -/
theorem eq_of_map_eq {α β : Type} {f : α → β} {xs ys : List α}
    (hf : ∀ x ∈ xs, ∀ y ∈ ys, f x = f y → x = y) (h : xs.map f = ys.map f) : xs = ys := by
  induction xs generalizing ys with
  | nil => simpa using h.symm
  | cons x xs ih =>
      cases ys with
      | nil => simp at h
      | cons y ys =>
          rw [List.map_cons, List.map_cons] at h
          obtain ⟨hxy, hrest⟩ := List.cons.inj h
          rw [hf x (by simp) y (by simp) hxy,
            ih (fun a ha b hb => hf a (by simp [ha]) b (by simp [hb])) hrest]

namespace Nested

variable {α β : Type}

theorem mem_preorder_of_mem_children {c n : Nested α} {v : α} (hc : c ∈ n.children)
    (hv : v ∈ c.preorder) : v ∈ n.preorder := by
  rw [mem_preorder] at hv ⊢
  obtain ⟨s, hs, hvalue⟩ := hv
  exact ⟨s, mem_subtrees.mpr (.inr ⟨c, hc, hs⟩), hvalue⟩

/-- Trees are equal if they are after a change that keeps their values apart. -/
theorem eq_of_map {f : α → β} {n m : Nested α}
    (hf : ∀ v ∈ n.preorder, ∀ w ∈ m.preorder, f v = f w → v = w) (h : n.map f = m.map f) :
    n = m := by
  induction n using induct generalizing m with
  | step n ih =>
      have hvalue : f n.value = f m.value := by rw [← value_map f n, ← value_map f m, h]
      have hchildren : n.children.map (map f) = m.children.map (map f) := by
        rw [← children_map f n, ← children_map f m, h]
      have hself : ∀ k : Nested α, k.value ∈ k.preorder :=
        fun k => mem_preorder.mpr ⟨k, k.self_mem_subtrees, rfl⟩
      have hvalues := hf _ (hself n) _ (hself m) hvalue
      have hlists : n.children = m.children := by
        refine eq_of_map_eq (fun c hc d hd hcd => ih c hc (fun v hv w hw => ?_) hcd) hchildren
        exact hf v (mem_preorder_of_mem_children hc hv) w (mem_preorder_of_mem_children hd hw)
      rw [← n.node_value_children, ← m.node_value_children, hvalues, hlists]

end Nested

/-- Folding keeps different tokens apart: those that are no calls, calls of different names, and
calls whose arguments are not the same nested trees. -/
structure Token.Separates {β : Type} (leaf : Token → β) (call : String → List (Arena β) → β) :
    Prop where
  leaf_injective : ∀ σ τ : Token, (∀ name as, σ ≠ .call name as) → (∀ name as, τ ≠ .call name as) →
    leaf σ = leaf τ → σ = τ
  leaf_ne_call : ∀ (σ : Token) name as, (∀ name as, σ ≠ .call name as) → leaf σ ≠ call name as
  call_injective : ∀ name other as bs, call name as = call other bs →
    name = other ∧ as.map Arena.nested? = bs.map Arena.nested?

namespace Token

variable {β : Type} {leaf : Token → β} {call : String → List (Arena β) → β}

theorem fold_leaf {σ : Token} (h : ∀ name as, σ ≠ .call name as) : σ.fold leaf call = leaf σ := by
  cases σ with
  | call name as => exact absurd rfl (h name as)
  | _ =>
      rw [fold]
      simp

theorem call_or_leaf (σ : Token) :
    (∃ name as, σ = .call name as) ∨ ∀ name as, σ ≠ .call name as := by
  cases σ <;> simp

/-- Tokens that are folded into the same are equal, if this is known of the trees inside. -/
theorem eq_of_fold (hsep : Separates leaf call) {σ τ : Token}
    (harguments : ∀ t ∈ σ.arguments, ∀ u ∈ τ.arguments,
      (t.foldTokens leaf call).nested? = (u.foldTokens leaf call).nested? → t = u)
    (h : σ.fold leaf call = τ.fold leaf call) : σ = τ := by
  rcases σ.call_or_leaf with ⟨name, as, rfl⟩ | hσ
  · rcases τ.call_or_leaf with ⟨other, bs, rfl⟩ | hτ
    · rw [fold_call, fold_call] at h
      obtain ⟨rfl, hlists⟩ := hsep.call_injective _ _ _ _ h
      rw [List.map_map, List.map_map] at hlists
      have hsame : as = bs := eq_of_map_eq harguments hlists
      rw [hsame]
    · rw [fold_call, fold_leaf hτ] at h
      exact absurd h.symm (hsep.leaf_ne_call _ _ _ hτ)
  · rcases τ.call_or_leaf with ⟨other, bs, rfl⟩ | hτ
    · rw [fold_call, fold_leaf hσ] at h
      exact absurd h (hsep.leaf_ne_call _ _ _ hσ)
    · rw [fold_leaf hσ, fold_leaf hτ] at h
      exact hsep.leaf_injective _ _ hσ hτ h

end Token

/-- **A grown tree is known from its nested form**, however its tokens are folded as long as
different ones are kept apart: the array follows from it, and so do the trees inside. -/
theorem Tree.Grown.eq_of_nested? {β : Type} {leaf : Token → β} {call : String → List (Arena β) → β}
    (hsep : Token.Separates leaf call) {t u : Tree} (ht : t.Grown) (hu : u.Grown)
    (h : (t.foldTokens leaf call).nested? = (u.foldTokens leaf call).nested?) : t = u := by
  induction ht generalizing u with
  | @intro n hn _ _ ih =>
      cases hu with
      | @intro m hm _ harguments =>
          rw [Nested.nested?_foldTokens_arena leaf call hn.leading_eq,
            Nested.nested?_foldTokens_arena leaf call hm.leading_eq] at h
          refine congrArg Nested.arena (Nested.eq_of_map ?_ (Option.some.inj h))
          intro σ hσ τ hτ hfold
          refine Token.eq_of_fold hsep ?_ hfold
          intro a ha b hb hab
          exact ih σ hσ a ha (harguments τ hτ b hb) hab

end Formula
