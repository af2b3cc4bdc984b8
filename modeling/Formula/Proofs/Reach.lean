/-
How far down a tree really reaches.

A tree reaches down to a node by as many levels as there are nodes above it, and a call at that
node reaches one level further than the farthest of its arguments, which are trees of their own
(`Tree.reach`).  The height of a tree is kept step by step and means to be the same.  It is, in
trees that are built by hanging tokens below nodes and by putting other tokens than calls around
them.  A call that is put around a node is not asked for its arguments, here and in the arguments
of other calls alike, and so a tree can reach further down than it is high
(`height_of_builtThroughout`).
-/
import Formula.Proofs.Tree.Built

namespace Formula

/-! ### Levels counted from nothing but links and arguments -/

/-- The greatest number of nodes above a node and of levels that its value brings. -/
def Arena.reach (t : Arena Nat) : Nat :=
  greatest ((List.range t.size).map fun id => (t.ancestors id).length + (t.value? id).getD 0)

/-- The levels that a call brings if its arguments reach down as far as that. -/
def Token.callReach (arguments : List (Arena Nat)) : Nat :=
  greatest (arguments.map fun argument => argument.reach + 1)

/-- The levels below a token: one more than the farthest of the arguments of a call reaches. -/
def Token.reach (token : Token) : Nat :=
  token.fold (fun _ => 0) fun _ arguments => callReach arguments

/-- The levels below the root of a tree, through the arguments of calls. -/
def Tree.reach (tree : Tree) : Nat :=
  Arena.reach (tree.foldTokens (fun _ => 0) fun _ arguments => Token.callReach arguments)

theorem Token.reach_eq (token : Token) :
    token.reach = greatest (token.arguments.map fun argument => Tree.reach argument + 1) := by
  rcases token.call_or_leaf with ⟨name, arguments, rfl⟩ | hleaf
  · rw [reach, fold_call, callReach, List.map_map]
    rfl
  · rw [reach, fold_leaf hleaf]
    cases token with
    | call name arguments => exact absurd rfl (hleaf name arguments)
    | _ => rfl

/-- **The reach of a tree**: of all nodes, the greatest number of nodes above the node and of
levels below its token. -/
theorem Tree.reach_eq (tree : Tree) : Tree.reach tree =
    greatest ((List.range tree.size).map fun id =>
      (tree.ancestors id).length + (tree.token id).reach) := by
  rw [reach, Arena.reach, Arena.size_foldTokens]
  refine congrArg greatest (List.map_congr_left fun id hid => ?_)
  rw [Arena.ancestors_foldTokens, Arena.value?_foldTokens,
    Arena.value?_eq_token (List.mem_range.mp hid)]
  rfl

/-! ### Comparing height and reach -/

theorem greatest_map_le {γ : Type} {xs : List γ} {f g : γ → Nat} (h : ∀ x ∈ xs, f x ≤ g x) :
    greatest (xs.map f) ≤ greatest (xs.map g) := by
  refine greatest_le.mpr fun n hn => ?_
  obtain ⟨x, hx, rfl⟩ := List.mem_map.mp hn
  exact Nat.le_trans (h x hx) (greatest_le.mp (Nat.le_refl _) _ (List.mem_map_of_mem hx))

/-- A tree that was built, and so were the trees of the arguments of all calls in it. -/
inductive Tree.BuiltThroughout : Tree → Prop
  | intro {tree : Tree} (hbuilt : tree.Built)
      (harguments : ∀ id < tree.size, ∀ argument ∈ (tree.token id).arguments,
        BuiltThroughout argument) : BuiltThroughout tree

/-- No call with arguments was put around a node. -/
def Tree.CallsHung (tree : Tree) : Prop :=
  ∀ id < tree.size, tree.IsAround id → (tree.token id).arguments = []

namespace Tree

/-- The argument of a call, and what is inside it, is inside the tree. -/
theorem IsPart.of_argument {tree part argument : Tree} {id : NodeId} (hid : id < tree.size)
    (hmem : argument ∈ (tree.token id).arguments) (hpart : Tree.IsPart argument part) :
    tree.IsPart part := by
  induction hpart with
  | whole =>
      cases htoken : tree.token id with
      | call name arguments =>
          rw [htoken] at hmem
          exact .argument .whole ((Arena.value?_eq_token hid).trans (congrArg some htoken)) hmem
      | _ =>
          rw [htoken] at hmem
          cases hmem
  | argument _ hcall hinner ih => exact .argument ih hcall hinner

theorem CallsHung.of_not_isAround {tree : Tree} (h : ∀ id < tree.size, ¬tree.IsAround id) :
    tree.CallsHung :=
  fun id hid haround => absurd haround (h id hid)

/-- What is inside a tree is the tree or inside the argument of a call. -/
theorem IsPart.eq_or_inside {tree part : Tree} (hpart : tree.IsPart part) : part = tree ∨
    ∃ id < tree.size, ∃ argument ∈ (tree.token id).arguments, Tree.IsPart argument part := by
  induction hpart with
  | whole => exact .inl rfl
  | @argument part argument id name arguments _ hcall hmem ih =>
      have hid : id < part.size := by
        obtain ⟨n, hn, -⟩ := Option.map_eq_some_iff.mp hcall
        exact (Array.getElem?_eq_some_iff.mp hn).1
      have htoken : part.token id = .call name arguments := by rw [Tree.token, hcall]; rfl
      rcases ih with rfl | ⟨other, hother, outer, houter, hinside⟩
      · exact .inr ⟨id, hid, argument, by rw [htoken]; exact hmem, .whole⟩
      · exact .inr ⟨other, hother, outer, houter, .argument hinside hcall hmem⟩

namespace BuiltThroughout

variable {tree : Tree}

theorem built (h : tree.BuiltThroughout) : tree.Built := by
  cases h with
  | intro hbuilt _ => exact hbuilt

theorem arguments (h : tree.BuiltThroughout) : ∀ id < tree.size,
    ∀ argument ∈ (tree.token id).arguments, argument.BuiltThroughout := by
  cases h with
  | intro _ harguments => exact harguments

/-! ### Building with calls whose arguments are built the same way -/

section

variable (token : Token) (htoken : ∀ argument ∈ token.arguments, argument.BuiltThroughout)
include htoken

theorem ofToken : (Tree.ofToken token).BuiltThroughout := by
  refine .intro (.ofToken token) fun id hid => ?_
  obtain rfl : id = 0 := Nat.lt_one_iff.mp hid
  exact htoken

theorem add (h : tree.BuiltThroughout) {parent : NodeId} (hparent : parent < tree.size) :
    (tree.add parent token).BuiltThroughout := by
  refine .intro (.add h.built hparent token) fun id hid => ?_
  rw [token_add token hparent]
  split
  · exact htoken
  · next hold =>
      rw [Tree.add, Arena.size_add] at hid
      exact h.arguments id (Nat.lt_of_le_of_ne (Nat.le_of_lt_succ hid) hold)

theorem wrap (h : tree.BuiltThroughout) {node : NodeId} (hnode : node < tree.size)
    (hroot : node ≠ Arena.root) : (tree.wrap node token).BuiltThroughout := by
  obtain ⟨parent, hparent⟩ := h.built.linked.exists_parent node hnode hroot
  refine .intro (.wrap h.built hnode hroot token) fun id hid => ?_
  rw [token_wrap token h.built.linked hparent]
  split
  · exact htoken
  · next hold =>
      rw [Tree.wrap, Arena.size_wrap_of_parent? hparent] at hid
      exact h.arguments id (Nat.lt_of_le_of_ne (Nat.le_of_lt_succ hid) hold)

end

/-! ### Height and reach -/

/-- A tree reaches at least as far down as it is high. -/
theorem height_le_reach (h : tree.BuiltThroughout) :
    tree.height ≤ Tree.reach tree := by
  induction h with
  | @intro tree hbuilt _ ih =>
      rw [hbuilt.height_eq, Tree.reach_eq]
      refine greatest_map_le fun id hid => Nat.add_le_add_left ?_ _
      rw [keptLevels]
      split
      · exact Nat.zero_le _
      · rw [Token.levels_eq, Token.reach_eq]
        exact greatest_map_le fun argument hargument =>
          Nat.succ_le_succ (ih id (List.mem_range.mp hid) argument hargument)

/-- **Without calls around nodes the height is the reach.** -/
theorem height_eq_reach (h : tree.BuiltThroughout)
    (hhung : ∀ part, tree.IsPart part → part.CallsHung) : tree.height = Tree.reach tree := by
  induction h with
  | @intro tree hbuilt _ ih =>
      rw [hbuilt.height_eq, Tree.reach_eq]
      refine congrArg greatest (List.map_congr_left fun id hid => congrArg (tree.depth id + ·) ?_)
      have hid := List.mem_range.mp hid
      rw [keptLevels, Token.reach_eq]
      split
      · next haround =>
          rw [hhung tree .whole id hid haround]
          rfl
      · rw [Token.levels_eq]
        refine congrArg greatest (List.map_congr_left fun argument hargument => ?_)
        rw [ih id hid argument hargument fun part hpart =>
          hhung part (.of_argument hid hargument hpart)]

end BuiltThroughout

/-- **The height of a tree that was built throughout**: the greatest number of nodes above a node
and of levels that its token brings, but a token that was put around a node counts for none.  So a
tree is at most as high as it reaches down, and if no call with arguments was put around a node, in
the tree itself or in an argument, it is as high. -/
theorem height_of_builtThroughout {tree : Tree} (h : tree.BuiltThroughout) :
    tree.height = greatest ((List.range tree.size).map fun id =>
      (tree.ancestors id).length + if tree.IsAround id then 0 else (tree.token id).levels) ∧
    tree.height ≤ Tree.reach tree ∧
    ((∀ part, tree.IsPart part → part.CallsHung) → tree.height = Tree.reach tree) :=
  ⟨h.built.height_eq, h.height_le_reach, h.height_eq_reach⟩

/-- The tree of a name, as it stands in an argument. -/
def nameArgument : Tree := (Tree.ofToken (.group .scope)).add 0 (.identifier "x")

/-- A call with one argument, hung below the root. -/
def hungCall : Tree := (Tree.ofToken .empty).add 0 (.call "f" [nameArgument])

/-- The same call, put around another name. -/
def wrappedCall : Tree :=
  ((Tree.ofToken .empty).add 0 (.identifier "y")).wrap 1 (.call "f" [nameArgument])

theorem builtThroughout_nameArgument : nameArgument.BuiltThroughout := by
  have hnone : ∀ argument ∈ ([] : List Tree), argument.BuiltThroughout := by simp
  exact .add (.identifier "x") hnone (.ofToken (.group .scope) hnone) (by decide)

theorem builtThroughout_call (name : String) :
    ∀ argument ∈ (Token.call name [nameArgument]).arguments, argument.BuiltThroughout := by
  intro argument hmem
  rw [List.mem_singleton.mp hmem]
  exact builtThroughout_nameArgument

theorem builtThroughout_wrappedCall : wrappedCall.BuiltThroughout := by
  have hnone : ∀ argument ∈ ([] : List Tree), argument.BuiltThroughout := by simp
  have hname : ((Tree.ofToken .empty).add 0 (.identifier "y")).BuiltThroughout :=
    .add (.identifier "y") hnone (.ofToken .empty hnone) (by decide)
  exact .wrap (.call "f" [nameArgument]) (builtThroughout_call "f") hname (by decide) (by decide)

/-- Where the call hangs below the root, the tree is as high as it reaches down. -/
theorem height_of_builtThroughout_hungCall : hungCall.BuiltThroughout ∧
    (∀ part, hungCall.IsPart part → part.CallsHung) ∧ hungCall.height = Tree.reach hungCall := by
  have hnone : ∀ argument ∈ ([] : List Tree), argument.BuiltThroughout := by simp
  have hbuilt : hungCall.BuiltThroughout :=
    .add (.call "f" [nameArgument]) (builtThroughout_call "f") (.ofToken .empty hnone) (by decide)
  have hhung : ∀ part, hungCall.IsPart part → part.CallsHung := by
    intro part hpart
    rcases hpart.eq_or_inside with rfl | ⟨id, hid, argument, hmem, hinside⟩
    · exact .of_not_isAround (by decide)
    · obtain rfl : argument = nameArgument := by
        match id, hid with
        | 0, _ => cases hmem
        | 1, _ => exact List.mem_singleton.mp hmem
      rcases hinside.eq_or_inside with rfl | ⟨id, hid, argument, hmem, -⟩
      · exact .of_not_isAround (by decide)
      · match id, hid with
        | 0, _ => cases hmem
        | 1, _ => cases hmem
  exact ⟨hbuilt, hhung, (height_of_builtThroughout hbuilt).2.2 hhung⟩

/-- **A call around a node can reach further down than the tree is high**: the name in its argument
is one level further down than the name that it was put around. -/
theorem height_lt_reach :
    wrappedCall.BuiltThroughout ∧ wrappedCall.height = 2 ∧ Tree.reach wrappedCall = 3 :=
  ⟨builtThroughout_wrappedCall, by decide +kernel, by decide +kernel⟩

end Tree

end Formula
