/-
The same tree with another message at its marks of failures.

`Tree.withMessage` replaces the messages of all marks, those in the arguments of calls included,
and keeps every other token, every link and every height.  A token without marks stays as it is,
so in the tree of a draft only the mark that has been hung below the cursor changes.
-/
import Formula.Proofs.Arena.Layout
import Formula.Proofs.Grammar.Pieces

namespace Formula

/-- A token other than a call, with the message `message` if it is the mark of a failure. -/
def Token.leafWithMessage (message : String) : Token → Token
  | .error _ => .error message
  | token => token

/-- The token with the message `message` at all marks of failures, those in the arguments of a
call included. -/
def Token.withMessage (message : String) (token : Token) : Token :=
  token.fold (leafWithMessage message) .call

/-- The tree with the message `message` at all marks of failures, those in the arguments of
calls included. -/
def Tree.withMessage (message : String) (tree : Tree) : Tree :=
  tree.foldTokens (Token.leafWithMessage message) .call

/-- Another message leaves the height as it is. -/
theorem Tree.height_withMessage (message : String) (tree : Tree) :
    (tree.withMessage message).height = tree.height := by
  rw [withMessage, Arena.height, Arena.heightAt, Arena.getElem?_foldTokens, Arena.height,
    Arena.heightAt]
  cases tree.nodes[Arena.root]? <;> rfl

namespace Token

variable (message : String)

theorem withMessage_call (name : String) (arguments : List Tree) :
    (call name arguments).withMessage message =
      .call name (arguments.map (Tree.withMessage message)) :=
  fold_call _ _ name arguments

/-- A call reaches as far down with another message in its arguments. -/
theorem levels_withMessage_call (name : String) (arguments : List Tree) :
    ((call name arguments).withMessage message).levels = (call name arguments).levels := by
  rw [withMessage_call, levels, levels, List.map_map]
  refine congrArg (fun heights : List Nat => heights.foldl max 0) (List.map_congr_left ?_)
  intro argument _
  rw [Function.comp_apply, Tree.height_withMessage]

/-! ### Tokens without marks -/

mutual

/-- Without marks there is nothing to replace. -/
theorem withMessage_eq_self : (token : Token) → token.marks = [] →
    token.withMessage message = token
  | .call name arguments, h => by
    rw [marks_call] at h
    rw [withMessage_call, trees_withMessage_eq_self arguments h]
  | .error _, h => by cases h
  | .empty, _ | .number _, _ | .identifier _, _ | .operator _, _ | .group _, _ | .text _, _ => rfl

theorem trees_withMessage_eq_self : (trees : List Tree) → trees.flatMap Tree.marks = [] →
    trees.map (Tree.withMessage message) = trees
  | [], _ => rfl
  | ⟨⟨nodes⟩⟩ :: trees, h => by
    obtain ⟨hfirst, hrest⟩ := List.append_eq_nil_iff.mp h
    have hnodes := nodes_withMessage_eq_self nodes hfirst
    have htree : Tree.withMessage message ⟨⟨nodes⟩⟩ = ⟨⟨nodes⟩⟩ := by
      refine congrArg Arena.mk (Array.ext' ?_)
      exact (Arena.nodes_foldTokens _ _ _).trans hnodes
    rw [List.map_cons, trees_withMessage_eq_self trees hrest, htree]

theorem nodes_withMessage_eq_self : (nodes : List (Node Token)) →
    nodes.flatMap (·.value.marks) = [] →
    (nodes.map fun n =>
      (⟨n.value.withMessage message, n.parent, n.children, n.height⟩ : Node Token)) = nodes
  | [], _ => rfl
  | ⟨token, parent, children, height⟩ :: nodes, h => by
    obtain ⟨hfirst, hrest⟩ := List.append_eq_nil_iff.mp h
    rw [List.map_cons, withMessage_eq_self token hfirst, nodes_withMessage_eq_self nodes hrest]

end

end Token

/-! ### Drafts -/

/-- A piece whose values all stay the same. -/
theorem Piece.map_eq_self {α : Type} {g : α → α} (p : Piece α) (h : ∀ a ∈ p.values, g a = a) :
    p.map g = p := by
  induction p with
  | leaf value levels => rw [map, h value (by simp [values])]
  | around value inner ih =>
      rw [map, h value (by simp [values]), ih fun a ha => h a (by simp [values, ha])]
  | between value left right ihl ihr =>
      rw [map, h value (by simp [values]), ihl fun a ha => h a (by simp [values, ha]),
        ihr fun a ha => h a (by simp [values, ha])]

theorem Frame.map_eq_self {α : Type} {g : α → α} (f : Frame α) (h : ∀ a ∈ f.values, g a = a) :
    f.map g = f := by
  cases f with
  | around value => rw [map, h value (by simp [values])]
  | between value left =>
      rw [map, h value (by simp [values]), left.map_eq_self fun a ha => h a (by simp [values, ha])]

namespace Draft

theorem map_eq_self {α : Type} {g : α → α} (d : Draft α) (h : ∀ a ∈ d.values, g a = a) :
    d.map g = d := by
  have hframes : d.frames.map (Frame.map g) = d.frames :=
    (List.map_congr_left fun f hf => f.map_eq_self fun a ha => h a (List.mem_cons_of_mem _
      (List.mem_append_left _ (List.mem_flatMap.mpr ⟨f, List.mem_reverse.mpr hf, ha⟩)))).trans
      (List.map_id _)
  have hhung : d.hung.map (Piece.map g) = d.hung :=
    (List.map_congr_left fun p hp => p.map_eq_self fun a ha => h a (List.mem_cons_of_mem _
      (List.mem_append_right _ (List.mem_flatMap.mpr ⟨p, hp, ha⟩)))).trans (List.map_id _)
  rw [map, h d.root (by simp [values]), hframes, hhung]

/-- **Only a leaf that has a mark changes** where everything else has none. -/
theorem withMessage_hang {d : Draft Token} (hclean : ∀ t ∈ d.values, t.IsClean)
    (message : String) (token : Token) (levels : Nat) :
    Tree.withMessage message (d.hang (.leaf token levels)).arena =
      (d.hang (.leaf (token.withMessage message) levels)).arena := by
  have hsame : d.map (Token.withMessage message) = d :=
    d.map_eq_self fun t ht => t.withMessage_eq_self message (hclean t ht).1
  have hhang : (d.hang (.leaf token levels)).map (Token.withMessage message) =
      (d.map (Token.withMessage message)).hang (.leaf (token.withMessage message) levels) := by
    simp [map, hang, Piece.map]
  rw [Tree.withMessage, foldTokens_arena]
  exact congrArg arena (hhang.trans (by rw [hsame]))

end Draft

end Formula
