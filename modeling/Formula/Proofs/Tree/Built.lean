/-
Trees that are built step by step.

A tree starts as one token and grows by hanging a token below a node or putting one around a
node, as often as one likes and wherever one likes (`Tree.Built`).  The trees of formulas are
built this way, but in few of the possible orders.  Here nothing is known of the order, nor of the
tokens.

Folding the tokens leaves the links alone, so what is computed from a folded tree is computed
from the tokens in the order of a walk (`Built.errorCount_eq`, `Linked.display_eq`).  A tree is
shown as long as none of its nodes, or of those inside its tokens, is too deep
(`Linked.display?_eq`).

A token that is put around a node is not asked for its levels, so the height of a tree leaves
them out (`Built.height_eq`).  Such a node is known by something below it that is older than the
node; everything below any other node is younger (`Arena.IsAround`).
-/
import Formula.Proofs.Arena.Heights
import Formula.Proofs.Arena.Inserted
import Formula.Token.Text

namespace Formula

/-- A tree that has grown from a single token, each time at some node; the root cannot be put
inside another node. -/
inductive Tree.Built : Tree → Prop
  | ofToken (token : Token) : Built (ofToken token)
  | add {tree : Tree} {parent : NodeId} (h : Built tree) (hparent : parent < tree.size)
      (token : Token) : Built (tree.add parent token)
  | wrap {tree : Tree} {node : NodeId} (h : Built tree) (hnode : node < tree.size)
      (hroot : node ≠ Arena.root) (token : Token) : Built (tree.wrap node token)

/-- **Building a tree keeps its links in order.** -/
theorem Tree.Built.linked {tree : Tree} (h : tree.Built) : tree.Linked := by
  induction h with
  | ofToken token => exact Arena.Linked.single token token.levels
  | add _ hparent token ih => exact ih.add hparent token token.levels
  | wrap _ hnode hroot token ih =>
      obtain ⟨parent, hparent⟩ := ih.exists_parent _ hnode hroot
      exact ih.wrap hparent token

/-- The tree of `x-`, built in the order in which it is read: the operator is put around the
name. -/
def Tree.openDifference : Tree :=
  ((Tree.ofToken .empty).add 0 (.identifier "x")).wrap 1 (.operator .sub)

theorem Tree.built_openDifference : Tree.openDifference.Built :=
  .wrap (.add (.ofToken .empty) (by decide) (.identifier "x")) (by decide) (by decide)
    (.operator .sub)

namespace Arena

/-! ### Folding the tokens leaves the links -/

section

variable {β : Type} (leaf : Token → β) (call : String → List (Arena β) → β)

theorem value?_foldTokens (tree : Tree) (id : NodeId) :
    (tree.foldTokens leaf call).value? id = (tree.value? id).map (Token.fold leaf call) := by
  rw [value?, getElem?_foldTokens, value?, Option.map_map, Option.map_map]
  rfl

theorem parent?_foldTokens (tree : Tree) (id : NodeId) :
    (tree.foldTokens leaf call).parent? id = tree.parent? id := by
  rw [parent?, getElem?_foldTokens, parent?, Option.bind_map]
  rfl

theorem children_foldTokens (tree : Tree) (id : NodeId) :
    (tree.foldTokens leaf call).children id = tree.children id := by
  rw [children, getElem?_foldTokens, children]
  cases tree.nodes[id]? <;> rfl

theorem ancestors_foldTokens (tree : Tree) (id : NodeId) :
    (tree.foldTokens leaf call).ancestors id = tree.ancestors id := by
  rw [ancestors, size_foldTokens, parent?_foldTokens,
    climb_congr (parent?_foldTokens leaf call tree), ancestors]

theorem visit_foldTokens (tree : Tree) (fuel : Nat) (pending : List (NodeId × Nat))
    (seen : Array (NodeId × Nat)) :
    (tree.foldTokens leaf call).visit fuel pending seen = tree.visit fuel pending seen := by
  induction fuel generalizing pending seen with
  | zero => rfl
  | succ fuel ih =>
      rcases pending with _ | ⟨⟨id, depth⟩, pending⟩
      · rfl
      · rw [visit, visit, ih, children_foldTokens]

theorem walk_foldTokens (tree : Tree) (id : NodeId) :
    (tree.foldTokens leaf call).walk id = tree.walk id := by
  rw [walk, visit_foldTokens, size_foldTokens, walk]

theorem descendants_foldTokens (tree : Tree) (id : NodeId) :
    (tree.foldTokens leaf call).descendants id = tree.descendants id := by
  rw [descendants_eq_map_walk, walk_foldTokens, descendants_eq_map_walk]

theorem value?_eq_token {tree : Tree} {id : NodeId} (hid : id < tree.size) :
    tree.value? id = some (tree.token id) := by
  rw [Tree.token, value?, Array.getElem?_eq_getElem hid]
  rfl

/-- The values of a folded tree are the tokens, folded one by one. -/
theorem Linked.values_foldTokens {tree : Tree} (h : tree.Linked) :
    (tree.foldTokens leaf call).values =
      (tree.descendants root).map fun id => (tree.token id).fold leaf call := by
  rw [values, descendants_foldTokens, ← List.filterMap_eq_map]
  refine List.filterMap_congr fun id hid => ?_
  rw [value?_foldTokens, value?_eq_token (h.mem_descendants_root.mp hid)]
  rfl

end

/-- The rows of a folded tree are those of its tokens, each indented by its depth. -/
theorem Linked.rows_foldTokens {tree : Tree} (h : tree.Linked) (leaf : Token → String)
    (call : String → List (Arena String) → String) :
    (tree.foldTokens leaf call).rows = (tree.descendants root).map fun id =>
      String.ofList (List.replicate (2 * tree.depth id) ' ') ++ (tree.token id).fold leaf call := by
  rw [rows, walk_foldTokens, h.walk_root, List.filterMap_map, ← List.filterMap_eq_map]
  refine List.filterMap_congr fun id hid => ?_
  have hlt := h.mem_descendants_root.mp hid
  simp only [Function.comp_apply]
  rw [value?_foldTokens, value?_eq_token hlt]
  rfl

/-- The text of a tree with its links in order is that of its tokens, one after the other. -/
theorem Linked.display_eq {tree : Tree} (h : tree.Linked) : Tree.display tree =
    String.join ((tree.descendants root).map fun id =>
      String.ofList (List.replicate (2 * tree.depth id) ' ') ++
        (tree.token id).display ++ "\n") := by
  rw [Tree.display, outline, h.rows_foldTokens, List.map_map]
  rfl

/-- The rows of a folded tree can be written if no node is too deep and each token folds to
`true`. -/
theorem Linked.rowsFit_foldTokens {tree : Tree} (h : tree.Linked) (leaf : Token → Bool)
    (call : String → List (Arena Bool) → Bool) : (tree.foldTokens leaf call).rowsFit = true ↔
      ∀ id < tree.size,
        2 * tree.depth id ≤ greatestIndent ∧ (tree.token id).fold leaf call = true := by
  have hrow : ∀ id < tree.size, ((tree.foldTokens leaf call).value? id).getD true =
      (tree.token id).fold leaf call := by
    intro id hid
    rw [value?_foldTokens, value?_eq_token hid]
    rfl
  rw [rowsFit, walk_foldTokens, h.walk_root, List.all_map, List.all_eq_true]
  refine forall_congr' fun id => ?_
  rw [h.mem_descendants_root]
  refine forall_congr' fun hid => ?_
  rw [Function.comp_apply, Bool.and_eq_true, decide_eq_true_iff, hrow id hid]

/-- **When the text of a tree can be written**: no node is too deep, and the text of every token
can be written. -/
theorem Linked.isWritable_iff {tree : Tree} (h : tree.Linked) : Tree.isWritable tree = true ↔
    ∀ id < tree.size,
      2 * tree.depth id ≤ greatestIndent ∧ (tree.token id).isWritable = true :=
  h.rowsFit_foldTokens _ _

/-- **What is shown of a tree** with its links in order. -/
theorem Linked.display?_eq {tree : Tree} (h : tree.Linked) : Tree.display? tree =
    if ∀ id < tree.size,
        2 * tree.depth id ≤ greatestIndent ∧ (tree.token id).isWritable = true then
      some (String.join ((tree.descendants root).map fun id =>
        String.ofList (List.replicate (2 * tree.depth id) ' ') ++
          (tree.token id).display ++ "\n"))
    else none := by
  rw [Tree.display?, if_congr h.isWritable_iff rfl rfl, h.display_eq]

/-! ### Nodes around others -/

/-- The node was put around another one: something below it is older than the node itself.  That
is so from the moment it is put there (`Linked.isAround_wrap_new`), it is not so for a new leaf
(`Linked.not_isAround_add_new`), and growing the tree does not change it later on. -/
def IsAround {α : Type} (t : Arena α) (id : NodeId) : Prop := ∃ below ∈ t.descendants id, below < id

instance {α : Type} (t : Arena α) (id : NodeId) : Decidable (t.IsAround id) :=
  inferInstanceAs (Decidable (∃ below ∈ t.descendants id, below < id))

namespace Linked

variable {α : Type} {t : Arena α} {id node parent : Nat}

section

variable (h : t.Linked) (hparent : parent < t.size) (value : α) (levels : Nat)
include h hparent

theorem isAround_add (hid : id < t.size) :
    (t.add parent value levels).IsAround id ↔ t.IsAround id := by
  have hadd := h.add hparent value levels
  have hid' : id < (t.add parent value levels).size := by rw [size_add]; omega
  simp only [IsAround, hadd.mem_descendants hid', h.mem_descendants hid, size_add]
  refine exists_congr fun below => and_congr_left fun hlt => ?_
  rw [h.way_add hparent value levels (Nat.lt_trans hlt hid)]
  exact and_congr_left fun _ => ⟨fun _ => Nat.lt_trans hlt hid, fun hbelow => by omega⟩

theorem not_isAround_add_new : ¬(t.add parent value levels).IsAround t.size := by
  rintro ⟨below, hbelow, hlt⟩
  rw [h.descendants_add_new hparent, List.mem_singleton] at hbelow
  exact Nat.lt_irrefl _ (hbelow ▸ hlt)

end

section

variable (h : t.Linked) (hparent : t.parent? node = some parent) (value : α)
include h hparent

theorem isAround_wrap (hid : id < t.size) :
    (t.wrap node value).IsAround id ↔ t.IsAround id := by
  have hwrap := h.wrap hparent value
  have hsize := lt_size_wrap hparent value
  simp only [IsAround, hwrap.mem_descendants (Nat.lt_trans hid hsize), h.mem_descendants hid]
  refine exists_congr fun below => and_congr_left fun hlt => ?_
  have hbelow := Nat.lt_trans hlt hid
  rw [h.mem_way_wrap hparent value hbelow, or_iff_left fun hnew => Nat.ne_of_lt hid hnew.1]
  exact and_congr_left fun _ => ⟨fun _ => hbelow, fun _ => Nat.lt_trans hbelow hsize⟩

theorem isAround_wrap_new : (t.wrap node value).IsAround t.size := by
  have hnode := lt_size_of_parent? hparent
  refine ⟨node, ?_, hnode⟩
  rw [h.descendants_wrap_new hparent]
  exact List.mem_cons_of_mem _ ((h.mem_descendants hnode).mpr ⟨hnode, t.self_mem_way node⟩)

end

end Linked

end Arena

namespace Tree

/-- The levels of a token that are counted: those of a token that was hung below a node. -/
def keptLevels (tree : Tree) (id : NodeId) : Nat :=
  if tree.IsAround id then 0 else (tree.token id).levels

/-! ### What growing does to the tokens -/

section

variable {tree : Tree} {node parent : NodeId} (token : Token)

theorem token_add (hparent : parent < tree.size) (id : NodeId) :
    (tree.add parent token).token id = if id = tree.size then token else tree.token id := by
  rw [Tree.token, add, Arena.value?_add hparent]
  split <;> rfl

theorem token_wrap (h : tree.Linked) (hparent : tree.parent? node = some parent) (id : NodeId) :
    (tree.wrap node token).token id = if id = tree.size then token else tree.token id := by
  rw [Tree.token, wrap,
    Arena.value?_wrap hparent (h.parent_ne hparent) (h.parent_lt node parent hparent)]
  split <;> rfl

end

namespace Built

variable {tree : Tree}

/-- **The heights in a tree that was built** are right for the levels that are counted. -/
theorem measured (h : tree.Built) : tree.Measured tree.keptLevels := by
  induction h with
  | ofToken token =>
      have hlevels : (Tree.ofToken token).keptLevels Arena.root = token.levels :=
        if_neg fun ⟨_, _, hlt⟩ => Nat.not_lt_zero _ hlt
      have hsingle := Arena.Measured.single token (Tree.ofToken token).keptLevels
      rw [hlevels] at hsingle
      exact hsingle
  | @add tree parent hbuilt hparent token ih =>
      have h := hbuilt.linked
      have hold : ∀ id < tree.size,
          (tree.add parent token).keptLevels id = tree.keptLevels id := by
        intro id hid
        rw [keptLevels, token_add token hparent, if_neg (Nat.ne_of_lt hid), keptLevels]
        exact if_congr (h.isAround_add hparent token token.levels hid) rfl rfl
      have hnew : (tree.add parent token).keptLevels tree.size = token.levels := by
        rw [keptLevels, token_add token hparent, if_pos rfl]
        exact if_neg (h.not_isAround_add_new hparent token token.levels)
      have hadd := ih.add h hparent token hold
      rw [hnew] at hadd
      exact hadd
  | @wrap tree node hbuilt hnode hroot token ih =>
      have h := hbuilt.linked
      obtain ⟨parent, hparent⟩ := h.exists_parent node hnode hroot
      refine ih.wrap h hparent token (fun id hid => ?_) ?_
      · rw [keptLevels, token_wrap token h hparent, if_neg (Nat.ne_of_lt hid), keptLevels]
        exact if_congr (h.isAround_wrap hparent token hid) rfl rfl
      · exact if_pos (h.isAround_wrap_new hparent token)

/-- **The height of a tree that was built**: the greatest number of nodes above a node and of
levels that are counted for it. -/
theorem height_eq (h : tree.Built) : tree.height =
    greatest ((List.range tree.size).map fun id => tree.depth id + tree.keptLevels id) :=
  h.measured.height_eq h.linked

/-- The marks of failures are counted node by node. -/
theorem errorCount_eq (h : tree.Built) : tree.errorCount =
    total ((tree.descendants Arena.root).map fun id => (tree.token id).errors) := by
  rw [errorCount, h.linked.values_foldTokens]
  rfl

end Built

end Tree

end Formula
