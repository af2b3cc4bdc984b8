/-
What growing a tree does, and what it leaves.

A token that is hung below a node comes behind everything that was below that node.  One that is
put around a node comes right in front of it, and what is at and below that node gets one level
deeper.  This is all that a walk from the root shows of it: the tokens that were there, their order
and, apart from the node that was put inside another one, their parents stay as they were.
-/
import Formula.Proofs.Marks
import Formula.Proofs.Tree.Built

namespace Formula.Tree

/-- One tree is another one with one more node, which holds the token. -/
structure Gains (old : Tree) (token : Token) (new : Tree) : Prop where
  /-- The new node is the last one that was made. -/
  size_eq : new.size = old.size + 1
  token_new : new.token old.size = token
  /-- Every other node keeps its token. -/
  token_old : ∀ id < old.size, new.token id = old.token id
  /-- The other nodes come in the same order in a walk from the root. -/
  order : (new.descendants Arena.root).filter (· ≠ old.size) = old.descendants Arena.root
  /-- The marks in the token are added to those that are counted. -/
  errorCount_eq : new.errorCount = old.errorCount + token.errors

theorem total_cons (n : Nat) (ns : List Nat) : total (n :: ns) = n + total ns := by
  have happend := total_append [n] ns
  rw [List.singleton_append] at happend
  rw [happend, total, List.foldl_cons, List.foldl_nil, Nat.zero_add]

/-- One more node in a walk from the root is one more node. -/
theorem Gains.of_split {old new : Tree} {token : Token} {before after : List NodeId}
    (hbuilt : old.Built) (hbuilt' : new.Built) (hsize : new.size = old.size + 1)
    (htoken : ∀ id, new.token id = if id = old.size then token else old.token id)
    (hold : old.descendants Arena.root = before ++ after)
    (hnew : new.descendants Arena.root = before ++ old.size :: after) : old.Gains token new := by
  have hlt : ∀ id ∈ before ++ after, id < old.size := by
    intro id hid
    rw [← hold] at hid
    exact hbuilt.linked.mem_descendants_root.mp hid
  have hkept : ∀ id < old.size, new.token id = old.token id := fun id hid => by
    rw [htoken, if_neg (Nat.ne_of_lt hid)]
  have hfresh : new.token old.size = token := by rw [htoken, if_pos rfl]
  refine ⟨hsize, hfresh, hkept, ?_, ?_⟩
  · have hsame : (before ++ after).filter (· ≠ old.size) = before ++ after :=
      List.filter_eq_self.mpr fun id hid => decide_eq_true (Nat.ne_of_lt (hlt id hid))
    rw [hnew, hold, List.filter_append, List.filter_cons_of_neg (by simp), ← List.filter_append,
      hsame]
  · have hmarks : (before ++ after).map (fun id => (new.token id).errors) =
        (before ++ after).map fun id => (old.token id).errors :=
      List.map_congr_left fun id hid => by rw [hkept id (hlt id hid)]
    rw [hbuilt'.errorCount_eq, hbuilt.errorCount_eq, hnew, hold,
      total_perm (List.perm_middle.map _), List.map_cons, total_cons, hfresh, hmarks,
      Nat.add_comm]

namespace Built

variable {tree : Tree}

/-- **What growing does to a walk.**  Putting a token around a node, which is not the root, puts
the new node right in front of that node in a walk from the root, and makes that node and everything
below it one level deeper.  Hanging a token below a node puts the new node behind the last one below
it.  In both cases the new node is all that a walk gains, and no other node gets another parent
except for the one that is put inside. -/
theorem insertion (h : tree.Built) (token : Token) :
    (∀ node < tree.size, node ≠ Arena.root →
      tree.Gains token (tree.wrap node token) ∧
      (∃ before after, tree.descendants Arena.root = before ++ node :: after ∧
        (tree.wrap node token).descendants Arena.root = before ++ tree.size :: node :: after) ∧
      (∀ id < tree.size, ((tree.wrap node token).ancestors id).length =
        if id ∈ tree.descendants node then (tree.ancestors id).length + 1
        else (tree.ancestors id).length) ∧
      ∀ id < tree.size, id ≠ node → (tree.wrap node token).parent? id = tree.parent? id) ∧
    ∀ parent < tree.size,
      tree.Gains token (tree.add parent token) ∧
      (∃ before after,
        tree.descendants Arena.root = before ++ tree.descendants parent ++ after ∧
        (tree.add parent token).descendants Arena.root =
          before ++ tree.descendants parent ++ tree.size :: after) ∧
      (∀ id < tree.size, (tree.add parent token).ancestors id = tree.ancestors id) ∧
      ∀ id < tree.size, (tree.add parent token).parent? id = tree.parent? id := by
  have hlinked := h.linked
  constructor
  · intro node hnode hroot
    obtain ⟨parent, hparent⟩ := hlinked.exists_parent node hnode hroot
    obtain ⟨before, after, hold, hnew⟩ := hlinked.descendants_wrap hparent token
    rw [hlinked.descendants_eq hnode] at hold hnew
    simp only [List.append_assoc, List.cons_append] at hold hnew
    refine ⟨.of_split h (.wrap h hnode hroot token) (Arena.size_wrap_of_parent? hparent token)
      (token_wrap token hlinked hparent) hold hnew, ⟨_, _, hold, hnew⟩, ?_, ?_⟩
    · exact fun id hid => hlinked.depth_wrap hparent token hid
    · exact fun id hid hne => hlinked.parent?_wrap_of_ne hparent token hid hne
  · intro parent hparent
    obtain ⟨before, after, hold, hnew⟩ := hlinked.descendants_add hparent token token.levels
    refine ⟨.of_split h (.add h hparent token) (Arena.size_add _ _ _ _) (token_add token hparent)
      hold hnew, ⟨before, after, hold, hnew⟩, ?_, ?_⟩
    · exact fun id hid => (List.cons.inj (hlinked.way_add hparent token token.levels hid)).2
    · intro id hid
      exact (Arena.parent?_add hparent token token.levels id).trans (if_neg (Nat.ne_of_lt hid))

/-- A mark around the name comes in front of it, and one below the operator behind it. -/
theorem insertion_difference : openDifference.Built ∧
    openDifference.descendants Arena.root = [0, 2, 1] ∧
    (openDifference.Gains (.error "?") (openDifference.wrap 1 (.error "?")) ∧
      (openDifference.wrap 1 (.error "?")).descendants Arena.root = [0, 2, 3, 1]) ∧
    openDifference.Gains (.error "?") (openDifference.add 2 (.error "?")) ∧
      (openDifference.add 2 (.error "?")).descendants Arena.root = [0, 2, 1, 3] :=
  have hinsertion := built_openDifference.insertion (.error "?")
  ⟨built_openDifference, by decide, ⟨(hinsertion.1 1 (by decide) (by decide)).1, by decide⟩,
    (hinsertion.2 2 (by decide)).1, by decide⟩

end Built

end Formula.Tree
