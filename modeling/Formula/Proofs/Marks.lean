/-
Failures leave exactly one mark.

Reading a text either fails once or not at all.  If it fails, the tree that it was in is left
with a mark as its last node, and the calls around that tree are ended: each of them is the
last node of its own tree and has the failing tree as its last argument, `EndsWith`.  So the
mark is reached from the root, and it is the only one.
-/
import Formula.Proofs.Reading.Simulation

namespace Formula

/-! ### The last node -/

/-- The token of the node that was made last. -/
def Tree.last? (tree : Tree) : Option Token := tree.nodes.toList.getLast?.map (·.value)

/-- The mark is the last node of the tree, or the last node is a call and the mark ends the
last argument of that call in the same way. -/
inductive EndsWith (mark : Token) : Tree → Prop
  | here {tree : Tree} (hlast : tree.last? = some mark) : EndsWith mark tree
  | inside {tree inner : Tree} {name : String} {arguments : List Tree}
      (hlast : tree.last? = some (.call name (arguments ++ [inner])))
      (hinner : EndsWith mark inner) : EndsWith mark tree

namespace Draft

theorem values_hang (d : Draft Token) (p : Piece Token) :
    (d.hang p).values = d.values ++ p.values := by
  simp [values, hang]

/-- A leaf that has been hung below the cursor is the last node. -/
theorem last?_hang (d : Draft Token) (token : Token) (levels : Nat) :
    Tree.last? (d.hang (.leaf token levels)).arena = some token := by
  have hvalues := values_nodes (d.hang (.leaf token levels))
  rw [values_hang, Piece.values] at hvalues
  rw [Tree.last?, arena, List.toList_toArray, ← List.getLast?_map, hvalues,
    List.getLast?_concat]

end Draft

/-! ### The tree around a failure -/

/-- The tree has one mark, which is where reading stopped. -/
structure HasMark (message : String) (d : Draft Token) : Prop where
  marks : Tree.marks d.arena = [message]
  count : Tree.errorCount d.arena = 1
  ends : EndsWith (.error message) d.arena

theorem Tree.total_append (ms ns : List Nat) : total (ms ++ ns) = total ms + total ns := by
  have hassoc : ns.foldl (· + ·) (total ms + 0) = total ms + ns.foldl (· + ·) 0 :=
    List.foldl_assoc
  rw [total, List.foldl_append]
  exact hassoc

/-- What is hung behind clean tokens brings all the marks. -/
theorem marks_hang {d : Draft Token} (hclean : ∀ t ∈ d.values, t.IsClean) (token : Token)
    (levels : Nat) :
    Tree.marks (d.hang (.leaf token levels)).arena = token.marks ∧
      Tree.errorCount (d.hang (.leaf token levels)).arena = token.errors := by
  obtain ⟨hmarks, hcount⟩ := Draft.marks_of_isClean hclean
  rw [Draft.marks_arena] at hmarks ⊢
  rw [Draft.errorCount_arena] at hcount ⊢
  rw [Draft.values_hang, Piece.values, List.flatMap_append, List.map_append, hmarks,
    Tree.total_append, hcount]
  simp [Tree.total]

/-- The mark itself. -/
theorem hasMark_leaf {d : Draft Token} (hclean : ∀ t ∈ d.values, t.IsClean) (message : String) :
    HasMark message (d.hang (.leaf (.error message) 0)) := by
  obtain ⟨hmarks, hcount⟩ := marks_hang hclean (.error message) 0
  exact ⟨hmarks, hcount, .here (d.last?_hang _ _)⟩

/-- A call that is ended because reading failed in its last argument. -/
theorem hasMark_call {message : String} {inner : Draft Token} (h : HasMark message inner)
    {d : Draft Token} (hclean : ∀ t ∈ d.values, t.IsClean) (name : String) (done : List Expr) :
    HasMark message (d.hang (callLeaf name
      ((done.map Expr.argumentTree).reverse ++ [inner.arena]))) := by
  obtain ⟨hmarks, hcount⟩ := marks_hang hclean
    (.call name ((done.map Expr.argumentTree).reverse ++ [inner.arena]))
    (Token.call name ((done.map Expr.argumentTree).reverse ++ [inner.arena])).levels
  obtain ⟨hdone, hzero⟩ := Expr.isClean_trees done.reverse
  rw [Expr.trees_eq_map, List.map_reverse] at hdone hzero
  refine ⟨hmarks.trans ?_, hcount.trans ?_, .inside (d.last?_hang _ _) h.ends⟩
  · rw [Token.marks_call, List.flatMap_append, hdone, List.flatMap_singleton, h.marks]
    rfl
  · rw [Token.errors_call, List.map_append, Tree.total_append, hzero, List.map_singleton, h.count]
    rfl

/-- **Ending the calls around a failure keeps its mark**, and adds none. -/
theorem hasMark_failDraft {message : String} {d : Draft Token} (h : HasMark message d)
    (outer : List OpenCall) : HasMark message (failDraft d outer) := by
  induction outer generalizing d with
  | nil => exact h
  | cons call outer ih =>
      rw [failDraft]
      exact ih (hasMark_call h (isClean_partsDraft (isClean_rootToken outer) _ _) call.name
        call.done)

theorem hasMark_stop (limits : Limits) (stop : Stop) :
    HasMark (stop.failure limits).message (stop.draft limits) := by
  have hclean := isClean_partsDraft (isClean_rootToken stop.config.outer) stop.config.parts
    stop.config.operand
  exact hasMark_failDraft (hasMark_leaf hclean _) _

/-! ### One failure or none -/

/-- The failures among everything that happens. -/
theorem warnings_events (limits : Limits) (source : String) :
    warnings (events limits source) = (warnings (read limits source).log).reverse := by
  rw [events, warnings, List.filter_reverse, List.filter_cons_of_neg (by simp [Event.level])]
  rfl

/-- **Exactly one failure or none.**  Either reading ends well, no tree has a mark and nothing
is reported, or it fails, that failure is reported once, and its mark is the only one and ends
the tree. -/
theorem read_one_mark (limits : Limits) (source : String) :
    ((parse limits source).failure = none ∧ (read limits source).state = .done ∧
      Tree.marks (parse limits source).tree = [] ∧
      Tree.errorCount (parse limits source).tree = 0 ∧
      warnings (events limits source) = []) ∨
    ∃ failure, (parse limits source).failure = some failure ∧
      (read limits source).state = .failed ∧
      Tree.marks (parse limits source).tree = [failure.message] ∧
      Tree.errorCount (parse limits source).tree = 1 ∧
      EndsWith (.error failure.message) (parse limits source).tree ∧
      warnings (events limits source) = [.failing failure] := by
  have hholds := read_holds limits source
  rw [warnings_events]
  cases houtcome : (Stage.start source.toList).read limits with
  | accepted f =>
      rw [houtcome] at hholds
      obtain ⟨hstate, htree, hfailure, hquiet⟩ := hholds
      obtain ⟨hmarks, hcount⟩ := Draft.marks_of_isClean (isClean_formulaDraft f)
      rw [← htree] at hmarks hcount
      refine .inl ⟨hfailure, hstate, hmarks, hcount, ?_⟩
      rw [hquiet]
      rfl
  | refused stop =>
      rw [houtcome] at hholds
      obtain ⟨hstate, htree, hfailure, hwarned⟩ := hholds
      obtain ⟨hmarks, hcount, hends⟩ := hasMark_stop limits stop
      rw [← htree] at hmarks hcount hends
      refine .inr ⟨stop.failure limits, hfailure, hstate, hmarks, hcount, hends, ?_⟩
      rw [hwarned]
      rfl

end Formula
