/-
What the nodes of a result have below them.

Whether reading ends well or fails, a node has all the children that its token calls for, each
an operand, and an operator has no operator below it that should be above.  Only the node where
reading failed is different: it is the root, a pair of brackets or an operator, and it has some
of its children, then the mark of the failure.
-/
import Formula.Proofs.Reading.Growth

namespace Formula

variable {limits : Limits} {source : String}

/-- **Every node of every tree of a result has the children that its token calls for**, the node
where reading failed as far as it got.  The two tokens of roots stand at roots only. -/
theorem node_fits {t : Tree} (ht : (parse limits source).tree.IsPart t) {id : NodeId}
    (hid : id < t.size) :
    (t.token id).Fits ((t.children id).map t.token) ∧
      (id = Arena.root ↔ t.token id = .empty ∨ t.token id = .group .scope) := by
  obtain ⟨s, hshows, hfits, hroot⟩ := ((grown_parse limits source).part ht).node hid
  rw [hshows.token, hshows.children]
  exact ⟨hfits, hroot⟩

/-- In `a*(b+` reading fails behind the operator in the brackets, which is the last node but the
mark and has its left operand. -/
theorem node_fits_broken :
    (5 < (parse ⟨9, 9, 9⟩ "a*(b+").tree.size ∧
      (parse ⟨9, 9, 9⟩ "a*(b+").tree.children 5 = [4, 6]) ∧
    ((parse ⟨9, 9, 9⟩ "a*(b+").tree.token 5).Fits
        (((parse ⟨9, 9, 9⟩ "a*(b+").tree.children 5).map (parse ⟨9, 9, 9⟩ "a*(b+").tree.token) ∧
      (5 = Arena.root ↔ (parse ⟨9, 9, 9⟩ "a*(b+").tree.token 5 = .empty ∨
        (parse ⟨9, 9, 9⟩ "a*(b+").tree.token 5 = .group .scope) :=
  have hsize : 5 < (parse ⟨9, 9, 9⟩ "a*(b+").tree.size := by decide +kernel
  ⟨⟨hsize, by decide +kernel⟩, node_fits .whole hsize⟩

end Formula
