/-
Drafts and layouts.

A draft says which nodes there are and where the cursor stands; its array is written down from
that.  Where only operators have something to their left, and every node brings the levels
that its token has, the array is the layout of the nested tree that the draft shows
(`Draft.arena_nested`).  So what is left of such a draft is its nested tree: the order in which
the nodes were created, their links upwards and their heights follow from it.
-/
import Formula.Proofs.Arena.Layout

namespace Formula

/-! ### Drafts whose tokens stand where they belong -/

namespace Piece

/-- The nodes of the piece are where the order of reading puts them, and no node brings other
levels than its token does. -/
def Faithful : Piece Token → Prop
  | leaf token levels => levels = token.levels
  | around token inner => token.levels = 0 ∧ token.leading = 0 ∧ inner.Faithful
  | between token left right =>
    token.levels = 0 ∧ token.leading = 1 ∧ left.Faithful ∧ right.Faithful

@[simp] theorem size_nested (p : Piece Token) : p.nested.size = p.size := by
  induction p with
  | leaf => rfl
  | around token inner ih => simp [nested, Nested.size, Nested.sizes, size, ih]
  | between token left right ihl ihr =>
      simp [nested, Nested.size, Nested.sizes, size, ihl, ihr]

theorem height_nested {p : Piece Token} (h : p.Faithful) : p.nested.height = p.height := by
  induction p with
  | leaf token levels =>
      rw [Faithful] at h
      simp [nested, Nested.height, Nested.heights, height, h]
  | around token inner ih =>
      obtain ⟨hlevels, -, hinner⟩ := h
      simp [nested, Nested.height, Nested.heights, height, hlevels, ih hinner]
  | between token left right ihl ihr =>
      obtain ⟨hlevels, -, hleft, hright⟩ := h
      simp [nested, Nested.height, Nested.heights, height, hlevels, ihl hleft, ihr hright]

theorem top_nested {p : Piece Token} (h : p.Faithful) (base : Nat) :
    p.nested.top base = p.top base := by
  rw [Nested.top, top, ← Nested.sizes_before]
  cases p with
  | leaf token levels => simp [nested, Nested.before, Nested.children, Nested.sizes, lead]
  | around token inner =>
      obtain ⟨-, hleading, -⟩ := h
      simp [nested, Nested.before, Nested.children, Nested.value, Nested.sizes, lead, hleading]
  | between token left right =>
      obtain ⟨-, hleading, -, -⟩ := h
      simp [nested, Nested.before, Nested.children, Nested.value, Nested.sizes, lead, hleading]

/-- The layout of the nested tree is the stretch of the piece. -/
theorem layout_nested {p : Piece Token} (h : p.Faithful) (parent base : Nat) :
    p.nested.layout (some parent) base = p.nodes parent base := by
  induction p generalizing parent base with
  | leaf token levels =>
      rw [Faithful] at h
      rw [nested, Nested.layout_plain (.inr rfl)]
      simp [Nested.tops, Nested.heights, Nested.layouts, nodes, h]
  | around token inner ih =>
      obtain ⟨hlevels, hleading, hinner⟩ := h
      rw [nested, Nested.layout_plain (.inl hleading)]
      simp [Nested.tops, Nested.heights, Nested.layouts, nodes, hlevels, height_nested hinner,
        top_nested hinner, ih hinner]
  | between token left right ihl ihr =>
      obtain ⟨-, hleading, hleft, hright⟩ := h
      obtain ⟨op, rfl⟩ := Token.leading_eq_one.mp hleading
      simp [nested, Nested.layout, Nested.tops, Nested.heights, Nested.layouts, nodes,
        height_nested hleft, height_nested hright, top_nested hleft, top_nested hright,
        ihl hleft, ihr hright]

end Piece

namespace Forest

theorem tops_nested {ps : List (Piece Token)} (h : ∀ p ∈ ps, p.Faithful) (base : Nat) :
    Nested.tops base (ps.map Piece.nested) = tops base ps := by
  induction ps generalizing base with
  | nil => rfl
  | cons p ps ih =>
      rw [List.map_cons, Nested.tops, tops, Piece.top_nested (h p (by simp)), Piece.size_nested,
        ih fun q hq => h q (by simp [hq])]

theorem heights_nested {ps : List (Piece Token)} (h : ∀ p ∈ ps, p.Faithful) :
    Nested.heights (ps.map Piece.nested) = height ps := by
  induction ps with
  | nil => rfl
  | cons p ps ih =>
      rw [List.map_cons, Nested.heights, height, Piece.height_nested (h p (by simp)),
        ih fun q hq => h q (by simp [hq])]

theorem layouts_nested {ps : List (Piece Token)} (h : ∀ p ∈ ps, p.Faithful) (parent base : Nat) :
    Nested.layouts (some parent) base (ps.map Piece.nested) = nodes parent base ps := by
  induction ps generalizing base with
  | nil => rfl
  | cons p ps ih =>
      rw [List.map_cons, Nested.layouts, nodes, Piece.layout_nested (h p (by simp)),
        Piece.size_nested, ih fun q hq => h q (by simp [hq])]

end Forest

namespace Frame

/-- The same as `Piece.Faithful` for a node on the way to the cursor. -/
def Faithful : Frame Token → Prop
  | around token => token.levels = 0 ∧ token.leading = 0
  | between token left => token.levels = 0 ∧ token.leading = 1 ∧ left.Faithful

end Frame

namespace Spine

/-- The layout of the way, with the trees `below` inside its last node, is the nodes of the way
and then the trees. -/
theorem layout_nested {root : Token} (hlevels : root.levels = 0) (hleading : root.leading = 0)
    {fs : List (Frame Token)} (h : ∀ f ∈ fs, f.Faithful) (below : List (Nested Token)) :
    (nested root below fs).layout none 0 =
      nodes root (Nested.tops (size fs) below) (Nested.heights below) fs ++
        Nested.layouts (some (cursor fs)) (size fs) below := by
  induction fs generalizing below with
  | nil =>
      rw [nested, Nested.layout_plain (.inl hleading)]
      simp [nodes, last, value, parent?, tops, heightAt, size, cursor, Arena.root, hlevels]
  | cons f fs ih =>
      have hrest : ∀ g ∈ fs, g.Faithful := fun g hg => h g (by simp [hg])
      have hf : f.Faithful := h f (by simp)
      rw [nested, ih hrest]
      cases f with
      | around token =>
          obtain ⟨htoken, hlead⟩ := hf
          simp [Frame.nested, Frame.value, Nested.tops, Nested.heights, Nested.height, Nested.top,
            Nested.lead_eq_zero (show (Nested.node token below).value.leading = 0 from hlead),
            Nested.layout_plain (.inl hlead), Nested.layouts, htoken, nodes, last, value, parent?,
            tops, heightAt, cursor, size, Frame.lead, Frame.nodes, Frame.tops, Frame.height]
      | between token left =>
          obtain ⟨-, hlead, hleft⟩ := hf
          obtain ⟨op, rfl⟩ := Token.leading_eq_one.mp hlead
          simp [Frame.nested, Frame.value, Nested.tops, Nested.heights, Nested.height, Nested.top,
            Nested.lead, Nested.layout, Nested.layouts, left.layout_nested hleft,
            left.height_nested hleft, nodes, last, value, parent?, tops, heightAt, cursor, size,
            Frame.lead, Frame.nodes, Frame.tops, Frame.height, Token.levels,
            ← Piece.top_nested hleft]

end Spine

namespace Draft

/-- The nodes of the draft are where the order of reading puts them, and no node brings other
levels than its token does. -/
structure Faithful (d : Draft Token) : Prop where
  levels : d.root.levels = 0
  leading : d.root.leading = 0
  frames : ∀ f ∈ d.frames, f.Faithful
  hung : ∀ p ∈ d.hung, p.Faithful

theorem Faithful.hang {d : Draft Token} (h : d.Faithful) {p : Piece Token} (hp : p.Faithful) :
    (d.hang p).Faithful := by
  refine ⟨h.levels, h.leading, h.frames, ?_⟩
  intro q hq
  rcases List.mem_append.mp hq with hq | hq
  · exact h.hung q hq
  · rw [List.mem_singleton.mp hq]
    exact hp

/-- **The nested tree that a draft shows determines its array.** -/
theorem arena_nested {d : Draft Token} (h : d.Faithful) : d.nested.arena = d.arena := by
  rw [Nested.arena, nested, Spine.layout_nested h.levels h.leading h.frames,
    Forest.tops_nested h.hung, Forest.heights_nested h.hung, Forest.layouts_nested h.hung]
  rfl

end Draft

end Formula
