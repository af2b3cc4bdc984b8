/-
The trees of expressions.

An expression becomes a piece of a tree: an operator is a node between its operands, a pair
of brackets is a node around the expression inside, and everything else is a leaf.  A call is
a leaf as well; the trees of its arguments are inside its token, each below a root that marks
the scope of the argument.

What is said about expressions is found again in their trees: the height, what the tree shows
from the root downwards, and that no mark of a failure is in it.
-/
import Formula.Proofs.Arena.Fold
import Formula.Proofs.Grammar.Expr

namespace Formula

namespace Expr

/-! ### Pieces -/

mutual

/-- The piece of a tree that an expression becomes. -/
def piece : Expr → Piece Token
  | number value => .leaf (.number value) 0
  | text content => .leaf (.text content) 0
  | name n => .leaf (.identifier n) 0
  | call f arguments => .leaf (.call f (trees arguments)) (Token.call f (trees arguments)).levels
  | paren inner => .around (.group .paren) inner.piece
  | binary op left right => .between (.operator op) left.piece right.piece

/-- The trees of the arguments of a call. -/
def trees : List Expr → List Tree
  | [] => []
  | e :: es => (Draft.mk (.group .scope) [] [e.piece]).arena :: trees es

end

/-- The tree of an argument of a call. -/
def argumentTree (e : Expr) : Tree := (Draft.mk (.group .scope) [] [e.piece]).arena

theorem trees_eq_map (es : List Expr) : trees es = es.map argumentTree := by
  induction es with
  | nil => rfl
  | cons e es ih => rw [trees, ih]; rfl

/-! ### Heights -/

theorem height_argumentTree (e : Expr) : e.argumentTree.height = e.piece.height + 1 := by
  rw [argumentTree, Draft.height_arena]
  simp [Draft.height, Spine.height, Forest.height]

mutual

/-- The height of an expression is that of its piece. -/
theorem height_piece (e : Expr) : e.piece.height = e.height := by
  cases e with
  | number | text | name => rw [piece, height]; rfl
  | call f es => rw [piece, height, Piece.height, levels_call f es]
  | paren inner => rw [piece, height, Piece.height, height_piece inner]
  | binary op left right =>
      rw [piece, height, Piece.height, height_piece left, height_piece right]

theorem levels_call (f : String) (es : List Expr) :
    (Token.call f (trees es)).levels = listHeight es := by
  cases es with
  | nil => rw [trees, listHeight]; rfl
  | cons e es =>
      have hrest := levels_call f es
      have hfirst := height_argumentTree e
      rw [height_piece e, argumentTree] at hfirst
      rw [Token.levels] at hrest ⊢
      rw [trees, listHeight, List.map_cons, List.foldl_cons, Nat.max_comm, List.foldl_assoc,
        hrest, hfirst]

end

/-! ### What the trees show -/

mutual

/-- What the tree of an expression shows. -/
def view : Expr → Nested Label
  | number value => .node (.number value) []
  | text content => .node (.text content) []
  | name n => .node (.identifier n) []
  | call f arguments => .node (.call f (views arguments)) []
  | paren inner => .node (.group .paren) [inner.view]
  | binary op left right => .node (.operator op) [left.view, right.view]

/-- What the trees of the arguments of a call show. -/
def views : List Expr → List (Option (Nested Label))
  | [] => []
  | e :: es => some (.node (.group .scope) [e.view]) :: views es

end

mutual

theorem view_piece (e : Expr) : (e.piece.map Token.label).nested = e.view := by
  cases e with
  | number | text | name => rw [piece, view]; rfl
  | call f es => rw [piece, view, Piece.map, Piece.nested, Token.label_call, views_trees es]
  | paren inner => rw [piece, view, Piece.map, Piece.nested, view_piece inner]; rfl
  | binary op left right =>
      rw [piece, view, Piece.map, Piece.nested, view_piece left, view_piece right]
      rfl

theorem views_trees (es : List Expr) : (trees es).map Tree.view? = views es := by
  cases es with
  | nil => rw [trees, views]; rfl
  | cons e es =>
      rw [trees, views, List.map_cons, views_trees es, Draft.view?_arena, ← view_piece e]
      rfl

end

/-! ### Tokens -/

/-- A property of expressions that the expressions inside share. -/
structure Inherited (R : Expr → Prop) : Prop where
  call : ∀ {f arguments}, R (.call f arguments) → ∀ e ∈ arguments, R e
  paren : ∀ {inner}, R (.paren inner) → R inner
  left : ∀ {op left right}, R (.binary op left right) → R left
  right : ∀ {op left right}, R (.binary op left right) → R right

theorem Inherited.and {R S : Expr → Prop} (hR : Inherited R) (hS : Inherited S) :
    Inherited fun e => R e ∧ S e where
  call h e he := ⟨hR.call h.1 e he, hS.call h.2 e he⟩
  paren h := ⟨hR.paren h.1, hS.paren h.2⟩
  left h := ⟨hR.left h.1, hS.left h.2⟩
  right h := ⟨hR.right h.1, hS.right h.2⟩

theorem inherited_layered : Inherited Layered where
  call h := (allLayered_iff _).mp h
  paren h := h
  left h := h.1
  right h := h.2.1

/-- The words of an expression are among those of the expressions around it. -/
theorem Inherited.of_words {R : List Word → Prop}
    (h : ∀ {us ws : List Word}, us ⊆ ws → R ws → R us) : Inherited fun e => R e.words where
  call hR e he := h (fun w hw => by rw [words]; simp [mem_listWords he hw]) hR
  paren hR := h (fun w hw => by rw [words]; simp [hw]) hR
  left hR := h (fun w hw => by rw [words]; simp [hw]) hR
  right hR := h (fun w hw => by rw [words]; simp [hw]) hR

/-- Expressions with the property `R` become tokens with the property `P`.  For a call this may
rest on the tokens of its arguments. -/
structure Yields (R : Expr → Prop) (P : Token → Prop) : Prop where
  number : ∀ {value}, R (.number value) → P (.number value)
  text : ∀ content, P (.text content)
  name : ∀ {n}, R (.name n) → P (.identifier n)
  call : ∀ {f arguments}, R (.call f arguments) →
    (∀ e ∈ arguments, ∀ token ∈ e.piece.values, P token) → P (.call f (trees arguments))
  group : P (.group .paren)
  operator : ∀ op, P (.operator op)

section

variable {R : Expr → Prop} {P : Token → Prop}

mutual

/-- What is true of all tokens of an expression. -/
theorem forall_values_piece (hR : Inherited R) (hP : Yields R P) (e : Expr) (he : R e) :
    ∀ token ∈ e.piece.values, P token := by
  cases e with
  | number value => simpa [piece, Piece.values] using hP.number he
  | text content => simpa [piece, Piece.values] using hP.text content
  | name n => simpa [piece, Piece.values] using hP.name he
  | call f es =>
      have harguments := forall_values_pieces hR hP es (hR.call he)
      simpa [piece, Piece.values] using hP.call he harguments
  | paren inner =>
      have hinner := forall_values_piece hR hP inner (hR.paren he)
      simpa [piece, Piece.values] using ⟨hP.group, hinner⟩
  | binary op left right =>
      have hleft := forall_values_piece hR hP left (hR.left he)
      have hright := forall_values_piece hR hP right (hR.right he)
      rw [piece, Piece.values]
      intro token htoken
      rcases List.mem_append.mp htoken with htoken | htoken
      · exact hleft token htoken
      · rcases List.mem_cons.mp htoken with rfl | htoken
        · exact hP.operator op
        · exact hright token htoken

theorem forall_values_pieces (hR : Inherited R) (hP : Yields R P) (es : List Expr)
    (hes : ∀ e ∈ es, R e) : ∀ e ∈ es, ∀ token ∈ e.piece.values, P token := by
  cases es with
  | nil => simp
  | cons d es =>
      have hfirst := forall_values_piece hR hP d (hes d (by simp))
      have hrest := forall_values_pieces hR hP es fun e he => hes e (by simp [he])
      exact List.forall_mem_cons.mpr ⟨hfirst, hrest⟩

end

end

/-- What is true of all tokens of an expression below a root. -/
theorem forall_values_below {P : Token → Prop} {root : Token} (hroot : P root) {f : Option Expr}
    (hf : ∀ e ∈ f, ∀ token ∈ e.piece.values, P token) :
    ∀ token ∈ (Draft.mk root [] (f.toList.map piece)).values, P token := by
  cases f with
  | none => simpa [Draft.values] using hroot
  | some e => simpa [Draft.values] using ⟨hroot, hf e rfl⟩

end Expr

/-! ### No mark of a failure -/

/-- Neither the token nor, if it is a call, any tree inside it has the mark of a failure. -/
def Token.IsClean (token : Token) : Prop := token.marks = [] ∧ token.errors = 0

theorem Tree.total_eq_zero {ns : List Nat} (h : ∀ n ∈ ns, n = 0) : total ns = 0 := by
  induction ns with
  | nil => rfl
  | cons n ns ih =>
      have hn := h n (by simp)
      subst hn
      exact ih fun n hn => h n (by simp [hn])

namespace Draft

/-- The tree of a draft without marks has none. -/
theorem marks_of_isClean {d : Draft Token} (h : ∀ t ∈ d.values, t.IsClean) :
    Tree.marks d.arena = [] ∧ Tree.errorCount d.arena = 0 := by
  constructor
  · rw [marks_arena, List.flatMap_eq_nil_iff]
    exact fun t ht => (h t ht).1
  · rw [errorCount_arena]
    refine Tree.total_eq_zero ?_
    intro n hn
    obtain ⟨t, ht, rfl⟩ := List.mem_map.mp hn
    exact (h t ht).2

end Draft

namespace Expr

/-- The trees of arguments without marks have none. -/
theorem marks_trees {es : List Expr}
    (h : ∀ e ∈ es, ∀ token ∈ e.piece.values, token.IsClean) :
    (trees es).flatMap Tree.marks = [] ∧ Tree.total ((trees es).map Tree.errorCount) = 0 := by
  have htrees : ∀ t ∈ trees es, t.marks = [] ∧ t.errorCount = 0 := by
    rw [trees_eq_map]
    intro t ht
    obtain ⟨e, he, rfl⟩ := List.mem_map.mp ht
    refine Draft.marks_of_isClean (forall_values_below ⟨rfl, rfl⟩ (f := some e) ?_)
    intro d hd
    obtain rfl := Option.some.inj hd
    exact h e he
  constructor
  · rw [List.flatMap_eq_nil_iff]
    exact fun t ht => (htrees t ht).1
  · refine Tree.total_eq_zero ?_
    intro n hn
    obtain ⟨t, ht, rfl⟩ := List.mem_map.mp hn
    exact (htrees t ht).2

/-- No token of an expression is the mark of a failure or has one inside. -/
theorem isClean_piece (e : Expr) : ∀ t ∈ e.piece.values, t.IsClean := by
  have hR : Inherited fun _ => True :=
    ⟨fun _ _ _ => trivial, fun _ => trivial, fun _ => trivial, fun _ => trivial⟩
  refine forall_values_piece hR ⟨fun _ => ⟨rfl, rfl⟩, fun _ => ⟨rfl, rfl⟩, fun _ => ⟨rfl, rfl⟩,
    fun _ harguments => ?_, ⟨rfl, rfl⟩, fun _ => ⟨rfl, rfl⟩⟩ e trivial
  obtain ⟨hmarks, herrors⟩ := marks_trees harguments
  exact ⟨by rw [Token.marks_call, hmarks], by rw [Token.errors_call, herrors]⟩

theorem isClean_trees (es : List Expr) :
    (trees es).flatMap Tree.marks = [] ∧ Tree.total ((trees es).map Tree.errorCount) = 0 :=
  marks_trees fun e _ => e.isClean_piece

end Expr

/-! ### Formulas -/

/-- The tree of a formula: the expression, if there is one, below an empty root. -/
def formulaDraft (f : Option Expr) : Draft Token := ⟨.empty, [], f.toList.map Expr.piece⟩

/-- What the tree of a formula shows. -/
def formulaView (f : Option Expr) : Nested Label := .node .empty (f.toList.map Expr.view)

theorem view?_formulaDraft (f : Option Expr) :
    Tree.view? (formulaDraft f).arena = some (formulaView f) := by
  rw [Draft.view?_arena]
  cases f with
  | none => rfl
  | some e =>
      show some (Nested.node Label.empty [(e.piece.map Token.label).nested]) = _
      rw [e.view_piece]
      rfl

/-- The height of a formula is the height of its tree. -/
theorem height_formulaDraft (f : Option Expr) :
    (formulaDraft f).arena.height = formulaHeight f := by
  rw [Draft.height_arena]
  cases f with
  | none => rfl
  | some e =>
      simp [formulaDraft, Draft.height, Spine.height, Forest.height, formulaHeight, e.height_piece]

theorem isClean_formulaDraft (f : Option Expr) : ∀ t ∈ (formulaDraft f).values, t.IsClean :=
  Expr.forall_values_below ⟨rfl, rfl⟩ fun e _ => e.isClean_piece

end Formula
