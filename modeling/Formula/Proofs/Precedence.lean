/-
The way to the cursor while a formula is read.

An operator that comes in looks at the cursor only: at the operator there, at its last child,
and at the operators of the lower level right above it.  That this is enough rests on where
the cursor can be.  `Machine.InPlace` says it for every step that a run takes on a tree, be it
the tree of the formula or the tree of an argument: the cursor is on the right edge of the
tree, at the root, at a pair of brackets or at an operator; at most two operators are around
it before the next brackets, and the inner one binds tighter; and what hangs below the cursor
is what the step needs.

The tree of a configuration is the tree of its open parts, so the way from the root to the
cursor is those parts one by one.  Open operators bind the more tightly the further inside
they are; there are two levels, so two operators at most are open between brackets, and
climbing past those of the lower level stops after one.
-/
import Formula.Proofs.Reading.Work

namespace Formula

/-! ### What is said -/

/-- The nodes that are reached from the root by going to the last child again and again. -/
inductive Arena.RightEdge {α : Type} (t : Arena α) : NodeId → Prop
  | root : RightEdge t Arena.root
  | last {id child : NodeId} (h : RightEdge t id) (hlast : t.lastChild? id = some child) :
      RightEdge t child

/-- At most one operator of each level, the tighter one first: if there are two, a product stands
in a sum. -/
inductive Operator.Nested : List Operator → Prop
  | none : Nested []
  | one (op : Operator) : Nested [op]
  | two {inner outer : Operator} (hinner : inner = .mul ∨ inner = .div)
      (houter : outer = .add ∨ outer = .sub) : Nested [inner, outer]

/-- Whether the token marks off a part of a formula. -/
def Token.isGroup : Token → Bool
  | .group _ => true
  | _ => false

namespace Builder

/-- The nodes that are met on the way up from the cursor, before the nearest group or root. -/
def met (b : Builder) : List NodeId :=
  b.path.takeWhile fun id => id ≠ Arena.root && !(b.tree.token id).isGroup

/-- Where the cursor of a tree with the given root is. -/
structure InPlace (root : Token) (b : Builder) : Prop where
  /-- The token at the root. -/
  token_root : b.tree.token Arena.root = root
  /-- The cursor is on the right edge of the tree. -/
  edge : b.tree.RightEdge b.cursor
  /-- The cursor is the root, a pair of brackets or an operator. -/
  holds : b.cursor = Arena.root ∨ b.current = .group .paren ∨ ∃ op, b.current = .operator op
  /-- At most two operators are met, and the inner one binds tighter. -/
  met : ∃ ops, b.met.map b.tree.token = ops.map .operator ∧ Operator.Nested ops
  /-- An operator that comes in has to climb one level at most. -/
  resurface : b.resurface b.cursor = b.cursor ∨
    b.tree.parent? b.cursor = some (b.resurface b.cursor)

/-- The cursor has room for a value: an operator has its left operand, anything else has
nothing below it. -/
def AwaitsValue (b : Builder) : Prop :=
  match b.current with
  | .operator _ => (b.tree.children b.cursor).length = 1
  | _ => b.tree.children b.cursor = []

/-- The cursor has its last value: an operator has both operands, anything else has one. -/
def AwaitsOperator (b : Builder) : Prop :=
  match b.current with
  | .operator _ => (b.tree.children b.cursor).length = 2
  | _ => ∃ id, b.tree.children b.cursor = [id] ∧ (b.tree.token id).isOperand = true

end Builder

/-- The cursor is where the next step needs it. -/
structure Machine.InPlace (m : Machine) : Prop where
  place : m.builder.InPlace (if m.calls = [] then .empty else .group .scope)
  value : m.state = .readValue → m.builder.AwaitsValue
  operator : m.state = .readOperator → m.builder.AwaitsOperator

/-! ### Drafts -/

namespace Draft

variable {α : Type}

/-- All nodes on the way are on the right edge. -/
theorem rightEdge_way {d : Draft α} {inner fs : List (Frame α)} (h : d.frames = inner ++ fs) :
    d.arena.RightEdge (Spine.cursor fs) := by
  induction fs generalizing inner with
  | nil => exact .root
  | cons f fs ih =>
      have habove : d.frames = (inner ++ [f]) ++ fs := by simpa using h
      exact .last (ih habove) (lastChild?_way h)

end Draft

/-! ### Open parts -/

/-- The operators that are open inside the innermost open brackets. -/
def openOperators : List OpenPart → List Operator
  | .operator op _ :: parts => op :: openOperators parts
  | _ => []

theorem openOperators_of_strength_eq_zero {parts : List OpenPart} (h : strength parts = 0) :
    openOperators parts = [] := by
  cases parts with
  | nil => rfl
  | cons part parts =>
      cases part with
      | bracket => rfl
      | operator op left => exact absurd h (Nat.ne_of_gt op.level_pos)

/-- An operator of the lower level has no open operator around it. -/
theorem strength_of_term {op : Operator} {left : Expr} {parts : List OpenPart}
    (h : PartsOrdered (.operator op left :: parts)) (hterm : op.level = 1) :
    strength parts = 0 := by
  have hstrength := h.2.2.1
  omega

/-- **There are two levels, so at most two operators are open.** -/
theorem nested_openOperators {parts : List OpenPart} (h : PartsOrdered parts) :
    Operator.Nested (openOperators parts) := by
  cases parts with
  | nil => exact .none
  | cons part parts =>
      cases part with
      | bracket => exact .none
      | operator inner left =>
          by_cases hzero : strength parts = 0
          · rw [openOperators, openOperators_of_strength_eq_zero hzero]
            exact .one inner
          · obtain ⟨outer, left', rest, rfl⟩ := operator_of_strength_ne hzero
            have hlt : outer.level < inner.level := h.2.2.1
            rcases inner.level_cases with ⟨-, hone⟩ | ⟨hinner, htwo⟩
            · have hpos := outer.level_pos
              omega
            · rcases outer.level_cases with ⟨houter, hone⟩ | ⟨-, htwo'⟩
              · rw [openOperators, openOperators,
                  openOperators_of_strength_eq_zero (strength_of_term h.tail hone)]
                exact .two hinner houter
              · omega

section

variable {root : Token} {parts : List OpenPart} {operand : Option Expr}

theorem cursor_cons_ne_root {α : Type} (f : Frame α) (fs : List (Frame α)) :
    Spine.cursor (f :: fs) ≠ Arena.root := by
  have hsize := Spine.length_lt_size fs
  show Spine.size fs + f.lead ≠ 0
  omega

/-- The nodes that are met on the way up hold the operators that are open. -/
theorem met_builder : (partsDraft root parts operand).builder.met.map
    (partsDraft root parts operand).builder.tree.token = (openOperators parts).map .operator := by
  have hway : ∀ inner rest, parts = inner ++ rest →
      ((Spine.path (partsFrames rest)).takeWhile fun id => id ≠ Arena.root &&
        !(Tree.token (partsDraft root parts operand).arena id).isGroup).map
          (Tree.token (partsDraft root parts operand).arena) =
        (openOperators rest).map .operator := by
    intro inner rest hparts
    induction rest generalizing inner with
    | nil => rfl
    | cons part rest ih =>
        have htoken : Tree.token (partsDraft root parts operand).arena
            (Spine.cursor (partsFrames (part :: rest))) = headToken root (part :: rest) :=
          token_suffix hparts
        have hne : Spine.cursor (partsFrames (part :: rest)) ≠ Arena.root :=
          cursor_cons_ne_root part.frame (partsFrames rest)
        have hpath : Spine.path (partsFrames (part :: rest)) =
            Spine.cursor (partsFrames (part :: rest)) :: Spine.path (partsFrames rest) := rfl
        rw [hpath, List.takeWhile_cons, htoken]
        cases part with
        | bracket => simp [headToken, Token.isGroup, openOperators]
        | operator op left =>
            have hrest := ih (inner ++ [.operator op left]) (by simpa using hparts)
            rw [if_pos (by simp [hne, headToken, Token.isGroup]), List.map_cons, htoken, hrest]
            rfl
  rw [Builder.met, Draft.path_builder]
  exact hway [] parts rfl

/-- **Climbing past operators of the lower level climbs one level at most.** -/
theorem resurface_climbs (hroot : root.operator? = none) (hparts : PartsOrdered parts) :
    (partsDraft root parts operand).builder.resurface (Spine.cursor (partsFrames parts)) =
        Spine.cursor (partsFrames parts) ∨
      Spine.parent? (partsFrames parts) = some ((partsDraft root parts operand).builder.resurface
        (Spine.cursor (partsFrames parts))) := by
  cases parts with
  | nil =>
      have hpath := (partsDraft root [] operand).cons_ancestors_arena
      have hnone : Arena.ancestors (partsDraft root [] operand).builder.tree
          (Spine.cursor (partsFrames [])) = [] := (List.cons.inj hpath).2
      refine .inl ?_
      rw [Builder.resurface, hnone]
      rfl
  | cons part parts =>
      rw [resurface_builder hroot part hparts.tail operand]
      split
      · exact .inr rfl
      · exact .inl rfl

/-- Where the cursor of a tree of open parts is. -/
theorem inPlace_builder (hroot : root.operator? = none) (hparts : PartsOrdered parts) :
    (partsDraft root parts operand).builder.InPlace root where
  token_root := (partsDraft root parts operand).token_root
  edge := Draft.rightEdge_way (show _ = [] ++ partsFrames parts from rfl)
  holds := by
    rw [current_builder]
    cases parts with
    | nil => exact .inl rfl
    | cons part parts =>
        cases part with
        | bracket => exact .inr (.inl rfl)
        | operator op left => exact .inr (.inr ⟨op, rfl⟩)
  met := ⟨openOperators parts, met_builder, nested_openOperators hparts⟩
  resurface := by
    have hparent : Arena.parent? (partsDraft root parts operand).arena
        (Spine.cursor (partsFrames parts)) = Spine.parent? (partsFrames parts) :=
      Draft.parent?_arena (show _ = [] ++ partsFrames parts from rfl)
    show _ ∨ Arena.parent? (partsDraft root parts operand).arena
      (Spine.cursor (partsFrames parts)) = _
    rw [hparent]
    exact resurface_climbs hroot hparts

/-- What hangs below the cursor: the left operand of an operator, and what has been read. -/
theorem children_builder : (partsDraft root parts operand).builder.tree.children
    (partsDraft root parts operand).builder.cursor =
      Spine.tops (partsFrames parts) ++
        Forest.tops (Spine.size (partsFrames parts)) (operand.toList.map Expr.piece) :=
  (partsDraft root parts operand).children_cursor

/-- The token at the cursor is an operator exactly if something is to its left. -/
theorem tops_cases (hroot : root.operator? = none) :
    (∃ op id, headToken root parts = .operator op ∧ Spine.tops (partsFrames parts) = [id]) ∨
      (headToken root parts).operator? = none ∧ Spine.tops (partsFrames parts) = [] := by
  cases parts with
  | nil => exact .inr ⟨hroot, rfl⟩
  | cons part parts =>
      cases part with
      | bracket => exact .inr ⟨rfl, rfl⟩
      | operator op left => exact .inl ⟨op, _, rfl, rfl⟩

theorem awaitsValue_builder (hroot : root.operator? = none) :
    (partsDraft root parts none).builder.AwaitsValue := by
  rw [Builder.AwaitsValue, current_builder, children_builder]
  rcases tops_cases hroot with ⟨op, id, htoken, htops⟩ | ⟨htoken, htops⟩
  · rw [htoken, htops]
    rfl
  · rw [htops]
    split
    · next heq =>
        rw [heq] at htoken
        cases htoken
    · rfl

theorem awaitsOperator_builder (hroot : root.operator? = none) (e : Expr) :
    (partsDraft root parts (some e)).builder.AwaitsOperator := by
  rw [Builder.AwaitsOperator, current_builder, children_builder]
  rcases tops_cases hroot with ⟨op, id, htoken, htops⟩ | ⟨htoken, htops⟩
  · rw [htoken, htops]
    rfl
  · rw [htops]
    split
    · next heq =>
        rw [heq] at htoken
        cases htoken
    · refine ⟨_, rfl, ?_⟩
      have hoperand := token_operand root parts e
      exact (congrArg Token.isOperand hoperand).trans (isOperand_piece e)

end

/-! ### Machines -/

namespace Machine

variable {limits : Limits} {outcome : Outcome} {m : Machine}

/-- Before a step on a tree, the machine holds the tree of some open parts. -/
theorem exists_parts (h : Tracks limits outcome m) (hactive : m.state.isTerminal = false) :
    ∃ c : Config, m.calls = pendingCalls c.outer ∧ c.Ordered ∧ m.builder = c.draft.builder ∧
      (m.state = .readValue → c.operand = none) ∧
        (m.state = .readOperator → c.operand ≠ none) := by
  cases h with
  | reading s _ hcarries hcursor _ hstate =>
      refine ⟨s.config, hcarries.calls, hcarries.ordered, builder_eq hcarries.tree hcursor,
        fun hexpected => ?_, fun hexpected hnone => ?_⟩
      · rw [hstate, Config.state] at hexpected
        split at hexpected
        · assumption
        · cases hexpected
      · rw [hstate, Config.state, hnone] at hexpected
        cases hexpected
  | inside s _ hcarries hcursor _ hpromises =>
      have hdone : m.state ≠ .done := by
        intro hdone
        rw [hdone] at hactive
        cases hactive
      refine ⟨s.config, hcarries.calls, hcarries.ordered,
        builder_eq hcarries.tree (hcursor.resolve_right hdone), ?_, ?_⟩
      all_goals
        intro hexpected
        rw [hexpected] at hpromises
        exact hpromises.elim
  | failing _ _ _ _ _ hfailed =>
      rw [hfailed] at hactive
      cases hactive
  | complete _ _ hdone =>
      rw [hdone] at hactive
      cases hactive

theorem inPlace_of_tracks (h : Tracks limits outcome m) (hactive : m.state.isTerminal = false) :
    m.InPlace := by
  obtain ⟨c, hcalls, hordered, hbuilder, hvalue, hoperator⟩ := exists_parts h hactive
  have hroot := operator?_rootToken c.outer
  refine ⟨?_, fun hstate => ?_, fun hstate => ?_⟩
  · have hplace : m.builder.InPlace (rootToken c.outer) := by
      rw [hbuilder]
      exact inPlace_builder hroot hordered.parts
    rw [hcalls]
    cases houter : c.outer <;> simpa [houter, pendingCalls, rootToken] using hplace
  · rw [hbuilder, Config.draft, hvalue hstate]
    exact awaitsValue_builder hroot
  · obtain ⟨e, hoperand⟩ := Option.ne_none_iff_exists'.mp (hoperator hstate)
    rw [hbuilder, Config.draft, hoperand]
    exact awaitsOperator_builder hroot e

/-- **Before every step on a tree the cursor is where the step needs it**, whatever the text
and the limits are. -/
theorem run_inPlace (limits : Limits) (source : String) (n : Nat)
    (h : ((start source).run limits n).state.isTerminal = false) :
    ((start source).run limits n).InPlace :=
  inPlace_of_tracks (tracks_run (tracks_start limits source) n) h

/-- The cursor is at a product in a sum in brackets in an argument. -/
theorem inPlace_of_product :
    ((start "2*f(1-(3+4*5)").run ⟨9, 9, 9⟩ 12).state.isTerminal = false ∧
      ((start "2*f(1-(3+4*5)").run ⟨9, 9, 9⟩ 12).InPlace :=
  have hactive : ((start "2*f(1-(3+4*5)").run ⟨9, 9, 9⟩ 12).state.isTerminal = false := by
    decide +kernel
  ⟨hactive, run_inPlace ⟨9, 9, 9⟩ "2*f(1-(3+4*5)" 12 hactive⟩

end Machine

end Formula
