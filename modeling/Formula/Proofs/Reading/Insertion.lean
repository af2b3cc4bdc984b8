/-
Putting operators into the tree.

A builder finds the place of an operator by comparing it with the operator at the cursor, and
climbs further if it binds looser.  Next to that, `reduce` is simple: it closes whatever binds
at least as tightly.  `insert_builder` says that both come to the same tree.

The builder climbs through the operators of the lower level only, and it never has to climb
past more than one of them: the open operators bind the more tightly the further inside they
are, and there are two levels.
-/
import Formula.Proofs.Reading.Sketch

namespace Formula

/-! ### Opening a bracket -/

theorem openParen_builder (root : Token) (parts : List OpenPart) :
    (partsDraft root parts none).builder.openParen =
      (partsDraft root (.bracket :: parts) none).builder := by
  have henter := Draft.enter_arena root (partsFrames parts) (Token.group .paren)
  have hsize := (partsDraft root parts none).size_arena
  have htree : Arena.add (partsDraft root parts none).arena (Spine.cursor (partsFrames parts))
      (Token.group .paren) 0 = (partsDraft root (.bracket :: parts) none).arena := henter
  show Builder.mk (Arena.add (partsDraft root parts none).arena (Spine.cursor (partsFrames parts))
    (Token.group .paren) 0) (partsDraft root parts none).arena.size = _
  rw [htree, hsize]
  rfl

/-! ### The place of an operator -/

theorem isOperand_piece (e : Expr) : e.piece.value.isOperand = true := by
  cases e <;> rw [Expr.piece] <;> rfl

/-- The token of an operand that has just been read. -/
theorem token_operand (root : Token) (parts : List OpenPart) (e : Expr) :
    Tree.token (partsDraft root parts (some e)).arena
      (e.piece.top (Spine.size (partsFrames parts))) = e.piece.value := by
  have htop := Draft.getElem?_top root (partsFrames parts) e.piece
  have hvalue : Arena.value? (partsDraft root parts (some e)).arena
      (e.piece.top (Spine.size (partsFrames parts))) = some e.piece.value := by
    rw [Arena.value?]
    exact congrArg (Option.map (·.value)) htop
  rw [Tree.token, hvalue]
  rfl

/-- The last child of the cursor is the operand that has just been read. -/
theorem lastChild?_operand (root : Token) (parts : List OpenPart) (e : Expr) :
    Arena.lastChild? (partsDraft root parts (some e)).arena (Spine.cursor (partsFrames parts)) =
      some (e.piece.top (Spine.size (partsFrames parts))) := by
  have hlast := Draft.lastChild?_arena root (partsFrames parts) [] e.piece
  rw [Forest.size, Nat.add_zero] at hlast
  exact hlast

/-- The nodes above the cursor. -/
theorem ancestors_builder (root : Token) (part : OpenPart) (parts : List OpenPart)
    (operand : Option Expr) :
    Arena.ancestors (partsDraft root (part :: parts) operand).arena
      (Spine.cursor (partsFrames (part :: parts))) = Spine.path (partsFrames parts) := by
  have hpath := (partsDraft root (part :: parts) operand).cons_ancestors_arena
  exact (List.cons.inj hpath).2

/-- A new operator above an expression that hangs, alone, below an open part. -/
theorem insert_wrap {b : Builder} {root : Token} {parts : List OpenPart} {e : Expr}
    {op : Operator} {place : Placement} (htree : b.tree = (partsDraft root parts (some e)).arena)
    (hleft : place.left = e.piece.top (Spine.size (partsFrames parts))) :
    b.insert op place = (partsDraft root (.operator op e :: parts) none).builder := by
  have hwrap := Draft.wrap_arena root (partsFrames parts) e.piece (Token.operator op)
  have hsize := (partsDraft root parts (some e)).size_arena
  have hgrown : Arena.wrap (partsDraft root parts (some e)).arena
      (e.piece.top (Spine.size (partsFrames parts))) (Token.operator op) =
        (partsDraft root (.operator op e :: parts) none).arena := hwrap
  rw [Builder.insert, htree, hleft, Tree.wrap, hgrown, hsize]
  simp only [partsDraft, Option.toList_some, List.map_cons, List.map_nil, Forest.size,
    Nat.add_zero]
  rfl

/-- The topmost node of an operator with both operands is the operator's node on the way. -/
theorem top_binary (op : Operator) (left e : Expr) (parts : List OpenPart) :
    (Expr.binary op left e).piece.top (Spine.size (partsFrames parts)) =
      Spine.cursor (partsFrames (.operator op left :: parts)) := by
  rw [Expr.piece]
  exact top_close (.between (.operator op) left.piece) (partsFrames parts) e.piece

/-- The three ways in which an operator may compare with the one at the cursor. -/
theorem compare_cases (current op : Operator) :
    (Operator.comparePrecedence current op = .gt ∧ current.level < op.level) ∨
    (Operator.comparePrecedence current op = .eq ∧ current.level = op.level) ∨
    (Operator.comparePrecedence current op = .lt ∧ op.level = 1 ∧ current.level = 2) := by
  cases current <;> cases op <;> decide

theorem path_eq_cons {α : Type} (fs : List (Frame α)) :
    ∃ tail, Spine.path fs = Spine.cursor fs :: tail := by
  cases fs with
  | nil => exact ⟨[], rfl⟩
  | cons f fs => exact ⟨_, rfl⟩

theorem operator_of_strength_ne {parts : List OpenPart} (h : strength parts ≠ 0) :
    ∃ op left rest, parts = .operator op left :: rest := by
  cases parts with
  | nil => exact absurd rfl h
  | cons part parts =>
      cases part with
      | bracket => exact absurd rfl h
      | operator op left => exact ⟨op, left, parts, rfl⟩

/-- The innermost open part is an operator of the lower level. -/
theorem any_term_headToken {root : Token} (hroot : root.operator? = none)
    (parts : List OpenPart) : (headToken root parts).operator?.any
      (fun op => decide (op.precedence = .term)) = decide (strength parts = 1) := by
  cases parts with
  | nil => rw [headToken, hroot]; rfl
  | cons part parts =>
      cases part with
      | bracket => rfl
      | operator op left =>
          have hlevel : op.precedence = .term ↔ op.level = 1 := by
            cases op <;> decide
          exact decide_eq_decide.mpr hlevel

/-- Climbing from the innermost open part passes an operator of the lower level that is right
around it, and nothing else. -/
theorem resurface_builder {root : Token} (hroot : root.operator? = none) (part : OpenPart)
    {parts : List OpenPart} (hparts : PartsOrdered parts) (operand : Option Expr) :
    (partsDraft root (part :: parts) operand).builder.resurface
        (Spine.cursor (partsFrames (part :: parts))) =
      if strength parts = 1 then Spine.cursor (partsFrames parts)
      else Spine.cursor (partsFrames (part :: parts)) := by
  have hancestors : Arena.ancestors (partsDraft root (part :: parts) operand).builder.tree
      (Spine.cursor (partsFrames (part :: parts))) = Spine.path (partsFrames parts) :=
    ancestors_builder root part parts operand
  have htoken : Tree.token (partsDraft root (part :: parts) operand).builder.tree
      (Spine.cursor (partsFrames parts)) = headToken root parts :=
    token_suffix (show _ = [part] ++ parts from rfl)
  rw [Builder.resurface, hancestors]
  by_cases hlower : strength parts = 1
  · -- The part around an operator of the lower level is no operator.
    obtain ⟨op, left, rest, rfl⟩ := operator_of_strength_ne (show strength parts ≠ 0 by omega)
    have hlast : strength rest ≠ 1 := by
      have habove := hparts.2.2.1
      rw [strength] at hlower
      omega
    have hnext : Tree.token
        (partsDraft root (part :: .operator op left :: rest) operand).builder.tree
          (Spine.cursor (partsFrames rest)) = headToken root rest :=
      token_suffix (show _ = [part, OpenPart.operator op left] ++ rest from rfl)
    have hpath : Spine.path (partsFrames (.operator op left :: rest)) =
        Spine.cursor (partsFrames (.operator op left :: rest)) ::
          Spine.path (partsFrames rest) := rfl
    obtain ⟨tail, htail⟩ := path_eq_cons (partsFrames rest)
    rw [hpath, List.takeWhile_cons, htoken, any_term_headToken hroot, decide_eq_true hlower,
      htail, List.takeWhile_cons, hnext, any_term_headToken hroot, decide_eq_false hlast,
      if_pos hlower]
    rfl
  · obtain ⟨tail, htail⟩ := path_eq_cons (partsFrames parts)
    rw [htail, List.takeWhile_cons, htoken, any_term_headToken hroot, decide_eq_false hlower,
      if_neg hlower]
    rfl

/-- **Inserting an operator is closing what binds at least as tightly**, and the operator then
waits for its right operand. -/
theorem insert_builder {root : Token} (hroot : root.operator? = none) {parts : List OpenPart}
    (hparts : PartsOrdered parts) (e : Expr) (op : Operator) :
    ∃ place, (partsDraft root parts (some e)).builder.placement? op = some place ∧
      (partsDraft root parts (some e)).builder.insert op place =
        (partsDraft root (.operator op (reduce op.level parts e).2 ::
          (reduce op.level parts e).1) none).builder := by
  have hcurrent := current_builder root parts (some e)
  have hlast : Arena.lastChild? (partsDraft root parts (some e)).builder.tree
      (partsDraft root parts (some e)).builder.cursor =
        some (e.piece.top (Spine.size (partsFrames parts))) := lastChild?_operand root parts e
  have htoken : Tree.token (partsDraft root parts (some e)).builder.tree
      (e.piece.top (Spine.size (partsFrames parts))) = e.piece.value :=
    token_operand root parts e
  have hfirst : (headToken root parts).operator? = none →
      (partsDraft root parts (some e)).builder.placement? op =
        some (.first (e.piece.top (Spine.size (partsFrames parts)))) := by
    intro hnone
    rw [Builder.placement?, hcurrent, hnone, hlast]
    simp [htoken, isOperand_piece]
  cases parts with
  | nil => exact ⟨_, hfirst hroot, insert_wrap rfl rfl⟩
  | cons part parts =>
      cases part with
      | bracket => exact ⟨_, hfirst rfl, insert_wrap rfl rfl⟩
      | operator current left =>
          obtain ⟨hleft, hlower, hstrength, hrest⟩ := hparts
          have hclose := arena_close root current left parts e
          rcases compare_cases current op with
              ⟨hcompare, hlt⟩ | ⟨hcompare, heq⟩ | ⟨hcompare, hone, htwo⟩
          · -- The operator takes the last operand only.
            refine ⟨.tighter current (e.piece.top (Spine.size (partsFrames
              (.operator current left :: parts)))), ?_, ?_⟩
            · rw [Builder.placement?, hcurrent, hlast]
              simp only [headToken, Token.operator?, hcompare]
            · rw [reduce, if_neg (Nat.not_le_of_lt hlt)]
              exact insert_wrap rfl rfl
          · -- The operator takes the one at the cursor with both operands.
            refine ⟨.level (Spine.cursor (partsFrames (.operator current left :: parts))), ?_, ?_⟩
            · rw [Builder.placement?, hcurrent, hlast]
              simp only [headToken, Token.operator?, hcompare]
              rfl
            · rw [reduce, if_pos (by omega), reduce_of_strength_lt _ (by omega)]
              exact insert_wrap hclose (top_binary current left e parts).symm
          · -- The operator also takes an operator of the lower level around the cursor.
            refine ⟨.looser current ((partsDraft root (.operator current left :: parts)
              (some e)).builder.resurface
                (Spine.cursor (partsFrames (.operator current left :: parts)))), ?_, ?_⟩
            · rw [Builder.placement?, hcurrent, hlast]
              simp only [headToken, Token.operator?, hcompare]
              rfl
            · rw [reduce, if_pos (by omega)]
              have hresurface :=
                resurface_builder hroot (.operator current left) hrest (some e)
              by_cases hzero : strength parts = 0
              · rw [if_neg (by omega)] at hresurface
                rw [reduce_of_strength_lt _ (by omega)]
                exact insert_wrap hclose
                  (hresurface.trans (top_binary current left e parts).symm)
              · obtain ⟨around, left', rest, rfl⟩ := operator_of_strength_ne hzero
                have habove := hrest.2.2.1
                rw [if_pos (by omega)] at hresurface
                rw [strength] at hstrength
                rw [reduce, if_pos (by omega), reduce_of_strength_lt _ (by omega)]
                have hclose' := arena_close root around left' rest (.binary current left e)
                exact insert_wrap (hclose.trans hclose')
                  (hresurface.trans (top_binary around left' _ rest).symm)

end Formula
