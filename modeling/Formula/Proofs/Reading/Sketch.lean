/-
The trees of configurations.

What is open around the place of reading is the way from the root to the cursor, and an
operand that has just been read hangs below the cursor.  So a configuration has a draft, and
the draft has a tree: `Config.draft`.  A builder holds that tree and that cursor, and this is
what the moves of a builder do to it:

  * an operator is put above what `reduce` closes, `insert_builder`;
  * a bracket opens a new part, `openParen_builder`, and a closing bracket finds the part that
    `enclose` finds, `closing?_builder`;
  * anything else is hung below the cursor, `attach_builder`.

That the cursor stays at an operator whose right operand is complete makes no difference: a
part that is open around a complete operand has the same nodes as the part closed,
`arena_close`.
-/
import Formula.Proofs.Grammar.Pieces
import Formula.Proofs.Reading.Soundness
import Formula.Reading.Machine

namespace Formula

/-! ### Drafts of open parts -/

/-- The node of an open part. -/
def OpenPart.frame : OpenPart → Frame Token
  | bracket => .around (.group .paren)
  | operator op left => .between (.operator op) left.piece

/-- The way through open parts. -/
def partsFrames (parts : List OpenPart) : List (Frame Token) := parts.map OpenPart.frame

/-- The tree of open parts around an operand, if there is one. -/
def partsDraft (root : Token) (parts : List OpenPart) (operand : Option Expr) : Draft Token :=
  ⟨root, partsFrames parts, operand.toList.map Expr.piece⟩

/-- The root of the tree at hand, which is an argument if there are calls around it. -/
def rootToken : List OpenCall → Token
  | [] => .empty
  | _ :: _ => .group .scope

/-- The tree at hand. -/
def Config.draft (c : Config) : Draft Token := partsDraft (rootToken c.outer) c.parts c.operand

/-- The builder that holds the tree of a draft. -/
def Draft.builder (d : Draft Token) : Builder := ⟨d.arena, d.cursor⟩

theorem height_operand (operand : Option Expr) :
    Forest.height (operand.toList.map Expr.piece) = formulaHeight operand := by
  cases operand with
  | none => rfl
  | some e => simp [Forest.height, formulaHeight, e.height_piece]

theorem height_partsFrames (h : Nat) (parts : List OpenPart) :
    Spine.height h (partsFrames parts) = partsHeight h parts := by
  induction parts generalizing h with
  | nil => rfl
  | cons part parts ih =>
      cases part with
      | bracket => exact ih (h + 1)
      | operator op left =>
          show Spine.height (max (left.piece.height + 1) h + 1) (partsFrames parts) = _
          rw [left.height_piece, ih]
          rfl

theorem height_partsDraft (root : Token) (parts : List OpenPart) (operand : Option Expr) :
    (partsDraft root parts operand).height = partsHeight (formulaHeight operand) parts := by
  rw [Draft.height, partsDraft]
  simp only
  rw [height_operand, height_partsFrames]

theorem height_draft (c : Config) : c.draft.arena.height = c.height := by
  rw [Draft.height_arena]
  exact height_partsDraft _ _ _

/-- What is true of all tokens in the tree of open parts around an operand. -/
theorem forall_values_partsDraft {P : Token → Prop} {root : Token} {parts : List OpenPart}
    {operand : Option Expr} (hroot : P root) (hbracket : P (.group .paren))
    (hoperator : ∀ op, P (.operator op))
    (hleft : ∀ op left, .operator op left ∈ parts → ∀ token ∈ left.piece.values, P token)
    (hoperand : ∀ e ∈ operand, ∀ token ∈ e.piece.values, P token) :
    ∀ token ∈ (partsDraft root parts operand).values, P token := by
  intro token htoken
  rcases List.mem_cons.mp htoken with rfl | htoken
  · exact hroot
  · rcases List.mem_append.mp htoken with htoken | htoken
    · obtain ⟨f, hf, hin⟩ := List.mem_flatMap.mp htoken
      obtain ⟨part, hpart, rfl⟩ := List.mem_map.mp (List.mem_reverse.mp hf)
      cases part with
      | bracket =>
          rw [List.mem_singleton.mp hin]
          exact hbracket
      | operator op left =>
          rcases List.mem_append.mp hin with hin | hin
          · exact hleft op left hpart token hin
          · rw [List.mem_singleton.mp hin]
            exact hoperator op
    · obtain ⟨p, hp, hin⟩ := List.mem_flatMap.mp htoken
      obtain ⟨e, he, rfl⟩ := List.mem_map.mp hp
      exact hoperand e (by simpa using he) token hin

/-- No token of a configuration is the mark of a failure or has one inside. -/
theorem isClean_partsDraft {root : Token} (hroot : root.IsClean) (parts : List OpenPart)
    (operand : Option Expr) : ∀ t ∈ (partsDraft root parts operand).values, t.IsClean :=
  forall_values_partsDraft hroot ⟨rfl, rfl⟩ (fun _ => ⟨rfl, rfl⟩)
    (fun _ left _ => left.isClean_piece) fun e _ => e.isClean_piece

theorem isClean_rootToken (outer : List OpenCall) : (rootToken outer).IsClean := by
  cases outer <;> exact ⟨rfl, rfl⟩

/-! ### Closing a part -/

/-- The topmost node of a part that has been closed is its node on the way. -/
theorem top_close {α : Type} (f : Frame α) (fs : List (Frame α)) (p : Piece α) :
    (f.close p).top (Spine.size fs) = Spine.cursor (f :: fs) := by
  cases f <;> rfl

/-- An operator around its right operand has the same nodes as the expression of both. -/
theorem arena_close (root : Token) (op : Operator) (left : Expr) (parts : List OpenPart)
    (e : Expr) : (partsDraft root (.operator op left :: parts) (some e)).arena =
      (partsDraft root parts (some (.binary op left e))).arena := by
  have hclose := Draft.close_arena root (.between (.operator op) left.piece) (partsFrames parts)
    e.piece
  rw [partsDraft, partsDraft]
  simp only [partsFrames, List.map_cons, Option.toList_some, List.map_nil, Expr.piece]
  exact hclose

/-- A complete argument has the same nodes wherever the cursor has been left. -/
theorem arena_enclose {root : Token} {parts : List OpenPart} {e inner : Expr}
    (h : enclose parts e = (inner, none)) :
    (partsDraft root parts (some e)).arena = (partsDraft root [] (some inner)).arena := by
  induction parts generalizing e with
  | nil =>
      obtain ⟨rfl, -⟩ := Prod.mk.inj h
      rfl
  | cons part parts ih =>
      cases part with
      | bracket => cases h
      | operator op left =>
          rw [arena_close]
          exact ih h

/-- A pair of brackets around what has been read has the same nodes open and closed. -/
theorem arena_paren {root : Token} {parts rest : List OpenPart} {e inner : Expr}
    (h : enclose parts e = (inner, some rest)) :
    (partsDraft root parts (some e)).arena =
      (partsDraft root rest (some (.paren inner))).arena := by
  induction parts generalizing e with
  | nil => cases h
  | cons part parts ih =>
      cases part with
      | bracket =>
          obtain ⟨rfl, hrest⟩ := Prod.mk.inj h
          obtain rfl := Option.some.inj hrest
          have hclose := Draft.close_arena root (.around (.group .paren)) (partsFrames parts)
            e.piece
          rw [partsDraft, partsDraft]
          simp only [partsFrames, List.map_cons, Option.toList_some, List.map_nil, Expr.piece]
          exact hclose
      | operator op left =>
          rw [arena_close]
          exact ih h

/-! ### Looking at the tree -/

namespace Draft

variable {d : Draft Token}

/-- The token of a node on the way. -/
theorem token_arena {inner fs : List (Frame Token)} (h : d.frames = inner ++ fs) :
    Tree.token d.arena (Spine.cursor fs) = Spine.value d.root fs := by
  rw [Tree.token, value?_arena h]
  rfl

theorem token_root (d : Draft Token) : Tree.token d.arena Arena.root = d.root :=
  token_arena (show d.frames = d.frames ++ [] by simp)

theorem path_builder (d : Draft Token) : d.builder.path = Spine.path d.frames :=
  d.cons_ancestors_arena

theorem attach_builder (d : Draft Token) (token : Token) :
    d.builder.attach token = (d.hang (.leaf token token.levels)).builder := by
  have hadd := d.add_arena token token.levels
  rw [Builder.attach, builder, builder, Tree.add]
  simp only [hadd]
  rfl

end Draft

/-- The token at the cursor. -/
def headToken (root : Token) : List OpenPart → Token
  | [] => root
  | .bracket :: _ => .group .paren
  | .operator op _ :: _ => .operator op

theorem current_builder (root : Token) (parts : List OpenPart) (operand : Option Expr) :
    (partsDraft root parts operand).builder.current = headToken root parts := by
  have htoken := Draft.token_arena
    (show (partsDraft root parts operand).frames = [] ++ partsFrames parts from rfl)
  rw [Builder.current]
  refine Eq.trans htoken ?_
  cases parts with
  | nil => rfl
  | cons part parts => cases part <;> rfl

theorem isArgument_builder (root : Token) (parts : List OpenPart) (operand : Option Expr) :
    (partsDraft root parts operand).builder.isArgument =
      match root with
      | .group .scope => true
      | _ => false := by
  have htoken := (partsDraft root parts operand).token_root
  rw [Builder.isArgument]
  show (match Tree.token (partsDraft root parts operand).arena Arena.root with
    | .group .scope => true
    | _ => false) = _
  rw [htoken]
  rfl

/-- The token of a node on the way through open parts. -/
theorem token_suffix {root : Token} {parts inner rest : List OpenPart} {operand : Option Expr}
    (h : parts = inner ++ rest) :
    Tree.token (partsDraft root parts operand).arena (Spine.cursor (partsFrames rest)) =
      headToken root rest := by
  have hframes : (partsDraft root parts operand).frames =
      partsFrames inner ++ partsFrames rest := by
    rw [partsDraft, h]
    simp [partsFrames]
  rw [Draft.token_arena hframes]
  cases rest with
  | nil => rfl
  | cons part rest => cases part <;> rfl

/-- A bracket is open if there is one on the way. -/
theorem openParen?_builder {root : Token} (hroot : root.isParen = false) (parts : List OpenPart)
    (operand : Option Expr) : (partsDraft root parts operand).builder.openParen?.isSome =
      decide (openBrackets parts ≠ 0) := by
  have hfind : ∀ inner rest, parts = inner ++ rest →
      ((Spine.path (partsFrames rest)).find? fun id =>
        (Tree.token (partsDraft root parts operand).arena id).isParen).isSome =
          decide (openBrackets rest ≠ 0) := by
    intro inner rest hparts
    induction rest generalizing inner with
    | nil =>
        have htoken := @token_suffix root parts inner [] operand hparts
        show (List.find? _ [Spine.cursor (partsFrames [])]).isSome = _
        rw [List.find?_cons, htoken, headToken, hroot]
        rfl
    | cons part rest ih =>
        have htoken := @token_suffix root parts inner (part :: rest) operand hparts
        have hrest := ih (inner ++ [part]) (by simpa using hparts)
        show (List.find? _ (Spine.cursor (partsFrames (part :: rest)) ::
          Spine.path (partsFrames rest))).isSome = _
        rw [List.find?_cons, htoken]
        cases part with
        | bracket => simp [headToken, Token.isParen, openBrackets]
        | operator op left =>
            rw [openBrackets, ← hrest]
            rfl
  have hpath := (partsDraft root parts operand).path_builder
  rw [Builder.openParen?, hpath]
  exact hfind [] parts rfl

/-- What a closing bracket closes. -/
def closes (root : Token) : List OpenPart → Option Closing
  | [] =>
    match root with
    | .group .scope => some (.call Arena.root)
    | _ => none
  | .bracket :: parts => some (.group (Spine.cursor (partsFrames parts)))
  | .operator _ _ :: parts => closes root parts

/-- What a node on the way through open parts is to a closing bracket. -/
theorem closingAt_builder {root : Token} (hroot : root.isParen = false)
    {parts inner rest : List OpenPart} (operand : Option Expr) (h : parts = inner ++ rest) :
    (partsDraft root parts operand).builder.closingAt (Spine.cursor (partsFrames rest)) =
      match rest with
      | .operator _ _ :: _ => none
      | _ => closes root rest := by
  have htoken : Tree.token (partsDraft root parts operand).builder.tree
      (Spine.cursor (partsFrames rest)) = headToken root rest := token_suffix h
  rw [Builder.closingAt, htoken]
  cases rest with
  | nil =>
      rw [headToken]
      cases root with
      | group bracket =>
          cases bracket with
          | paren => simp [Token.isParen] at hroot
          | scope => rfl
      | _ => rfl
  | cons part rest =>
      cases part with
      | operator op left => rfl
      | bracket =>
          have hframes : (partsDraft root parts operand).frames =
              partsFrames inner ++ (OpenPart.bracket.frame :: partsFrames rest) := by
            rw [partsDraft, h]
            simp [partsFrames]
          have hparent : Arena.parent? (partsDraft root parts operand).builder.tree
              (Spine.cursor (partsFrames (.bracket :: rest))) =
                some (Spine.cursor (partsFrames rest)) := Draft.parent?_arena hframes
          show (Arena.parent? _ (Spine.cursor (partsFrames (.bracket :: rest)))).map _ = _
          rw [hparent]
          rfl

theorem closing?_builder {root : Token} (hroot : root.isParen = false) (parts : List OpenPart)
    (operand : Option Expr) :
    (partsDraft root parts operand).builder.closing? = closes root parts := by
  have hfind : ∀ inner rest, parts = inner ++ rest →
      (Spine.path (partsFrames rest)).findSome? (partsDraft root parts operand).builder.closingAt =
        closes root rest := by
    intro inner rest hparts
    induction rest generalizing inner with
    | nil =>
        have hat := closingAt_builder hroot operand hparts
        show List.findSome? _ [Spine.cursor (partsFrames [])] = _
        rw [List.findSome?_cons, hat]
        cases closes root [] <;> rfl
    | cons part rest ih =>
        have hat := closingAt_builder hroot operand hparts
        have hrest := ih (inner ++ [part]) (by simpa using hparts)
        show List.findSome? _ (Spine.cursor (partsFrames (part :: rest)) ::
          Spine.path (partsFrames rest)) = _
        rw [List.findSome?_cons, hat, hrest]
        cases part <;> rfl
  have hpath := (partsDraft root parts operand).path_builder
  rw [Builder.closing?, hpath]
  exact hfind [] parts rfl

end Formula
