/-
The trees of results are grown.

The pieces of expressions have the build that `Tree.Grown` asks for, since the expressions are
in layers.  What is open around the place of reading has it as well once something hangs below
the cursor: an operand, the mark of a failure, or a call that has been cut off.  So every tree
that reading leaves behind is grown, and by `Grown.part` every tree inside it (`grown_parse`).
-/
import Formula.Proofs.Marks
import Formula.Proofs.Reading.Stops
import Formula.Proofs.Tree.Grown

namespace Formula

/-! ### Nodes with the right children -/

namespace Token

theorem fits_leaf {token : Token} (h : token.arity = 0) : token.Fits [] :=
  ⟨.inl ⟨Nat.zero_le _, fun _ => h.symm, by simp⟩, by simp, by simp⟩

theorem fits_one {token operand : Token} (h : token.arity = 1) (hoperand : operand.isOperand) :
    token.Fits [operand] := by
  refine ⟨.inl ⟨Nat.le_of_eq h.symm, fun _ => h.symm, by simpa using hoperand⟩, ?_, by simp⟩
  rintro op inner rfl -
  cases h

theorem fits_two {op : Operator} {left right : Token} (hleft : left.isOperand)
    (hright : right.isOperand) (hlower : ∀ inner, left = .operator inner → op.level ≤ inner.level)
    (hupper : ∀ inner, right = .operator inner → op.level < inner.level) :
    (Token.operator op).Fits [left, right] := by
  refine ⟨.inl ⟨Nat.le_refl _, fun _ => rfl, ?_⟩, ?_, ?_⟩
  · intro operand hmem
    rcases List.mem_cons.mp hmem with rfl | hmem
    · exact hleft
    · rw [List.mem_singleton.mp hmem]
      exact hright
  · rintro other inner hop hinner
    obtain rfl := Token.operator.inj hop
    exact hlower inner (Option.some.inj hinner)
  · rintro other inner hop hinner
    obtain rfl := Token.operator.inj hop
    exact hupper inner (Option.some.inj hinner)

end Token

/-- Every node of the tree has the children that its token calls for. -/
def Nested.Fits (n : Nested Token) : Prop :=
  ∀ s ∈ n.subtrees, s.value.Fits (s.children.map Nested.value)

theorem Nested.fits_node {token : Token} {children : List (Nested Token)}
    (h : token.Fits (children.map value)) (hchildren : ∀ c ∈ children, c.Fits) :
    (node token children).Fits := by
  intro s hs
  rcases mem_subtrees.mp hs with rfl | ⟨c, hc, hsc⟩
  · exact h
  · exact hchildren c hc s hsc

/-! ### Expressions -/

namespace Expr

/-- The topmost token of an expression is an operand, and an operator only in the layer of
that operator. -/
theorem value_piece (e : Expr) : e.piece.nested.value.isOperand = true ∧
    ∀ op, e.piece.nested.value = .operator op → e.level = op.level := by
  cases e <;> rw [piece] <;>
    simp [Piece.nested, Nested.value, Token.isOperand, Token.category, level]

theorem faithful_piece : (e : Expr) → e.piece.Faithful
  | number _ | text _ | name _ => by rw [piece]; rfl
  | call _ _ => by rw [piece]; rfl
  | paren inner => by rw [piece]; exact ⟨rfl, rfl, faithful_piece inner⟩
  | binary _ left right => by
    rw [piece]
    exact ⟨rfl, rfl, faithful_piece left, faithful_piece right⟩

/-- The operands of an operator in layers do not bind less tightly than they may. -/
theorem fits_piece : (e : Expr) → e.Layered → e.piece.nested.Fits
  | number _, _ | text _, _ | name _, _ | call _ _, _ => by
    rw [piece]
    exact Nested.fits_node (Token.fits_leaf rfl) (by simp)
  | paren inner, h => by
    rw [piece]
    refine Nested.fits_node (Token.fits_one rfl inner.value_piece.1) ?_
    simpa using fits_piece inner h
  | binary op left right, h => by
    obtain ⟨hleft, hright, hlower, hupper⟩ := h
    rw [piece]
    refine Nested.fits_node (Token.fits_two left.value_piece.1 right.value_piece.1 ?_ ?_) ?_
    · intro inner hinner
      rw [← left.value_piece.2 inner hinner]
      exact hlower
    · intro inner hinner
      rw [← right.value_piece.2 inner hinner]
      exact hupper
    · simpa using ⟨fits_piece left hleft, fits_piece right hright⟩

end Expr

/-! ### Open parts -/

/-- The tree to the left of the innermost open part. -/
def leftOperand : List OpenPart → List (Nested Token)
  | .operator _ left :: _ => [left.piece.nested]
  | _ => []

/-- An open part with its left operand is a tree with the right children, if what follows is. -/
theorem fits_frame {part : OpenPart} {parts : List OpenPart} (hparts : PartsOrdered (part :: parts))
    {ns : List (Nested Token)} (hns : ∀ n ∈ ns, n.Fits)
    (hlast : part.frame.value.Fits ((leftOperand (part :: parts) ++ ns).map Nested.value)) :
    (Nested.node part.frame.value (part.frame.nested ++ ns)).Fits := by
  cases part with
  | bracket => exact Nested.fits_node hlast hns
  | operator op left =>
      refine Nested.fits_node hlast ?_
      intro c hc
      rcases List.mem_cons.mp hc with rfl | hc
      · exact left.fits_piece hparts.1
      · exact hns c hc

/-- An open part is the right operand of the next one. -/
theorem fits_around {root : Token} (hroot : root.arity = 1) {part : OpenPart}
    {parts : List OpenPart} (hparts : PartsOrdered (part :: parts)) :
    (Spine.value root (partsFrames parts)).Fits
      ((leftOperand parts).map Nested.value ++ [part.frame.value]) := by
  have hoperand : part.frame.value.isOperand = true := by cases part <;> rfl
  cases parts with
  | nil => exact Token.fits_one hroot hoperand
  | cons next parts =>
      cases next with
      | bracket => exact Token.fits_one rfl hoperand
      | operator op left =>
          have hrest := hparts.tail
          refine Token.fits_two left.value_piece.1 hoperand ?_ ?_
          · intro inner hinner
            rw [← left.value_piece.2 inner hinner]
            exact hrest.2.1
          · intro inner hinner
            cases part with
            | bracket => cases hinner
            | operator other left =>
                obtain rfl := Token.operator.inj hinner
                exact hparts.2.2.1

/-- What is known of the tree of open parts, once the innermost one has the right trees below
it. -/
theorem fits_spine {root : Token} (hroot : root.arity = 1) {parts : List OpenPart}
    (hparts : PartsOrdered parts) {ns : List (Nested Token)} (hns : ∀ n ∈ ns, n.Fits)
    (hlast : (Spine.value root (partsFrames parts)).Fits
      ((leftOperand parts ++ ns).map Nested.value)) :
    (Spine.nested root ns (partsFrames parts)).Fits := by
  induction parts generalizing ns with
  | nil => exact Nested.fits_node hlast hns
  | cons part parts ih =>
      refine ih hparts.tail (by simpa using fits_frame hparts hns hlast) ?_
      simpa [Nested.value] using fits_around hroot hparts

/-- What may hang below the cursor: an operand that is no operator, or an operand of that kind
or none and then the mark of a failure. -/
structure HangsBelow (below : List Token) : Prop where
  no_operator : ∀ token ∈ below, ∀ op, token ≠ .operator op
  complete : (∃ operand, below = [operand] ∧ operand.isOperand = true) ∨
    ∃ front message, below = front ++ [.error message] ∧ front.length ≤ 1 ∧
      ∀ operand ∈ front, operand.isOperand = true

theorem HangsBelow.fits {token : Token} {below : List Token} (h : HangsBelow below)
    (hone : token.arity = 1) : token.Fits below := by
  rcases h.complete with ⟨operand, rfl, hoperand⟩ | ⟨front, message, hmark, hlen, hfront⟩
  · exact Token.fits_one hone hoperand
  · have hop : ∀ op, token ≠ .operator op := by
      rintro op rfl
      cases hone
    exact ⟨.inr ⟨front, message, hmark, by omega, by omega, fun op heq => absurd heq (hop op),
      hfront⟩, fun op _ heq => absurd heq (hop op), fun op _ heq => absurd heq (hop op)⟩

/-- The innermost open part has the right trees below it. -/
theorem HangsBelow.fits_last {root : Token} (hroot : root.arity = 1) {parts : List OpenPart}
    (hparts : PartsOrdered parts) {below : List Token} (h : HangsBelow below) :
    (Spine.value root (partsFrames parts)).Fits
      ((leftOperand parts).map Nested.value ++ below) := by
  cases parts with
  | nil => exact h.fits hroot
  | cons part parts =>
      cases part with
      | bracket => exact h.fits rfl
      | operator op left =>
          have hlower : ∀ inner, left.piece.nested.value = .operator inner →
              op.level ≤ inner.level := by
            intro inner hinner
            rw [← left.value_piece.2 inner hinner]
            exact hparts.2.1
          have hleft := left.value_piece.1
          show (Token.operator op).Fits (left.piece.nested.value :: below)
          rcases h.complete with ⟨operand, rfl, hoperand⟩ | ⟨front, message, hmark, hlen, hfront⟩
          · refine Token.fits_two hleft hoperand hlower ?_
            intro inner hinner
            exact absurd hinner (h.no_operator operand (by simp) inner)
          · refine ⟨.inr ⟨left.piece.nested.value :: front, message, by rw [hmark]; rfl, ?_,
              Nat.succ_pos 1, by simp, by simpa using ⟨hleft, hfront⟩⟩, ?_, ?_⟩
            · rw [List.length_cons]
              exact Nat.succ_le_succ hlen
            · rintro other inner heq hinner
              obtain rfl := Token.operator.inj heq
              exact hlower inner (Option.some.inj hinner)
            · rintro other inner heq hinner
              have hmem : Token.operator inner ∈ below := List.mem_of_getElem? hinner
              exact absurd rfl (h.no_operator _ hmem inner)

theorem Spine.value_nested {root : Token} (ns : List (Nested Token)) (fs : List (Frame Token)) :
    (Spine.nested root ns fs).value = root := by
  induction fs generalizing ns with
  | nil => rfl
  | cons f fs ih => rw [Spine.nested, ih]

/-! ### The tokens of open parts -/

/-- The token is plain, and the trees inside it are grown. -/
structure Token.Sound (token : Token) : Prop where
  plain : token.IsPlain
  arguments : ∀ argument ∈ token.arguments, argument.Grown

theorem Token.sound_of_leaf {token : Token} (hplain : ∀ x, token ≠ .number x)
    (harguments : token.arguments = []) : token.Sound :=
  ⟨fun x hx => absurd hx (hplain x), by simp [harguments]⟩

/-- A draft is grown if its nested tree has the right build and its tokens are sound. -/
theorem Draft.grown {d : Draft Token} (hfaithful : d.Faithful)
    (hroot : d.root = .empty ∨ d.root = .group .scope) (hfits : d.nested.Fits)
    (hsound : ∀ token ∈ d.values, token.Sound) : Tree.Grown d.arena := by
  have hmem : ∀ token ∈ d.nested.preorder, token.Sound := fun token htoken =>
    hsound token (d.preorder_perm.mem_iff.mp htoken)
  rw [← arena_nested hfaithful]
  refine .intro ⟨?_, hfits⟩ (fun token h => (hmem token h).plain) fun token h =>
    (hmem token h).arguments
  rw [Draft.nested, Spine.value_nested]
  exact hroot

/-- The tokens in the tree of open parts are sound, if those of the expressions in it are. -/
theorem sound_partsDraft {root : Token} {parts : List OpenPart} {operand : Option Expr}
    (hroot : root.Sound)
    (hleft : ∀ op left, .operator op left ∈ parts → ∀ token ∈ left.piece.values, token.Sound)
    (hoperand : ∀ e ∈ operand, ∀ token ∈ e.piece.values, token.Sound) :
    ∀ token ∈ (partsDraft root parts operand).values, token.Sound :=
  forall_values_partsDraft hroot (Token.sound_of_leaf (by simp) rfl)
    (fun _ => Token.sound_of_leaf (by simp) rfl) hleft hoperand

theorem faithful_partsDraft {root : Token} (hlevels : root.levels = 0) (hleading : root.leading = 0)
    (parts : List OpenPart) (operand : Option Expr) : (partsDraft root parts operand).Faithful := by
  refine ⟨hlevels, hleading, ?_, ?_⟩
  · intro f hf
    obtain ⟨part, -, rfl⟩ := List.mem_map.mp hf
    cases part with
    | bracket => exact ⟨rfl, rfl⟩
    | operator op left => exact ⟨rfl, rfl, left.faithful_piece⟩
  · intro p hp
    obtain ⟨e, -, rfl⟩ := List.mem_map.mp hp
    exact e.faithful_piece

namespace Expr

/-- Every number of the expression is plain. -/
def IsPlain (e : Expr) : Prop := ∀ x, .number x ∈ e.words → x.IsPlain

/-- The tree of an argument is grown. -/
theorem grown_argumentTree {e : Expr} (hlayered : e.Layered)
    (hsound : ∀ token ∈ e.piece.values, token.Sound) : Tree.Grown e.argumentTree := by
  have hfits : (Nested.node (.group .scope) [e.piece.nested]).Fits :=
    Nested.fits_node (Token.fits_one rfl e.value_piece.1) (by simpa using e.fits_piece hlayered)
  have hvalues : ∀ token ∈ (partsDraft (.group .scope) [] (some e)).values, token.Sound := by
    refine sound_partsDraft (Token.sound_of_leaf (by simp) rfl) (by simp) ?_
    intro d hd
    obtain rfl := Option.some.inj hd
    exact hsound
  exact Draft.grown (faithful_partsDraft rfl rfl [] (some e)) (.inr rfl) hfits hvalues

/-- The tokens of an expression are sound. -/
theorem sound_piece (e : Expr) (hlayered : e.Layered) (hplain : e.IsPlain) :
    ∀ token ∈ e.piece.values, token.Sound := by
  have hR : Inherited fun e => e.Layered ∧ e.IsPlain :=
    inherited_layered.and (.of_words (R := fun ws => ∀ x, Word.number x ∈ ws → x.IsPlain)
      fun hsub h x hx => h x (hsub hx))
  refine forall_values_piece hR ?_ e ⟨hlayered, hplain⟩
  constructor
  case number =>
    rintro value ⟨-, hvalue⟩
    refine ⟨?_, by simp [Token.arguments]⟩
    intro x hx
    obtain rfl := Token.number.inj hx
    exact hvalue value (by rw [words]; exact List.mem_singleton.mpr rfl)
  case call =>
    rintro f es hcall hsound
    refine ⟨by simp [Token.IsPlain], ?_⟩
    rw [Token.arguments, trees_eq_map]
    intro t ht
    obtain ⟨e, he, rfl⟩ := List.mem_map.mp ht
    exact grown_argumentTree (hR.call hcall e he).1 (hsound e he)
  all_goals intros; exact Token.sound_of_leaf (by simp) rfl

/-- The trees of the arguments of a call are grown. -/
theorem grown_trees (es : List Expr) (hlayered : AllLayered es) (hplain : ∀ e ∈ es, e.IsPlain) :
    ∀ t ∈ trees es, t.Grown := by
  rw [trees_eq_map]
  intro t ht
  obtain ⟨e, he, rfl⟩ := List.mem_map.mp ht
  have he' := (allLayered_iff es).mp hlayered e he
  exact grown_argumentTree he' (e.sound_piece he' (hplain e he))

end Expr

/-! ### Formulas and failures -/

theorem Token.fits_empty : Token.empty.Fits [] :=
  ⟨.inl ⟨Nat.zero_le _, fun h => absurd rfl h, by simp⟩, by simp, by simp⟩

/-- The tree of a formula is grown. -/
theorem grown_formulaDraft {f : Option Expr} (hlayered : ∀ e ∈ f, e.Layered)
    (hplain : ∀ x, .number x ∈ formulaWords f → x.IsPlain) :
    Tree.Grown (formulaDraft f).arena := by
  have hnested : (formulaDraft f).nested =
      .node .empty (f.toList.map fun e => e.piece.nested) := by
    simp [formulaDraft, Draft.nested, Spine.nested, Function.comp_def]
  have hvalues : ∀ token ∈ (partsDraft .empty [] f).values, token.Sound := by
    refine sound_partsDraft (Token.sound_of_leaf (by simp) rfl) (by simp) ?_
    intro e he
    obtain rfl : f = some e := he
    exact e.sound_piece (hlayered e rfl) hplain
  refine Draft.grown (faithful_partsDraft rfl rfl [] f) (.inl rfl) ?_ hvalues
  show (formulaDraft f).nested.Fits
  rw [hnested]
  cases f with
  | none => exact Nested.fits_node Token.fits_empty (by simp)
  | some e =>
      exact Nested.fits_node (Token.fits_one rfl e.value_piece.1)
        (by simpa using e.fits_piece (hlayered e rfl))

/-- The words of an open operator's left operand are among those of the open parts. -/
theorem mem_partsWords {parts : List OpenPart} {op : Operator} {left : Expr}
    (h : .operator op left ∈ parts) : ∀ w ∈ left.words, w ∈ partsWords parts := by
  intro w hw
  induction parts with
  | nil => simp at h
  | cons part parts ih =>
      rcases List.mem_cons.mp h with rfl | hmem
      · rw [partsWords]
        simp [hw]
      · cases part with
        | bracket => exact List.mem_append_left _ (ih hmem)
        | operator => exact List.mem_append_left _ (ih hmem)

/-- The left operand of an open operator is in layers. -/
theorem layered_of_mem {parts : List OpenPart} {op : Operator} {left : Expr}
    (hparts : PartsOrdered parts) (h : .operator op left ∈ parts) : left.Layered := by
  induction parts with
  | nil => simp at h
  | cons part parts ih =>
      rcases List.mem_cons.mp h with rfl | h
      · exact hparts.1
      · exact ih hparts.tail h

theorem rootToken_cases (outer : List OpenCall) :
    rootToken outer = .empty ∨ rootToken outer = .group .scope := by
  cases outer with
  | nil => exact .inl rfl
  | cons call outer => exact .inr rfl

/-- What is known of the root of the tree at hand. -/
theorem rootToken_facts (outer : List OpenCall) : (rootToken outer).levels = 0 ∧
    (rootToken outer).leading = 0 ∧ (rootToken outer).arity = 1 ∧ (rootToken outer).Sound := by
  rcases rootToken_cases outer with h | h <;> rw [h] <;>
    exact ⟨rfl, rfl, rfl, Token.sound_of_leaf (by simp) rfl⟩

/-- The nested tree of open parts with a leaf below the cursor. -/
theorem nested_hang (root token : Token) (parts : List OpenPart) (operand : Option Expr)
    (levels : Nat) : ((partsDraft root parts operand).hang (.leaf token levels)).nested =
      Spine.nested root ((operand.toList.map fun e => e.piece.nested) ++ [.node token []])
        (partsFrames parts) := by
  simp [Draft.nested, Draft.hang, partsDraft, Piece.nested, Function.comp_def]

/-- The tree of open parts has the right build once the right leaf hangs below the cursor. -/
theorem fits_hang {root : Token} (hroot : root.arity = 1) {parts : List OpenPart}
    {operand : Option Expr} {token : Token} (hparts : PartsOrdered parts)
    (hoperand : ∀ e ∈ operand, e.Layered)
    (hbelow : HangsBelow ((operand.toList.map fun e => e.piece.nested.value) ++ [token]))
    (harity : token.arity = 0) (levels : Nat) :
    ((partsDraft root parts operand).hang (.leaf token levels)).nested.Fits := by
  rw [nested_hang]
  refine fits_spine hroot hparts ?_ ?_
  · intro n hn
    rcases List.mem_append.mp hn with hn | hn
    · obtain ⟨e, he, rfl⟩ := List.mem_map.mp hn
      exact e.fits_piece (hoperand e (by simpa using he))
    · rw [List.mem_singleton.mp hn]
      exact Nested.fits_node (Token.fits_leaf harity) (by simp)
  · have hlast := hbelow.fits_last hroot hparts
    simpa [Function.comp_def, Nested.value] using hlast

/-- The tokens in the tree of open parts with a leaf below the cursor are sound. -/
theorem sound_hang {root : Token} (hroot : root.Sound) {parts : List OpenPart}
    {operand : Option Expr} {token : Token} (hparts : PartsOrdered parts)
    (hoperand : ∀ e ∈ operand, e.Layered)
    (hplain : ∀ x, .number x ∈ partsWords parts ++ formulaWords operand → x.IsPlain)
    (hsound : token.Sound) (levels : Nat) :
    ∀ other ∈ ((partsDraft root parts operand).hang (.leaf token levels)).values,
      other.Sound := by
  have hinner : ∀ other ∈ (partsDraft root parts operand).values, other.Sound := by
    refine sound_partsDraft hroot ?_ ?_
    · intro op left hmem
      exact left.sound_piece (layered_of_mem hparts hmem)
        fun x hx => hplain x (List.mem_append_left _ (mem_partsWords hmem _ hx))
    · intro e he
      obtain rfl : operand = some e := he
      exact e.sound_piece (hoperand e rfl) fun x hx => hplain x (List.mem_append_right _ hx)
  intro other hother
  rw [Draft.values_hang, Piece.values] at hother
  rcases List.mem_append.mp hother with hother | hother
  · exact hinner other hother
  · rw [List.mem_singleton.mp hother]
    exact hsound

/-- **The tree of open parts is grown** once the right leaf hangs below the cursor. -/
theorem grown_hang (outer : List OpenCall) {parts : List OpenPart} {operand : Option Expr}
    {token : Token} (hparts : PartsOrdered parts) (hoperand : ∀ e ∈ operand, e.Layered)
    (hplain : ∀ x, .number x ∈ partsWords parts ++ formulaWords operand → x.IsPlain)
    (hbelow : HangsBelow ((operand.toList.map fun e => e.piece.nested.value) ++ [token]))
    (harity : token.arity = 0) (hsound : token.Sound) :
    Tree.Grown ((partsDraft (rootToken outer) parts operand).hang
      (.leaf token token.levels)).arena := by
  obtain ⟨hlevels, hleading, hroot, hrootSound⟩ := rootToken_facts outer
  have hfaithful := (faithful_partsDraft hlevels hleading parts operand).hang
    (show (Piece.leaf token token.levels).Faithful from rfl)
  exact Draft.grown hfaithful (rootToken_cases outer)
    (fits_hang hroot hparts hoperand hbelow harity _)
    (sound_hang hrootSound hparts hoperand hplain hsound _)

/-- What is known of the calls around the place of reading. -/
theorem mem_outerWords {call : OpenCall} {outer : List OpenCall} {w : Word}
    (h : w ∈ partsWords call.parts ∨ ∃ e ∈ call.done, w ∈ e.words) :
    w ∈ outerWords (call :: outer) := by
  have hdone : ∀ es : List Expr, (∃ e ∈ es, w ∈ e.words) → w ∈ doneWords es := by
    intro es he
    induction es with
    | nil => simp at he
    | cons d es ih =>
        rw [doneWords]
        obtain ⟨e, he, hw⟩ := he
        rcases List.mem_cons.mp he with rfl | he
        · simp [hw]
        · exact List.mem_append_left _ (ih ⟨e, he, hw⟩)
  rw [outerWords]
  rcases h with h | h
  · simp [h]
  · simp [hdone call.done h]

/-- **Ending the calls around a grown tree leaves a grown tree.** -/
theorem grown_failDraft {d : Draft Token} (hd : Tree.Grown d.arena) {outer : List OpenCall}
    (hordered : ∀ call ∈ outer, call.Ordered)
    (hplain : ∀ x, .number x ∈ outerWords outer → x.IsPlain) :
    Tree.Grown (failDraft d outer).arena := by
  induction outer generalizing d with
  | nil => exact hd
  | cons call outer ih =>
      obtain ⟨hparts, hdone⟩ := hordered call (by simp)
      have harguments : ∀ t ∈ (call.done.map Expr.argumentTree).reverse ++ [d.arena],
          Tree.Grown t := by
        intro t ht
        rcases List.mem_append.mp ht with ht | ht
        · refine Expr.grown_trees call.done hdone ?_ t ?_
          · exact fun e he x hx => hplain x (mem_outerWords (.inr ⟨e, he, hx⟩))
          · rw [Expr.trees_eq_map]
            exact List.mem_reverse.mp ht
        · rw [List.mem_singleton.mp ht]
          exact hd
      refine ih ?_ (fun other hother => hordered other (by simp [hother])) fun x hx => hplain x ?_
      · refine grown_hang outer hparts (by simp) ?_ ⟨?_, .inl ⟨_, rfl, rfl⟩⟩ rfl
          ⟨by simp [Token.IsPlain], harguments⟩
        · intro x hx
          refine hplain x (mem_outerWords (.inl ?_))
          simpa [formulaWords] using hx
        · simp
      · rw [outerWords]
        exact List.mem_append_left _ hx

/-- The tree that is left where reading stops is grown. -/
theorem grown_stop {limits : Limits} {stop : Stop} (h : stop.config.Regular limits) :
    Tree.Grown (stop.draft limits).arena := by
  have hwords : stop.config.words = outerWords stop.config.outer ++
      (partsWords stop.config.parts ++ formulaWords stop.config.operand) := rfl
  have hnone : ∀ e ∈ stop.config.operand, ∀ op, e.piece.nested.value ≠ .operator op := by
    intro e he op hop
    have hlevel := e.value_piece.2 op hop
    have hlt := op.level_lt
    rw [(h.ordered.operand e he).2] at hlevel
    omega
  refine grown_failDraft ?_ h.ordered.outer fun x hx => h.plain x ?_
  · refine grown_hang stop.config.outer h.ordered.parts
      (fun e he => (h.ordered.operand e he).1) (fun x hx => h.plain x ?_) ⟨?_, ?_⟩ rfl
      (Token.sound_of_leaf (by simp [Stop.mark]) rfl)
    · rw [hwords]
      exact List.mem_append_right _ hx
    · intro token htoken op
      rcases List.mem_append.mp htoken with htoken | htoken
      · obtain ⟨e, he, rfl⟩ := List.mem_map.mp htoken
        exact hnone e (by simpa using he) op
      · rw [List.mem_singleton.mp htoken]
        simp [Stop.mark]
    · refine .inr ⟨_, _, rfl, ?_, ?_⟩
      · cases stop.config.operand <;> simp
      · intro token htoken
        obtain ⟨e, he, rfl⟩ := List.mem_map.mp htoken
        exact e.value_piece.1
  · rw [hwords]
    exact List.mem_append_left _ hx

/-- **The tree of every result is grown**, whether reading ends well or fails. -/
theorem grown_parse (limits : Limits) (source : String) : (parse limits source).tree.Grown := by
  cases houtcome : (Stage.start source.toList).read limits with
  | accepted f =>
      obtain ⟨ws, t, hleads, -, hfinish⟩ := Stage.leads_of_accepted houtcome
      have hregular := hleads.regular (Config.start_regular limits)
      rw [parse_of_accepted houtcome]
      refine grown_formulaDraft (Config.finish_layered hregular.ordered hfinish) ?_
      rw [Config.finish_words hfinish]
      exact hregular.plain
  | refused stop =>
      rw [parse_of_refused houtcome]
      exact grown_stop (Stage.regular_of_refused houtcome)

end Formula
