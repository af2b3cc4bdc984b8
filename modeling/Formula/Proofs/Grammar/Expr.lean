/-
Expressions and their grammar.

An expression is what a formula means before anything is said about arrays.  Its grammar has
three layers:

    expression  :=  term  |  expression ('+' | '-') term
    term        :=  factor  |  term ('*' | '/') factor
    factor      :=  number  |  text  |  name  |  '(' expression ')'  |  call

where a call is a name with a bracket right after it, any number of expressions with commas
between them, and the closing bracket.  `Grammar.Expression ws e` says that the words `ws`
are an expression and that `e` is what they mean.

The grammar leaves no choice.  `Grammar.expression_iff` says that it relates an expression to
the one sequence of its words, `Expr.words`, as long as every operator in it stands above its
operands in the order of the layers, `Expr.Layered`.
-/
import Formula.Proofs.Grammar.Words

namespace Formula

/-- How tightly an operator binds, as a number. -/
def Operator.level (op : Operator) : Nat := op.precedence.level

/-- Which operators there are at each level. -/
theorem Operator.level_cases (op : Operator) :
    ((op = .add ∨ op = .sub) ∧ op.level = 1) ∨ ((op = .mul ∨ op = .div) ∧ op.level = 2) := by
  cases op <;> decide

theorem Operator.level_sum {op : Operator} (h : op = .add ∨ op = .sub) : op.level = 1 := by
  rcases h with rfl | rfl <;> rfl

theorem Operator.level_product {op : Operator} (h : op = .mul ∨ op = .div) : op.level = 2 := by
  rcases h with rfl | rfl <;> rfl

theorem Operator.level_pos (op : Operator) : 0 < op.level := by
  cases op <;> decide

theorem Operator.level_lt (op : Operator) : op.level < 3 := by
  cases op <;> decide

/-- An expression. -/
inductive Expr where
  | number (value : Binary64)
  | text (content : String)
  | name (name : String)
  | call (name : String) (arguments : List Expr)
  | paren (inner : Expr)
  | binary (op : Operator) (left right : Expr)

namespace Expr

/-! ### Words -/

mutual

/-- The words of an expression. -/
def words : Expr → List Word
  | number value => [.number value]
  | text content => [.text content]
  | name n => [.name n]
  | call f arguments => .function f :: (listWords arguments ++ [.closing])
  | paren inner => .opening :: (inner.words ++ [.closing])
  | binary op left right => left.words ++ .operator op :: right.words

/-- The words of the arguments of a call, with commas between them. -/
def listWords : List Expr → List Word
  | [] => []
  | e :: es => e.words ++ moreWords es

/-- The words of further arguments of a call, each behind a comma. -/
def moreWords : List Expr → List Word
  | [] => []
  | e :: es => .comma :: (e.words ++ moreWords es)

end

theorem mem_listWords {w : Word} {e : Expr} {es : List Expr} (he : e ∈ es) (hw : w ∈ e.words) :
    w ∈ listWords es := by
  have hmore : ∀ es : List Expr, e ∈ es → w ∈ moreWords es := by
    intro es he
    induction es with
    | nil => simp at he
    | cons d es ih =>
        rw [moreWords]
        rcases List.mem_cons.mp he with rfl | he
        · simp [hw]
        · simp [ih he]
  cases es with
  | nil => simp at he
  | cons d es =>
      rw [listWords]
      rcases List.mem_cons.mp he with rfl | he
      · exact List.mem_append_left _ hw
      · exact List.mem_append_right _ (hmore es he)

/-- An expression starts with a value. -/
theorem words_eq_cons : (e : Expr) → ∃ w ws, e.words = w :: ws ∧ w.startsValue = true
  | number _ => ⟨_, [], by rw [words], rfl⟩
  | text _ => ⟨_, [], by rw [words], rfl⟩
  | name _ => ⟨_, [], by rw [words], rfl⟩
  | call _ _ => ⟨_, _, by rw [words], rfl⟩
  | paren _ => ⟨_, _, by rw [words], rfl⟩
  | binary _ left _ => by
    obtain ⟨w, ws, hleft, hw⟩ := words_eq_cons left
    exact ⟨w, _, by rw [words, hleft, List.cons_append], hw⟩

theorem length_words_pos (e : Expr) : 0 < e.words.length := by
  obtain ⟨w, ws, hwords, -⟩ := e.words_eq_cons
  rw [hwords]
  exact Nat.succ_pos _

/-! ### Layers -/

/-- The layer of an expression: the level of an operator, and above that a factor. -/
def level : Expr → Nat
  | binary op _ _ => op.level
  | _ => 3

theorem level_pos (e : Expr) : 0 < e.level := by
  cases e <;> simp [level, Operator.level_pos]

theorem level_le (e : Expr) : e.level ≤ 3 := by
  cases e with
  | binary op left right => exact Nat.le_of_lt op.level_lt
  | _ => exact Nat.le_refl _

mutual

/-- Every operator binds at most as tightly as its left operand and less tightly than its
right one. -/
def Layered : Expr → Prop
  | number _ | text _ | name _ => True
  | call _ arguments => AllLayered arguments
  | paren inner => inner.Layered
  | binary op left right =>
    left.Layered ∧ right.Layered ∧ op.level ≤ left.level ∧ op.level < right.level

/-- The same for the arguments of a call. -/
def AllLayered : List Expr → Prop
  | [] => True
  | e :: es => e.Layered ∧ AllLayered es

end

theorem allLayered_iff (es : List Expr) : AllLayered es ↔ ∀ e ∈ es, e.Layered := by
  induction es with
  | nil => simp [AllLayered]
  | cons e es ih => simp [AllLayered, ih]

/-! ### Heights and calls -/

mutual

/-- The number of levels below an expression.  An argument of a call is a tree of its own,
whose root adds one level, and the call counts one more than the highest of these trees. -/
def height : Expr → Nat
  | number _ | text _ | name _ => 0
  | call _ arguments => listHeight arguments
  | paren inner => inner.height + 1
  | binary _ left right => max (left.height + 1) (right.height + 1)

/-- The number of levels that arguments put below their call. -/
def listHeight : List Expr → Nat
  | [] => 0
  | e :: es => max (e.height + 2) (listHeight es)

end

mutual

/-- The number of calls inside each other. -/
def callDepth : Expr → Nat
  | number _ | text _ | name _ => 0
  | call _ arguments => listCallDepth arguments + 1
  | paren inner => inner.callDepth
  | binary _ left right => max left.callDepth right.callDepth

/-- The number of calls inside each other in the arguments of a call. -/
def listCallDepth : List Expr → Nat
  | [] => 0
  | e :: es => max e.callDepth (listCallDepth es)

end

end Expr

/-- The height of the tree of a formula: the expression hangs below the root. -/
def formulaHeight : Option Expr → Nat
  | none => 0
  | some e => e.height + 1

/-- The number of calls inside each other in a formula. -/
def formulaCallDepth : Option Expr → Nat
  | none => 0
  | some e => e.callDepth

/-- The words of a formula. -/
def formulaWords : Option Expr → List Word
  | none => []
  | some e => e.words

/-! ### The grammar -/

namespace Grammar

mutual

/-- The words are an expression. -/
inductive Expression : List Word → Expr → Prop where
  | term {ws : List Word} {e : Expr} (he : Term ws e) : Expression ws e
  | sum {ws us : List Word} {left right : Expr} (op : Operator) (hop : op = .add ∨ op = .sub)
      (hleft : Expression ws left) (hright : Term us right) :
      Expression (ws ++ .operator op :: us) (.binary op left right)

/-- The words are a term. -/
inductive Term : List Word → Expr → Prop where
  | factor {ws : List Word} {e : Expr} (he : Factor ws e) : Term ws e
  | product {ws us : List Word} {left right : Expr} (op : Operator)
      (hop : op = .mul ∨ op = .div) (hleft : Term ws left) (hright : Factor us right) :
      Term (ws ++ .operator op :: us) (.binary op left right)

/-- The words are a factor. -/
inductive Factor : List Word → Expr → Prop where
  | number (value : Binary64) : Factor [.number value] (.number value)
  | text (content : String) : Factor [.text content] (.text content)
  | name (name : String) : Factor [.name name] (.name name)
  | paren {ws : List Word} {e : Expr} (he : Expression ws e) :
      Factor (.opening :: (ws ++ [.closing])) (.paren e)
  | empty (name : String) : Factor [.function name, .closing] (.call name [])
  | call {ws : List Word} {es : List Expr} (name : String) (hes : Arguments ws es) :
      Factor (.function name :: (ws ++ [.closing])) (.call name es)

/-- The words are one or more expressions with commas between them. -/
inductive Arguments : List Word → List Expr → Prop where
  | one {ws : List Word} {e : Expr} (he : Expression ws e) : Arguments ws [e]
  | more {ws us : List Word} {e : Expr} {es : List Expr} (he : Expression ws e)
      (hes : Arguments us es) : Arguments (ws ++ .comma :: us) (e :: es)

end

/-- The words are a formula: nothing at all, or an expression. -/
inductive Sentence : List Word → Option Expr → Prop where
  | blank : Sentence [] none
  | expression {ws : List Word} {e : Expr} (he : Expression ws e) : Sentence ws (some e)

/-! ### What the grammar relates -/

theorem moreWords_of_ne_nil {es : List Expr} (h : es ≠ []) :
    Expr.moreWords es = .comma :: Expr.listWords es := by
  cases es with
  | nil => exact absurd rfl h
  | cons e es => rw [Expr.moreWords, Expr.listWords]

mutual

theorem layered_of_expression {ws : List Word} {e : Expr} :
    Expression ws e → e.Layered ∧ ws = e.words
  | .term he => by
    obtain ⟨hlayered, hwords, -⟩ := layered_of_term he
    exact ⟨hlayered, hwords⟩
  | @Expression.sum _ _ left _ op hop hleft hright => by
    obtain ⟨hl, rfl⟩ := layered_of_expression hleft
    obtain ⟨hr, rfl, hlevel⟩ := layered_of_term hright
    have hpos := left.level_pos
    have hone := Operator.level_sum hop
    exact ⟨⟨hl, hr, by omega, by omega⟩, by rw [Expr.words]⟩

theorem layered_of_term {ws : List Word} {e : Expr} :
    Term ws e → e.Layered ∧ ws = e.words ∧ 2 ≤ e.level
  | .factor he => by
    obtain ⟨hlayered, hwords, hlevel⟩ := layered_of_factor he
    exact ⟨hlayered, hwords, by omega⟩
  | .product op hop hleft hright => by
    obtain ⟨hl, rfl, hlevel⟩ := layered_of_term hleft
    obtain ⟨hr, rfl, hfactor⟩ := layered_of_factor hright
    have htwo := Operator.level_product hop
    exact ⟨⟨hl, hr, by omega, by omega⟩, by rw [Expr.words], by rw [Expr.level]; omega⟩

theorem layered_of_factor {ws : List Word} {e : Expr} :
    Factor ws e → e.Layered ∧ ws = e.words ∧ e.level = 3
  | .number value => ⟨trivial, by rw [Expr.words], rfl⟩
  | .text content => ⟨trivial, by rw [Expr.words], rfl⟩
  | .name n => ⟨trivial, by rw [Expr.words], rfl⟩
  | .paren he => by
    obtain ⟨hlayered, rfl⟩ := layered_of_expression he
    exact ⟨hlayered, by rw [Expr.words], rfl⟩
  | .empty f => ⟨trivial, by rw [Expr.words, Expr.listWords]; rfl, rfl⟩
  | .call f hes => by
    obtain ⟨hlayered, rfl, -⟩ := layered_of_arguments hes
    exact ⟨hlayered, by rw [Expr.words], rfl⟩

theorem layered_of_arguments {ws : List Word} {es : List Expr} :
    Arguments ws es → Expr.AllLayered es ∧ ws = Expr.listWords es ∧ es ≠ []
  | .one he => by
    obtain ⟨hlayered, rfl⟩ := layered_of_expression he
    exact ⟨⟨hlayered, trivial⟩, by rw [Expr.listWords, Expr.moreWords, List.append_nil], by simp⟩
  | .more he hes => by
    obtain ⟨hlayered, rfl⟩ := layered_of_expression he
    obtain ⟨hall, rfl, hne⟩ := layered_of_arguments hes
    exact ⟨⟨hlayered, hall⟩, by rw [Expr.listWords, moreWords_of_ne_nil hne], by simp⟩

end

mutual

/-- An expression is derived in the narrowest layer that its operator allows. -/
theorem derives_of_layered (e : Expr) (h : e.Layered) :
    Expression e.words e ∧ (2 ≤ e.level → Term e.words e) ∧ (e.level = 3 → Factor e.words e) := by
  have hfactor : Factor e.words e → Expression e.words e ∧ (2 ≤ e.level → Term e.words e) ∧
      (e.level = 3 → Factor e.words e) :=
    fun hf => ⟨.term (.factor hf), fun _ => .factor hf, fun _ => hf⟩
  cases e with
  | number value => exact hfactor (by rw [Expr.words]; exact .number value)
  | text content => exact hfactor (by rw [Expr.words]; exact .text content)
  | name name => exact hfactor (by rw [Expr.words]; exact .name name)
  | call name es =>
      refine hfactor ?_
      rw [Expr.words]
      by_cases hes : es = []
      · subst hes
        rw [Expr.listWords]
        exact .empty name
      · exact .call name (arguments_of_layered es hes h)
  | paren inner =>
      refine hfactor ?_
      rw [Expr.words]
      exact .paren (derives_of_layered inner h).1
  | binary op left right =>
      obtain ⟨hleft, hright, hlower, hupper⟩ := h
      obtain ⟨hleft, hleftTerm, -⟩ := derives_of_layered left hleft
      obtain ⟨-, hrightTerm, hrightFactor⟩ := derives_of_layered right hright
      have htop := right.level_le
      rw [Expr.words, Expr.level]
      rcases op.level_cases with ⟨hop, hlevel⟩ | ⟨hop, hlevel⟩
      · exact ⟨.sum op hop hleft (hrightTerm (by omega)), by omega, by omega⟩
      · have hterm := Term.product op hop (hleftTerm (by omega)) (hrightFactor (by omega))
        exact ⟨.term hterm, fun _ => hterm, by omega⟩

theorem arguments_of_layered (es : List Expr) (hne : es ≠ []) (h : Expr.AllLayered es) :
    Arguments (Expr.listWords es) es := by
  cases es with
  | nil => exact absurd rfl hne
  | cons e es =>
      have hfirst := (derives_of_layered e h.1).1
      rw [Expr.listWords]
      by_cases hes : es = []
      · subst hes
        rw [Expr.moreWords, List.append_nil]
        exact .one hfirst
      · rw [moreWords_of_ne_nil hes]
        exact .more hfirst (arguments_of_layered es hes h.2)

end

/-- **The grammar relates an expression to its words**, if it is in layers. -/
theorem expression_iff {ws : List Word} {e : Expr} :
    Expression ws e ↔ e.Layered ∧ ws = e.words := by
  refine ⟨layered_of_expression, ?_⟩
  rintro ⟨hlayered, rfl⟩
  exact (derives_of_layered e hlayered).1

theorem sentence_iff {ws : List Word} {f : Option Expr} :
    Sentence ws f ↔ (∀ e ∈ f, e.Layered) ∧ ws = formulaWords f := by
  constructor
  · intro h
    cases h with
    | blank => exact ⟨by simp, rfl⟩
    | expression he =>
        obtain ⟨hlayered, rfl⟩ := layered_of_expression he
        exact ⟨by simpa using hlayered, rfl⟩
  · rintro ⟨hlayered, rfl⟩
    cases f with
    | none => exact .blank
    | some e => exact .expression (expression_iff.mpr ⟨hlayered e rfl, rfl⟩)

end Grammar

end Formula
