/-
A reader by recursive descent.

Each layer of the grammar is one function: it takes what it can from the front of a sequence
of words and gives back the rest.  The two layers with operators take an operand of the layer
below, and then operators of their own level with further operands for as long as there are
any, grouping to the left.  Nothing is ever taken back, and a part that takes no words at all
is no part, so the sequence gets shorter with every part.

`formula?_words` says that the reader finds every expression of the grammar from its words.
-/
import Formula.Proofs.Grammar.Expr

namespace Formula.Reference

mutual

/-- Reads an expression: a term, and further terms behind `+` and `-`. -/
def expression (ws : List Word) : Option (Expr × List Word) :=
  match term ws with
  | some (first, rest) => if rest.length < ws.length then sums first rest else none
  | none => none
termination_by (ws.length, 4)

/-- Goes on with an expression after its part `left`. -/
def sums (left : Expr) : List Word → Option (Expr × List Word)
  | .operator op :: ws =>
    if op = .add ∨ op = .sub then
      match term ws with
      | some (right, rest) =>
        if rest.length < ws.length then sums (.binary op left right) rest else none
      | none => none
    else some (left, .operator op :: ws)
  | ws => some (left, ws)
termination_by ws => (ws.length, 0)

/-- Reads a term: a factor, and further factors behind `*` and `/`. -/
def term (ws : List Word) : Option (Expr × List Word) :=
  match factor ws with
  | some (first, rest) => if rest.length < ws.length then products first rest else none
  | none => none
termination_by (ws.length, 3)

/-- Goes on with a term after its part `left`. -/
def products (left : Expr) : List Word → Option (Expr × List Word)
  | .operator op :: ws =>
    if op = .mul ∨ op = .div then
      match factor ws with
      | some (right, rest) =>
        if rest.length < ws.length then products (.binary op left right) rest else none
      | none => none
    else some (left, .operator op :: ws)
  | ws => some (left, ws)
termination_by ws => (ws.length, 0)

/-- Reads a factor. -/
def factor : List Word → Option (Expr × List Word)
  | .number value :: ws => some (.number value, ws)
  | .text content :: ws => some (.text content, ws)
  | .name n :: ws => some (.name n, ws)
  | .opening :: ws =>
    match expression ws with
    | some (inner, .closing :: rest) => some (.paren inner, rest)
    | _ => none
  | .function f :: .closing :: ws => some (.call f [], ws)
  | .function f :: ws =>
    match arguments ws with
    | some (es, rest) => some (.call f es, rest)
    | none => none
  | _ => none
termination_by ws => (ws.length, 2)

/-- Reads the arguments of a call and the bracket behind them. -/
def arguments (ws : List Word) : Option (List Expr × List Word) :=
  match expression ws with
  | some (first, .comma :: rest) =>
    if rest.length < ws.length then
      match arguments rest with
      | some (es, rest) => some (first :: es, rest)
      | none => none
    else none
  | some (first, .closing :: rest) => some ([first], rest)
  | _ => none
termination_by (ws.length, 5)

end

/-- Reads a formula: nothing at all, or one expression. -/
def formula? : List Word → Option (Option Expr)
  | [] => some none
  | ws =>
    match expression ws with
    | some (e, []) => some (some e)
    | _ => none

/-! ### What the reader finds -/

/-- The words start with no operator that would belong to a term. -/
def EndsTerm (ws : List Word) : Prop :=
  ∀ op rest, ws = .operator op :: rest → ¬(op = .mul ∨ op = .div)

/-- The words start with no operator at all. -/
def EndsExpression (ws : List Word) : Prop := ∀ op rest, ws ≠ .operator op :: rest

theorem EndsExpression.endsTerm {ws : List Word} (h : EndsExpression ws) : EndsTerm ws :=
  fun op rest hws => absurd hws (h op rest)

theorem endsExpression_nil : EndsExpression [] := by
  intro op rest h
  cases h

theorem endsExpression_closing (ws : List Word) : EndsExpression (.closing :: ws) := by
  intro op rest h
  cases h

theorem endsExpression_comma (ws : List Word) : EndsExpression (.comma :: ws) := by
  intro op rest h
  cases h

theorem sums_of_ends {left : Expr} {ws : List Word} (h : EndsExpression ws) :
    sums left ws = some (left, ws) := by
  unfold sums
  split
  · next op rest => exact absurd rfl (h op rest)
  · rfl

theorem products_of_ends {left : Expr} {ws : List Word} (h : EndsTerm ws) :
    products left ws = some (left, ws) := by
  unfold products
  split
  · next op rest =>
      have hop := h op rest rfl
      simp [hop]
  · rfl

/-- A term is read on into an expression. -/
theorem expression_of_term {e : Expr} {us ws : List Word} (hterm : term us = products e ws)
    (hws : EndsTerm ws) (hlen : ws.length < us.length) : expression us = sums e ws := by
  rw [expression, hterm, products_of_ends hws]
  exact if_pos hlen

/-- A factor is read on into a term. -/
theorem term_of_factor {e : Expr} {us ws : List Word} (hfactor : factor us = some (e, ws))
    (hlen : ws.length < us.length) : term us = products e ws := by
  rw [term, hfactor]
  exact if_pos hlen

/-- An operator of the upper layer is read on into the expression with both operands. -/
theorem sums_operator {op : Operator} {left right : Expr} {us ws : List Word}
    (hop : op = .add ∨ op = .sub) (hterm : term us = some (right, ws))
    (hlen : ws.length < us.length) :
    sums left (.operator op :: us) = sums (.binary op left right) ws := by
  rw [sums, if_pos hop, hterm]
  exact if_pos hlen

/-- An operator of the middle layer is read on into the term with both operands. -/
theorem products_operator {op : Operator} {left right : Expr} {us ws : List Word}
    (hop : op = .mul ∨ op = .div) (hfactor : factor us = some (right, ws))
    (hlen : ws.length < us.length) :
    products left (.operator op :: us) = products (.binary op left right) ws := by
  rw [products, if_pos hop, hfactor]
  exact if_pos hlen

/-- A call with arguments is read through its arguments. -/
theorem factor_call {f : String} {e : Expr} {es : List Expr} {us ws : List Word}
    (hargs : arguments (e.words ++ us) = some (es, ws)) :
    factor (.function f :: (e.words ++ us)) = some (.call f es, ws) := by
  obtain ⟨w, vs, hwords, hw⟩ := e.words_eq_cons
  have hclosing : ∀ us', e.words ++ us ≠ .closing :: us' := by
    intro us' heq
    rw [hwords] at heq
    obtain ⟨rfl, -⟩ := List.cons.inj heq
    simp [Word.startsValue] at hw
  rw [factor, hargs]
  exact hclosing

theorem length_lt_append (e : Expr) (ws : List Word) : ws.length < (e.words ++ ws).length := by
  have hpos := e.length_words_pos
  rw [List.length_append]
  omega

mutual

/-- What the reader does with the words of an expression, layer by layer. -/
theorem reads_layered (e : Expr) (h : e.Layered) :
    (∀ ws, EndsTerm ws → expression (e.words ++ ws) = sums e ws) ∧
    (2 ≤ e.level → ∀ ws, term (e.words ++ ws) = products e ws) ∧
    (e.level = 3 → ∀ ws, factor (e.words ++ ws) = some (e, ws)) := by
  have hlayers : (∀ ws, factor (e.words ++ ws) = some (e, ws)) →
      (∀ ws, EndsTerm ws → expression (e.words ++ ws) = sums e ws) ∧
      (2 ≤ e.level → ∀ ws, term (e.words ++ ws) = products e ws) ∧
      (e.level = 3 → ∀ ws, factor (e.words ++ ws) = some (e, ws)) := by
    intro hfactor
    have hterm : ∀ ws, term (e.words ++ ws) = products e ws :=
      fun ws => term_of_factor (hfactor ws) (length_lt_append e ws)
    exact ⟨fun ws hws => expression_of_term (hterm ws) hws (length_lt_append e ws),
      fun _ => hterm, fun _ => hfactor⟩
  cases e with
  | number value => exact hlayers fun ws => by rw [Expr.words, List.singleton_append, factor]
  | text content => exact hlayers fun ws => by rw [Expr.words, List.singleton_append, factor]
  | name n => exact hlayers fun ws => by rw [Expr.words, List.singleton_append, factor]
  | call f es =>
      refine hlayers fun ws => ?_
      rw [Expr.words]
      cases es with
      | nil =>
          rw [Expr.listWords, List.nil_append, List.cons_append, List.singleton_append, factor]
      | cons e es =>
          have hargs := reads_arguments (e :: es) (by simp) h ws
          rw [Expr.listWords, List.append_assoc] at hargs
          rw [Expr.listWords, List.cons_append, List.append_assoc, List.append_assoc]
          exact factor_call hargs
  | paren inner =>
      refine hlayers fun ws => ?_
      have hinner := (reads_layered inner h).1 (.closing :: ws)
        (endsExpression_closing ws).endsTerm
      rw [Expr.words, List.cons_append, List.append_assoc, List.singleton_append, factor, hinner,
        sums_of_ends (endsExpression_closing ws)]
  | binary op left right =>
      obtain ⟨hleft, hright, hlower, hupper⟩ := h
      obtain ⟨hleftExpression, hleftTerm, -⟩ := reads_layered left hleft
      obtain ⟨-, hrightTerm, hrightFactor⟩ := reads_layered right hright
      have htop := right.level_le
      have hwords : ∀ ws, (Expr.binary op left right).words ++ ws =
          left.words ++ .operator op :: (right.words ++ ws) := by
        intro ws
        rw [Expr.words, List.append_assoc, List.cons_append]
      rcases op.level_cases with ⟨hop, hlevel⟩ | ⟨hop, hlevel⟩
      · refine ⟨?_, by rw [Expr.level]; omega, by rw [Expr.level]; omega⟩
        intro ws hws
        have hends : EndsTerm (.operator op :: (right.words ++ ws)) := by
          intro op' rest heq
          obtain ⟨rfl, -⟩ := by simpa using heq
          rcases hop with rfl | rfl <;> decide
        have hterm : term (right.words ++ ws) = some (right, ws) := by
          rw [hrightTerm (by omega), products_of_ends hws]
        rw [hwords, hleftExpression _ hends, sums_operator hop hterm (length_lt_append right ws)]
      · have hterm : ∀ ws, term ((Expr.binary op left right).words ++ ws) =
            products (.binary op left right) ws := by
          intro ws
          rw [hwords, hleftTerm (by omega),
            products_operator hop (hrightFactor (by omega) ws) (length_lt_append right ws)]
        exact ⟨fun ws hws => expression_of_term (hterm ws) hws (length_lt_append _ ws),
          fun _ => hterm, by rw [Expr.level]; omega⟩

theorem reads_arguments (es : List Expr) (hne : es ≠ []) (h : Expr.AllLayered es)
    (ws : List Word) : arguments (Expr.listWords es ++ .closing :: ws) = some (es, ws) := by
  cases es with
  | nil => exact absurd rfl hne
  | cons e es =>
      have hfirst := (reads_layered e h.1).1
      rw [Expr.listWords, List.append_assoc, arguments]
      by_cases hes : es = []
      · subst hes
        rw [Expr.moreWords, List.nil_append, hfirst _ (endsExpression_closing ws).endsTerm,
          sums_of_ends (endsExpression_closing ws)]
      · have hpos := e.length_words_pos
        rw [Grammar.moreWords_of_ne_nil hes, List.cons_append,
          hfirst _ (endsExpression_comma _).endsTerm, sums_of_ends (endsExpression_comma _)]
        simp only [List.length_append, List.length_cons]
        rw [if_pos (by omega), reads_arguments es hes h.2 ws]

end

/-- **The reader finds every formula of the grammar from its words.** -/
theorem formula?_words {f : Option Expr} (h : ∀ e ∈ f, e.Layered) :
    formula? (formulaWords f) = some f := by
  cases f with
  | none => rfl
  | some e =>
      obtain ⟨w, ws, hwords, -⟩ := e.words_eq_cons
      have hreads := (reads_layered e (h e rfl)).1 [] endsExpression_nil.endsTerm
      rw [List.append_nil, sums_of_ends endsExpression_nil] at hreads
      rw [formulaWords]
      rw [hwords] at hreads ⊢
      rw [formula?, hreads]
      simp

end Formula.Reference
