/-
Every formula is read, and everything that has been read can become a formula.

The words of an expression lead from a place where a value has to come to a place after that
value.  No operator of the expression has been closed there that does not have to be: what
the reader is left with is `descend`, the operators on the right edge of the expression, all
open.  `takes_expr` shows that the way there is never higher than its end and never nests
calls deeper, so the limits never stop a formula that keeps to them.

`completes` is about the other direction in time: from every configuration there is a way to
a formula.  A value and closing brackets are enough.
-/
import Formula.Proofs.Reading.Soundness
import Formula.Settings

namespace Formula

/-- The limits allow what has been read. -/
def Config.Admitted (limits : Limits) (c : Config) : Prop :=
  c.outer.length ≤ limits.callDepth ∧ c.height ≤ limits.treeDepth

/-- Taking words leads from one configuration to another, and the limits allow each one on
the way. -/
inductive Takes (limits : Limits) : Config → List Word → Config → Prop
  | nil (c : Config) : Takes limits c [] c
  | cons {c d e : Config} {w : Word} {ws : List Word} (hfeed : c.feed w = .ok d)
      (hadmitted : d.Admitted limits) (hrest : Takes limits d ws e) : Takes limits c (w :: ws) e

namespace Takes

variable {limits : Limits} {c d e : Config} {w : Word} {us ws : List Word}

theorem one (hfeed : c.feed w = .ok d) (hadmitted : d.Admitted limits) :
    Takes limits c [w] d :=
  .cons hfeed hadmitted (.nil d)

theorem append (hfirst : Takes limits c us d) (hlast : Takes limits d ws e) :
    Takes limits c (us ++ ws) e := by
  induction hfirst with
  | nil => exact hlast
  | cons hfeed hadmitted _ ih => exact .cons hfeed hadmitted (ih hlast)

end Takes

/-! ### Expressions -/

/-- What is open after the words of an expression: the operators on its right edge, and the
operand at the end of it. -/
def descend (parts : List OpenPart) : Expr → List OpenPart × Expr
  | .binary op left right => descend (.operator op left :: parts) right
  | e => (parts, e)

/-- After the words of an expression. -/
def Config.after (parts : List OpenPart) (outer : List OpenCall) (e : Expr) : Config :=
  ⟨(descend parts e).1, some (descend parts e).2, outer⟩

/-- An operator that binds no more tightly closes the right edge again. -/
theorem reduce_descend {bound : Nat} (parts : List OpenPart) :
    (e : Expr) → e.Layered → bound ≤ e.level →
      reduce bound (descend parts e).1 (descend parts e).2 = reduce bound parts e
  | .number _, _, _ | .text _, _, _ | .name _, _, _ | .call _ _, _, _ | .paren _, _, _ => rfl
  | .binary op left right, ⟨_, hright, _, hupper⟩, hle => by
    rw [Expr.level] at hle
    rw [descend, reduce_descend (.operator op left :: parts) right hright (by omega), reduce,
      if_pos hle]

/-- A closing bracket closes the right edge again. -/
theorem enclose_descend (parts : List OpenPart) :
    (e : Expr) → enclose (descend parts e).1 (descend parts e).2 = enclose parts e
  | .number _ | .text _ | .name _ | .call _ _ | .paren _ => rfl
  | .binary op left right => by
    rw [descend, enclose_descend (.operator op left :: parts) right, enclose]

theorem height_after (parts : List OpenPart) (outer : List OpenCall) :
    (e : Expr) → (Config.after parts outer e).height = partsHeight (e.height + 1) parts
  | .number _ | .text _ | .name _ | .call _ _ | .paren _ => rfl
  | .binary op left right => by
    have hright := height_after (.operator op left :: parts) outer right
    rw [Config.after, descend, ← Config.after, hright, partsHeight, Expr.height]

mutual

/-- **The words of an expression are taken where a value has to come**, if the operators
around leave room for it and the limits allow the place after it. -/
theorem takes_expr {limits : Limits} (e : Expr) (he : e.Layered) (parts : List OpenPart)
    (outer : List OpenCall) (hfit : strength parts < e.level)
    (hheight : partsHeight (e.height + 1) parts ≤ limits.treeDepth)
    (hcalls : outer.length + e.callDepth ≤ limits.callDepth) :
    Takes limits ⟨parts, none, outer⟩ e.words (Config.after parts outer e) := by
  have hadmitted : (Config.after parts outer e).Admitted limits :=
    ⟨Nat.le_trans (Nat.le_add_right _ _) hcalls, by rw [height_after]; exact hheight⟩
  cases e with
  | number | text | name => rw [Expr.words]; exact .one rfl hadmitted
  | call f es =>
      rw [Expr.callDepth] at hcalls
      rw [Expr.words]
      have henter : (Config.mk [] none (⟨f, parts, []⟩ :: outer)).Admitted limits := by
        refine ⟨?_, Nat.zero_le _⟩
        simp only [List.length_cons]
        omega
      refine .cons rfl henter ?_
      by_cases hne : es = []
      · subst hne
        rw [Expr.listWords]
        exact .one rfl hadmitted
      · rw [Expr.height] at hheight
        exact takes_list es hne he f parts outer [] hadmitted
          (Nat.le_trans (le_partsHeight _ parts) hheight) (by omega)
  | paren inner =>
      rw [Expr.callDepth] at hcalls
      rw [Expr.height] at hheight
      rw [Expr.words]
      have hmono : partsHeight 1 parts ≤ partsHeight (inner.height + 1 + 1) parts :=
        partsHeight_mono (by omega) parts
      have henter : (Config.mk (.bracket :: parts) none outer).Admitted limits :=
        ⟨by show outer.length ≤ _; omega, Nat.le_trans hmono hheight⟩
      have hinner := takes_expr inner he (.bracket :: parts) outer inner.level_pos hheight hcalls
      have hclose : (Config.after (.bracket :: parts) outer inner).feed .closing =
          .ok (Config.after parts outer (.paren inner)) := by
        simp only [Config.after, Config.feed, Config.feedAfter, Config.closeAfter]
        rw [enclose_descend]
        rfl
      exact .cons rfl henter (hinner.append (.one hclose hadmitted))
  | binary op left right =>
      obtain ⟨hleft, hright, hlower, hupper⟩ := he
      rw [Expr.level] at hfit
      rw [Expr.callDepth] at hcalls
      rw [Expr.height] at hheight
      rw [Expr.words]
      have hleftHeight : partsHeight (left.height + 1) parts ≤ limits.treeDepth :=
        Nat.le_trans (partsHeight_mono (by omega) parts) hheight
      have hopHeight : partsHeight (max (left.height + 1) 0 + 1) parts ≤ limits.treeDepth :=
        Nat.le_trans (partsHeight_mono (by omega) parts) hheight
      have htakesLeft := takes_expr left hleft parts outer (by omega) hleftHeight (by omega)
      have hinfix : (Config.after parts outer left).feed (.operator op) =
          .ok ⟨.operator op left :: parts, none, outer⟩ := by
        simp only [Config.after, Config.feed, Config.feedAfter, Config.infixAfter]
        rw [reduce_descend parts left hleft hlower, reduce_of_strength_lt left hfit]
      have hmiddle : (Config.mk (.operator op left :: parts) none outer).Admitted limits :=
        ⟨by show outer.length ≤ _; omega, hopHeight⟩
      have htakesRight := takes_expr right hright (.operator op left :: parts) outer hupper
        (by rw [partsHeight]; exact hheight) (by omega)
      exact htakesLeft.append (.cons hinfix hmiddle htakesRight)

/-- The words of the last arguments of a call are taken, and the bracket behind them. -/
theorem takes_list {limits : Limits} (es : List Expr) (hne : es ≠ []) (hes : Expr.AllLayered es)
    (f : String) (parts : List OpenPart) (outer : List OpenCall) (done : List Expr)
    (hadmitted : (Config.mk parts (some (.call f (done.reverse ++ es))) outer).Admitted limits)
    (hheight : Expr.listHeight es + 1 ≤ limits.treeDepth)
    (hcalls : outer.length + 1 + Expr.listCallDepth es ≤ limits.callDepth) :
    Takes limits ⟨[], none, ⟨f, parts, done⟩ :: outer⟩ (Expr.listWords es ++ [.closing])
      ⟨parts, some (.call f (done.reverse ++ es)), outer⟩ := by
  cases es with
  | nil => exact absurd rfl hne
  | cons e es =>
      rw [Expr.listHeight] at hheight
      rw [Expr.listCallDepth] at hcalls
      have hfirst := takes_expr e hes.1 [] (⟨f, parts, done⟩ :: outer) e.level_pos
        (by show e.height + 1 ≤ limits.treeDepth; omega) (by rw [List.length_cons]; omega)
      have henclose := enclose_descend [] e
      rw [enclose] at henclose
      rw [Expr.listWords, List.append_assoc]
      refine hfirst.append ?_
      by_cases hlast : es = []
      · subst hlast
        rw [Expr.moreWords]
        refine .one ?_ hadmitted
        simp only [Config.after, Config.feed, Config.feedAfter, Config.closeAfter, henclose]
        simp [OpenCall.push, OpenCall.close]
      · rw [Grammar.moreWords_of_ne_nil hlast, List.cons_append]
        have hcomma : (Config.after [] (⟨f, parts, done⟩ :: outer) e).feed .comma =
            .ok ⟨[], none, ⟨f, parts, e :: done⟩ :: outer⟩ := by
          simp only [Config.after, Config.feed, Config.feedAfter, Config.separateAfter, henclose]
          rfl
        have hmiddle : (Config.mk [] none (⟨f, parts, e :: done⟩ :: outer)).Admitted limits := by
          refine ⟨?_, Nat.zero_le _⟩
          simp only [List.length_cons]
          omega
        have hdone : done.reverse ++ e :: es = (e :: done).reverse ++ es := by simp
        rw [hdone] at hadmitted ⊢
        exact .cons hcomma hmiddle
          (takes_list es hlast hes.2 f parts outer (e :: done) hadmitted (by omega) (by omega))

end

/-- **The words of a formula are taken from the start to the end.** -/
theorem takes_formula {limits : Limits} {f : Option Expr} (hf : ∀ e ∈ f, e.Layered)
    (hcalls : formulaCallDepth f ≤ limits.callDepth)
    (hheight : formulaHeight f ≤ limits.treeDepth) :
    ∃ c, Takes limits Config.start (formulaWords f) c ∧ c.finish = .ok f := by
  cases f with
  | none => exact ⟨Config.start, .nil _, rfl⟩
  | some e =>
      have htakes := takes_expr e (hf e rfl) [] [] e.level_pos hheight
        (by rw [List.length_nil, Nat.zero_add]; exact hcalls)
      refine ⟨_, htakes, ?_⟩
      have henclose := enclose_descend [] e
      simp only [Config.after, Config.finish, henclose, enclose]

/-! ### From every place to a formula -/

/-- Without limits. -/
inductive Feeds : Config → List Word → Config → Prop
  | nil (c : Config) : Feeds c [] c
  | cons {c d e : Config} {w : Word} {ws : List Word} (hfeed : c.feed w = .ok d)
      (hrest : Feeds d ws e) : Feeds c (w :: ws) e

namespace Feeds

variable {c d : Config} {ws : List Word}

theorem words (h : Feeds c ws d) : d.words = c.words ++ ws := by
  induction h with
  | nil => simp
  | cons hfeed _ ih => rw [ih, Config.feed_words hfeed, List.append_assoc]; rfl

theorem ordered (h : Feeds c ws d) (hc : c.Ordered) : d.Ordered := by
  induction h with
  | nil => exact hc
  | cons hfeed _ ih => exact ih (Config.feed_ordered hc hfeed)

end Feeds

/-- The number of brackets that are open around some calls, those of the calls included. -/
def outerBrackets : List OpenCall → Nat
  | [] => 0
  | call :: outer => openBrackets call.parts + outerBrackets outer + 1

/-- After a value, closing brackets are enough. -/
theorem completes_after (n : Nat) (parts : List OpenPart) (e : Expr) (outer : List OpenCall)
    (hn : openBrackets parts + outerBrackets outer = n) :
    ∃ c f, Feeds ⟨parts, some e, outer⟩ (List.replicate n .closing) c ∧ c.finish = .ok f := by
  induction n generalizing parts e outer with
  | zero =>
      rcases enclose_brackets parts e with ⟨inner, henclose, -⟩ | ⟨inner, rest, -, hrest⟩
      · cases outer with
        | nil => exact ⟨_, some inner, .nil _, by simp [Config.finish, henclose]⟩
        | cons call outer => rw [outerBrackets] at hn; omega
      · omega
  | succ n ih =>
      rcases enclose_brackets parts e with ⟨inner, henclose, hzero⟩ | ⟨inner, rest, henclose, hrest⟩
      · cases outer with
        | nil => rw [outerBrackets] at hn; omega
        | cons call outer =>
            rw [outerBrackets] at hn
            obtain ⟨c, f, hfeeds, hfinish⟩ :=
              ih call.parts (.call call.name (inner :: call.done).reverse) outer (by omega)
            refine ⟨c, f, .cons ?_ hfeeds, hfinish⟩
            simp [Config.feed, Config.feedAfter, Config.closeAfter, henclose, OpenCall.push,
              OpenCall.close]
      · obtain ⟨c, f, hfeeds, hfinish⟩ := ih rest (.paren inner) outer (by omega)
        refine ⟨c, f, .cons ?_ hfeeds, hfinish⟩
        simp [Config.feed, Config.feedAfter, Config.closeAfter, henclose]

/-- **From every configuration there is a way to a formula**: a name, unless an operand has
just been read, and closing brackets. -/
theorem completes (c : Config) (name : String) :
    ∃ n d f, Feeds c ((if c.operand.isNone then [.name name] else []) ++
      List.replicate n .closing) d ∧ d.finish = .ok f := by
  obtain ⟨parts, operand, outer⟩ := c
  cases operand with
  | none =>
      obtain ⟨d, f, hfeeds, hfinish⟩ := completes_after _ parts (.name name) outer rfl
      exact ⟨_, d, f, .cons rfl hfeeds, hfinish⟩
  | some e =>
      obtain ⟨d, f, hfeeds, hfinish⟩ := completes_after _ parts e outer rfl
      exact ⟨_, d, f, hfeeds, hfinish⟩

end Formula
