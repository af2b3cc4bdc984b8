/-
What holds of everything that is read word by word.

Two invariants carry this.  `Config.Ordered`: the open operators around the place of reading
bind the more tightly the further inside they are, everything complete is in layers, and an
operand that has just been read is a factor.  So whatever is closed is in layers as well.
`Config.callDepth` counts the calls inside each other, those around the place of reading
included; it only grows when a call is entered.

Closing changes no height: an operator or a bracket has the same height when it is open, with
what has been read below it, and when it is complete.
-/
import Formula.Proofs.Reading.Config

namespace Formula

/-! ### Layers -/

/-- How tightly the innermost open operator binds, if nothing else is open inside it. -/
def strength : List OpenPart → Nat
  | .operator op _ :: _ => op.level
  | _ => 0

/-- The open operators bind the more tightly the further inside they are, and their left
operands are in layers. -/
def PartsOrdered : List OpenPart → Prop
  | [] => True
  | .bracket :: parts => PartsOrdered parts
  | .operator op left :: parts =>
    left.Layered ∧ op.level ≤ left.level ∧ strength parts < op.level ∧ PartsOrdered parts

theorem PartsOrdered.tail {part : OpenPart} {parts : List OpenPart}
    (h : PartsOrdered (part :: parts)) : PartsOrdered parts := by
  cases part with
  | bracket => exact h
  | operator op left => exact h.2.2.2

/-- What is around a call and its complete arguments is in order. -/
def OpenCall.Ordered (call : OpenCall) : Prop :=
  PartsOrdered call.parts ∧ Expr.AllLayered call.done

/-- What has been read is in order. -/
structure Config.Ordered (c : Config) : Prop where
  parts : PartsOrdered c.parts
  operand : ∀ e ∈ c.operand, e.Layered ∧ e.level = 3
  outer : ∀ call ∈ c.outer, call.Ordered

/-- Nothing is closed that binds less tightly. -/
theorem reduce_of_strength_lt {bound : Nat} {parts : List OpenPart} (e : Expr)
    (h : strength parts < bound) : reduce bound parts e = (parts, e) := by
  cases parts with
  | nil => rfl
  | cons part parts =>
      cases part with
      | bracket => rfl
      | operator op left =>
          have hop : ¬bound ≤ op.level := Nat.not_le_of_lt h
          rw [reduce, if_neg hop]

/-- Closing operators puts them in layers.  What is closed last binds at least as tightly as
`bound`, and what stays open binds less tightly. -/
theorem reduce_ordered {bound : Nat} {parts : List OpenPart} {e : Expr} (hbound : 0 < bound)
    (hparts : PartsOrdered parts) (he : e.Layered) (hle : bound ≤ e.level)
    (hlt : strength parts < e.level) :
    PartsOrdered (reduce bound parts e).1 ∧ (reduce bound parts e).2.Layered ∧
      bound ≤ (reduce bound parts e).2.level ∧ strength (reduce bound parts e).1 < bound := by
  induction parts generalizing e with
  | nil => exact ⟨hparts, he, hle, hbound⟩
  | cons part parts ih =>
      cases part with
      | bracket => exact ⟨hparts, he, hle, hbound⟩
      | operator op left =>
          obtain ⟨hleft, hlower, hstrength, hrest⟩ := hparts
          rw [reduce]
          by_cases hop : bound ≤ op.level
          · rw [if_pos hop]
            exact ih hrest ⟨hleft, he, hlower, hlt⟩ hop hstrength
          · rw [if_neg hop]
            exact ⟨⟨hleft, hlower, hstrength, hrest⟩, he, hle, Nat.lt_of_not_le hop⟩

/-- What a bracket closes is in layers, and what is around it stays in order. -/
theorem enclose_ordered {parts : List OpenPart} {e inner : Expr} {rest : Option (List OpenPart)}
    (h : enclose parts e = (inner, rest)) (hparts : PartsOrdered parts) (he : e.Layered)
    (hlt : strength parts < e.level) : inner.Layered ∧ ∀ ps ∈ rest, PartsOrdered ps := by
  induction parts generalizing e with
  | nil =>
      obtain ⟨rfl, rfl⟩ := Prod.mk.inj h
      exact ⟨he, by simp⟩
  | cons part parts ih =>
      cases part with
      | bracket =>
          obtain ⟨rfl, rfl⟩ := Prod.mk.inj h
          refine ⟨he, ?_⟩
          intro ps hps
          obtain rfl := Option.some.inj hps
          exact hparts
      | operator op left =>
          obtain ⟨hleft, hlower, hstrength, hrest⟩ := hparts
          exact ih h hrest ⟨hleft, he, hlower, hlt⟩ hstrength

theorem strength_lt (parts : List OpenPart) : strength parts < 3 := by
  cases parts with
  | nil => decide
  | cons part parts =>
      cases part with
      | bracket => exact Nat.succ_pos 2
      | operator op left => exact op.level_lt

namespace Config

theorem start_ordered : start.Ordered := ⟨trivial, by simp [start], by simp [start]⟩

/-- Ending a call keeps the order. -/
theorem close_ordered {call : OpenCall} {outer : List OpenCall} (hcall : call.Ordered)
    (houter : ∀ other ∈ outer, other.Ordered) : (call.close outer).Ordered := by
  refine ⟨hcall.1, ?_, houter⟩
  intro e he
  obtain rfl := Option.some.inj he
  refine ⟨?_, rfl⟩
  show Expr.AllLayered call.done.reverse
  rw [Expr.allLayered_iff]
  intro e he
  exact (Expr.allLayered_iff _).mp hcall.2 e (List.mem_reverse.mp he)

theorem push_ordered {call : OpenCall} {argument : Expr} (hcall : call.Ordered)
    (h : argument.Layered) : (call.push argument).Ordered :=
  ⟨hcall.1, h, hcall.2⟩

/-- **Every word that is taken keeps the order.** -/
theorem feed_ordered {c c' : Config} {w : Word} (hc : c.Ordered) (h : c.feed w = .ok c') :
    c'.Ordered := by
  obtain ⟨hparts, hoperand, houter⟩ := hc
  have hfactor : ∀ e ∈ c.operand, e.Layered ∧ strength c.parts < e.level := by
    intro e he
    obtain ⟨hlayered, hlevel⟩ := hoperand e he
    exact ⟨hlayered, by rw [hlevel]; exact strength_lt c.parts⟩
  cases fed_of_feed h with
  | number | text | name => exact ⟨hparts, by simp [Expr.Layered, Expr.level], houter⟩
  | function =>
      refine ⟨trivial, by simp, ?_⟩
      intro call hcall
      rcases List.mem_cons.mp hcall with rfl | hcall
      · exact ⟨hparts, trivial⟩
      · exact houter call hcall
  | opening => exact ⟨hparts, by simp, houter⟩
  | @closeEmpty call outer hdone =>
      exact close_ordered (houter call (by simp))
        fun other hother => houter other (by simp [hother])
  | operator e op =>
      obtain ⟨he, hlt⟩ := hfactor e rfl
      have hle : op.level ≤ e.level := by
        rw [(hoperand e rfl).2]
        exact Nat.le_of_lt op.level_lt
      obtain ⟨hrest, hleft, hlower, hstrength⟩ := reduce_ordered op.level_pos hparts he hle hlt
      exact ⟨⟨hleft, hlower, hstrength, hrest⟩, by simp, houter⟩
  | @closeGroup parts rest outer e inner henclose =>
      obtain ⟨he, hlt⟩ := hfactor e rfl
      obtain ⟨hinner, hrest⟩ := enclose_ordered henclose hparts he hlt
      refine ⟨hrest _ rfl, ?_, houter⟩
      intro e he
      obtain rfl := Option.some.inj he
      exact ⟨hinner, rfl⟩
  | @closeCall parts call outer e argument henclose =>
      obtain ⟨he, hlt⟩ := hfactor e rfl
      obtain ⟨hargument, -⟩ := enclose_ordered henclose hparts he hlt
      exact close_ordered (push_ordered (houter call (by simp)) hargument)
        fun other hother => houter other (by simp [hother])
  | @separate parts call outer e argument henclose =>
      obtain ⟨he, hlt⟩ := hfactor e rfl
      obtain ⟨hargument, -⟩ := enclose_ordered henclose hparts he hlt
      refine ⟨trivial, by simp, ?_⟩
      intro other hother
      rcases List.mem_cons.mp hother with rfl | hother
      · exact push_ordered (houter call (by simp)) hargument
      · exact houter other (by simp [hother])

/-- A formula that is complete is in layers. -/
theorem finish_layered {c : Config} {f : Option Expr} (hc : c.Ordered) (h : c.finish = .ok f) :
    ∀ e ∈ f, e.Layered := by
  rcases finish_cases h with ⟨rfl, rfl⟩ | ⟨parts, e, inner, rfl, henclose, rfl⟩
  · simp
  · obtain ⟨he, hlevel⟩ := hc.operand e rfl
    have hlt : strength parts < e.level := by rw [hlevel]; exact strength_lt parts
    obtain ⟨hinner, -⟩ := enclose_ordered henclose hc.parts he hlt
    simpa using hinner

end Config

/-! ### Heights -/

/-- The height of the root if what hangs below the innermost open part gives that the height
`h`. -/
def partsHeight (h : Nat) : List OpenPart → Nat
  | [] => h
  | .bracket :: parts => partsHeight (h + 1) parts
  | .operator _ left :: parts => partsHeight (max (left.height + 1) h + 1) parts

/-- The height of the tree at hand. -/
def Config.height (c : Config) : Nat := partsHeight (formulaHeight c.operand) c.parts

theorem partsHeight_mono {h k : Nat} (hle : h ≤ k) (parts : List OpenPart) :
    partsHeight h parts ≤ partsHeight k parts := by
  induction parts generalizing h k with
  | nil => exact hle
  | cons part parts ih =>
      cases part with
      | bracket => exact ih (by omega)
      | operator op left => exact ih (by omega)

theorem le_partsHeight (h : Nat) (parts : List OpenPart) : h ≤ partsHeight h parts := by
  induction parts generalizing h with
  | nil => exact Nat.le_refl h
  | cons part parts ih =>
      cases part with
      | bracket => exact Nat.le_trans (by omega) (ih (h + 1))
      | operator op left => exact Nat.le_trans (by omega) (ih (max (left.height + 1) h + 1))

theorem enclose_height {parts : List OpenPart} {e inner : Expr}
    (h : enclose parts e = (inner, none)) :
    partsHeight (e.height + 1) parts = inner.height + 1 := by
  induction parts generalizing e with
  | nil =>
      obtain ⟨rfl, -⟩ := Prod.mk.inj h
      rfl
  | cons part parts ih =>
      cases part with
      | bracket => cases h
      | operator op left =>
          have hbinary := ih h
          rw [Expr.height] at hbinary
          exact hbinary

/-- The height of a formula that is complete is the height of the tree at hand. -/
theorem Config.finish_height {c : Config} {f : Option Expr} (h : c.finish = .ok f) :
    formulaHeight f = c.height := by
  rcases finish_cases h with ⟨rfl, rfl⟩ | ⟨parts, e, inner, rfl, henclose, rfl⟩
  · rfl
  · rw [formulaHeight, ← enclose_height henclose]
    rfl

/-! ### Calls inside each other -/

/-- The number of calls inside each other in the left operands of open operators. -/
def partsCallDepth : List OpenPart → Nat
  | [] => 0
  | .bracket :: parts => partsCallDepth parts
  | .operator _ left :: parts => max left.callDepth (partsCallDepth parts)

/-- The number of calls inside each other in and around some open calls. -/
def outerCallDepth : List OpenCall → Nat
  | [] => 0
  | call :: outer =>
    max (max (outer.length + partsCallDepth call.parts)
      (outer.length + 1 + Expr.listCallDepth call.done)) (outerCallDepth outer)

/-- The number of calls inside each other in all that has been read. -/
def Config.callDepth (c : Config) : Nat :=
  max (c.outer.length + max (partsCallDepth c.parts) (formulaCallDepth c.operand))
    (outerCallDepth c.outer)

theorem reduce_callDepth (bound : Nat) (parts : List OpenPart) (e : Expr) :
    max (partsCallDepth (reduce bound parts e).1) (reduce bound parts e).2.callDepth =
      max (partsCallDepth parts) e.callDepth := by
  induction parts generalizing e with
  | nil => rfl
  | cons part parts ih =>
      cases part with
      | bracket => rfl
      | operator op left =>
          rw [reduce]
          split
          · rw [ih, Expr.callDepth, partsCallDepth]
            omega
          · rfl

theorem enclose_callDepth {parts : List OpenPart} {e inner : Expr} {rest : Option (List OpenPart)}
    (h : enclose parts e = (inner, rest)) :
    inner.callDepth ≤ max (partsCallDepth parts) e.callDepth ∧
      ∀ ps ∈ rest, partsCallDepth ps ≤ partsCallDepth parts := by
  induction parts generalizing e with
  | nil =>
      obtain ⟨rfl, rfl⟩ := Prod.mk.inj h
      exact ⟨Nat.le_max_right _ _, by simp⟩
  | cons part parts ih =>
      cases part with
      | bracket =>
          obtain ⟨rfl, rfl⟩ := Prod.mk.inj h
          refine ⟨Nat.le_max_right _ _, ?_⟩
          intro ps hps
          obtain rfl := Option.some.inj hps
          exact Nat.le_refl _
      | operator op left =>
          obtain ⟨hinner, hrest⟩ := ih h
          rw [Expr.callDepth] at hinner
          rw [partsCallDepth]
          refine ⟨by omega, ?_⟩
          intro ps hps
          have hle := hrest ps hps
          omega

theorem listCallDepth_append (es fs : List Expr) :
    Expr.listCallDepth (es ++ fs) = max (Expr.listCallDepth es) (Expr.listCallDepth fs) := by
  induction es with
  | nil => rw [List.nil_append, Expr.listCallDepth, Nat.zero_max]
  | cons e es ih => rw [List.cons_append, Expr.listCallDepth, Expr.listCallDepth, ih]; omega

theorem listCallDepth_reverse (es : List Expr) :
    Expr.listCallDepth es.reverse = Expr.listCallDepth es := by
  induction es with
  | nil => rfl
  | cons e es ih =>
      rw [List.reverse_cons, listCallDepth_append, ih, Expr.listCallDepth, Expr.listCallDepth,
        Expr.listCallDepth]
      omega

namespace Config

theorem close_callDepth (call : OpenCall) (outer : List OpenCall) :
    (call.close outer).callDepth = outerCallDepth (call :: outer) := by
  rw [callDepth, OpenCall.close]
  simp only [formulaCallDepth]
  rw [Expr.callDepth, listCallDepth_reverse, outerCallDepth]
  omega

theorem push_callDepth (call : OpenCall) (argument : Expr) (outer : List OpenCall) :
    outerCallDepth (call.push argument :: outer) =
      max (outer.length + 1 + argument.callDepth) (outerCallDepth (call :: outer)) := by
  rw [outerCallDepth, outerCallDepth, OpenCall.push]
  simp only [Expr.listCallDepth]
  omega

/-- **Calls only nest deeper when a call is entered.** -/
theorem feed_callDepth {c c' : Config} {w : Word} (h : c.feed w = .ok c') :
    c'.callDepth ≤ max c.callDepth c'.outer.length := by
  cases fed_of_feed h with
  | number | text | name =>
      simp only [callDepth, formulaCallDepth, Expr.callDepth]
      omega
  | function =>
      simp only [callDepth, formulaCallDepth, partsCallDepth, outerCallDepth,
        Expr.listCallDepth, List.length_cons]
      omega
  | opening =>
      simp only [callDepth, formulaCallDepth, partsCallDepth]
      omega
  | closeEmpty =>
      rw [close_callDepth, callDepth]
      simp only
      omega
  | @operator parts outer e op =>
      have hreduce := reduce_callDepth op.level parts e
      simp only [callDepth, formulaCallDepth, partsCallDepth]
      omega
  | closeGroup henclose =>
      obtain ⟨hinner, hrest⟩ := enclose_callDepth henclose
      have hparts := hrest _ rfl
      simp only [callDepth, formulaCallDepth, Expr.callDepth]
      omega
  | closeCall henclose =>
      obtain ⟨hargument, -⟩ := enclose_callDepth henclose
      rw [close_callDepth, push_callDepth, callDepth]
      simp only [formulaCallDepth, List.length_cons]
      omega
  | separate henclose =>
      obtain ⟨hargument, -⟩ := enclose_callDepth henclose
      rw [callDepth, callDepth]
      simp only [push_callDepth, formulaCallDepth, partsCallDepth, List.length_cons]
      omega

theorem finish_callDepth {c : Config} {f : Option Expr} (h : c.finish = .ok f) :
    formulaCallDepth f ≤ c.callDepth := by
  rcases finish_cases h with ⟨rfl, rfl⟩ | ⟨parts, e, inner, rfl, henclose, rfl⟩
  · exact Nat.zero_le _
  · obtain ⟨hinner, -⟩ := enclose_callDepth henclose
    simp only [formulaCallDepth, callDepth]
    omega

end Config

end Formula
