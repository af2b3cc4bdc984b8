/-
Limits that make no difference.

Reading comes to the same outcome under other limits if it does the same behind every stage
that it passes, `Stage.read_eq_of_next`.  Two changes of the limits leave that untouched: the
window is not looked at before reading stops, `Stage.next_window`, and what the limits do not
stop is not stopped by greater ones, `Stage.next_raised`.
-/
import Formula.Proofs.Reading.Refusals

namespace Formula

/-- The limits `others` quote as much as `limits`, and allow at least as many calls inside each
other and at least as many levels. -/
structure Limits.Raised (limits others : Limits) : Prop where
  window_eq : others.window = limits.window
  callDepth_le : limits.callDepth ≤ others.callDepth
  treeDepth_le : limits.treeDepth ≤ others.treeDepth

namespace Stage

variable {limits others : Limits} {s : Stage}

/-- **Reading comes to the same outcome** if every stage on its way goes on alike. -/
theorem read_eq_of_next (h : ∀ ws t, Leads limits s ws t → t.next others = t.next limits) :
    s.read others = s.read limits := by
  induction hn : s.rest.length using Nat.strongRecOn generalizing s with
  | ind n ih =>
      have hsame := h [] s (.nil s)
      cases hnext : s.next limits with
      | onward t =>
          obtain ⟨w, hstep⟩ := step_of_next hnext
          have hlt := length_rest_lt_of_next hnext
          rw [read_onward hnext, read_onward (hsame.trans hnext)]
          exact ih t.rest.length (by omega)
            (fun ws u hleads => h (w :: ws) u (.cons hstep hleads)) rfl
      | accepted f => rw [read_accepted hnext, read_accepted (hsame.trans hnext)]
      | refused stop => rw [read_refused hnext, read_refused (hsame.trans hnext)]

/-! ### The window -/

/-- The window is not looked at from stage to stage. -/
theorem next_window (hcalls : others.callDepth = limits.callDepth)
    (hdepth : others.treeDepth = limits.treeDepth) (s : Stage) :
    s.next others = s.next limits := by
  unfold next takeWord settle
  rw [hcalls, hdepth]

/-! ### Greater limits -/

/-- What is not too much for some limits is not too much for greater ones. -/
theorem settle_raised (hraised : limits.Raised others) {c : Config} {lexeme rest : List Char}
    (hfree : ∀ stop, s.settle limits c lexeme rest = .refused stop → ¬stop.cause.IsLimit) :
    s.settle others c lexeme rest = s.settle limits c lexeme rest := by
  have hcalls := hraised.callDepth_le
  have hdepth := hraised.treeDepth_le
  unfold settle at hfree ⊢
  by_cases hmany : limits.callDepth < c.outer.length
  · rw [if_pos hmany] at hfree
    exact absurd (.inr ⟨_, rfl⟩) (hfree _ rfl)
  · by_cases hdeep : limits.treeDepth < c.height
    · rw [if_neg hmany, if_pos hdeep] at hfree
      exact absurd (.inl ⟨_, rfl⟩) (hfree _ rfl)
    · rw [if_neg hmany, if_neg hdeep, if_neg (by omega), if_neg (by omega)]

/-- **A stage that the limits do not stop goes on alike under greater ones.** -/
theorem next_raised (hraised : limits.Raised others)
    (hfree : ∀ stop, s.next limits = .refused stop → ¬stop.cause.IsLimit) :
    s.next others = s.next limits := by
  unfold next at hfree ⊢
  by_cases hvalue : s.config.operand.isSome && (Lexeme.starting s.text.head?).startsValue
  · rw [if_pos hvalue, if_pos hvalue]
  · rw [if_neg hvalue] at hfree ⊢
    rw [if_neg hvalue]
    unfold takeWord at hfree ⊢
    cases hlex : lex s.text with
    | word w lexeme rest =>
        simp only [hlex] at hfree ⊢
        cases hfeed : s.config.feed w with
        | ok c =>
            simp only [hfeed] at hfree ⊢
            exact settle_raised hraised hfree
        | error failure => rfl
    | endOfText | badNumber | openText | stranger => rfl

/-- Reading that the limits do not stop comes to the same under greater ones. -/
theorem read_raised (hraised : limits.Raised others)
    (hfree : ∀ stop, s.read limits = .refused stop → ¬stop.cause.IsLimit) :
    s.read others = s.read limits := by
  refine read_eq_of_next fun ws t hleads => next_raised hraised fun stop hnext => ?_
  exact hfree stop (hleads.read_eq.trans (read_refused hnext))

end Stage

end Formula
