/-
What has been read where reading stops.

The configuration at a stop is not always one that a stage has.  A word that makes the tree
too deep has been taken, quoted text that is left open counts as an operand, and a call that
is cut off is ended.  `Config.Left` lists these cases once.  They keep what is known of the
configurations of stages, `Config.Regular`: the order of the operators, the numbers, and how
many calls are inside each other.
-/
import Formula.Proofs.Number.Literal
import Formula.Proofs.Reading.Refusals

namespace Formula

namespace Config

/-- What has been read where reading stops behind the configuration `c`. -/
inductive Left (limits : Limits) (c : Config) : Config → Prop
  /-- Nothing more. -/
  | same : Left limits c c
  /-- Quoted text that is left open. -/
  | openText (content : String) (hoperand : c.operand = none) :
      Left limits c { c with operand := some (.text content) }
  /-- One more word. -/
  | fed {w : Word} {d : Config} (hfeed : c.feed w = .ok d)
      (hcalls : d.outer.length ≤ limits.callDepth) (hplain : ∀ x, w = .number x → x.IsPlain) :
      Left limits c d
  /-- A call that is ended where an argument should be. -/
  | ended {call : OpenCall} {outer : List OpenCall} (hc : c = ⟨[], none, call :: outer⟩) :
      Left limits c (call.close outer)

/-- What has been read where a word is refused. -/
theorem feed_error_left {limits : Limits} {c d : Config} {w : Word} {cause : Cause}
    (h : c.feed w = .error (cause, d)) : Left limits c d := by
  cases refuses_of_feed h with
  | operator | comma | emptyBrackets | unopened | noOperator | outsideCall | insideBrackets =>
      exact .same
  | emptyArgument hc => exact .ended hc

/-- A closing bracket ends a call after an argument. -/
theorem feed_closing {parts : List OpenPart} {call : OpenCall} {outer : List OpenCall}
    {e argument : Expr} (henclose : enclose parts e = (argument, none)) :
    (Config.mk parts (some e) (call :: outer)).feed .closing =
      .ok ((call.push argument).close outer) := by
  simp only [feed, feedAfter, closeAfter, henclose]

/-- What has been read where the text ends too early.  A call that is still open after an
operand is ended as a closing bracket would end it. -/
theorem finish_error_left {limits : Limits} {c d : Config} {cause : Cause}
    (hcalls : c.outer.length ≤ limits.callDepth) (h : c.finish = .error (cause, d)) :
    Left limits c d := by
  cases unfinished_of_finish h with
  | missing | openBracket => exact .same
  | openArgument => exact .ended rfl
  | @openCall parts call outer e argument henclose =>
      refine .fed (feed_closing henclose) ?_ (by simp)
      simp only [List.length_cons] at hcalls
      exact Nat.le_of_succ_le hcalls

end Config

/-- **What has been read where reading stops.** -/
theorem Stage.left_of_next {limits : Limits} {s : Stage} {stop : Stop}
    (hcalls : s.config.outer.length ≤ limits.callDepth) (h : s.next limits = .refused stop) :
    s.config.Left limits stop.config := by
  have hfollows := follows_next limits s
  rw [h] at hfollows
  cases hfollows with
  | value | tooManyCalls | badNumber | stranger => exact .same
  | tooDeep hlex hfeed hentered _ =>
      refine .fed hfeed hentered ?_
      rintro x rfl
      exact lex_number_isPlain hlex
  | word _ _ hfeed => exact Config.feed_error_left hfeed
  | endOfText _ hfinish => exact Config.finish_error_left hcalls hfinish
  | openText hoperand _ => exact .openText _ hoperand

/-! ### What is known of all configurations -/

/-- What is known of everything that is read word by word. -/
structure Config.Regular (limits : Limits) (c : Config) : Prop where
  ordered : c.Ordered
  plain : ∀ x, .number x ∈ c.words → x.IsPlain
  callDepth_le : c.callDepth ≤ limits.callDepth

namespace Config

/-- The words of a call that has been ended are those that have been read, and the bracket. -/
theorem mem_words_close {call : OpenCall} {outer : List OpenCall} {w : Word} (hw : w ≠ .closing)
    (h : w ∈ (call.close outer).words) : w ∈ outerWords (call :: outer) := by
  have hlist : w ∈ Expr.listWords call.done.reverse → w ∈ doneWords call.done := by
    cases call.done with
    | nil => simp [Expr.listWords]
    | cons e es =>
        rw [listWords_reverse, doneWords]
        simp only [List.mem_append]
        rintro (hdone | he)
        · exact .inl hdone
        · exact .inr (.inl he)
  rw [words, OpenCall.close] at h
  simp only [formulaWords] at h
  rw [Expr.words] at h
  rw [outerWords]
  simp only [List.mem_append, List.mem_cons] at h ⊢
  rcases h with houter | hparts | hname | hargument | hclosing
  · exact .inl houter
  · exact .inr (.inl hparts)
  · exact .inr (.inr (.inl hname))
  · exact .inr (.inr (.inr (hlist hargument)))
  · simp [hw] at hclosing

variable {limits : Limits} {c d : Config}

theorem start_regular (limits : Limits) : start.Regular limits :=
  ⟨start_ordered, by simp [words, start, outerWords, partsWords, formulaWords], Nat.zero_le _⟩

theorem feed_regular {w : Word} (h : c.Regular limits) (hfeed : c.feed w = .ok d)
    (hcalls : d.outer.length ≤ limits.callDepth) (hplain : ∀ x, w = .number x → x.IsPlain) :
    d.Regular limits := by
  refine ⟨feed_ordered h.ordered hfeed, ?_, ?_⟩
  · intro x hx
    rw [feed_words hfeed, List.mem_append, List.mem_singleton] at hx
    rcases hx with hx | hx
    · exact h.plain x hx
    · exact hplain x hx.symm
  · have hdepth := feed_callDepth hfeed
    have hbefore := h.callDepth_le
    omega

/-- Where reading stops, the same is known as before. -/
theorem Left.regular (h : c.Left limits d) (hc : c.Regular limits) : d.Regular limits := by
  cases h with
  | same => exact hc
  | openText content hoperand =>
      refine ⟨⟨hc.ordered.parts, by simp [Expr.Layered, Expr.level], hc.ordered.outer⟩, ?_, ?_⟩
      · intro x hx
        refine hc.plain x ?_
        simpa [words, formulaWords, Expr.words, hoperand] using hx
      · have hdepth := hc.callDepth_le
        rw [callDepth, hoperand] at hdepth
        exact hdepth
  | fed hfeed hcalls hplain => exact feed_regular hc hfeed hcalls hplain
  | @ended call outer heq =>
      subst heq
      have houter := hc.ordered.outer
      refine ⟨?_, ?_, ?_⟩
      · exact close_ordered (houter call (by simp)) fun other hother =>
          houter other (by simp [hother])
      · intro x hx
        refine hc.plain x ?_
        rw [words]
        exact List.mem_append_left _ (mem_words_close (by simp) hx)
      · have hdepth := hc.callDepth_le
        rw [callDepth] at hdepth
        rw [close_callDepth]
        simp only at hdepth
        omega

end Config

/-! ### All stages and stops -/

namespace Stage

variable {limits : Limits}

theorem Step.plain {s t : Stage} {w : Word} (h : s.Step limits w t) :
    ∀ x, w = .number x → x.IsPlain := by
  rintro x rfl
  obtain ⟨lexeme, hlex, -⟩ := h.lexes
  exact lex_number_isPlain hlex

theorem Leads.regular {s t : Stage} {ws : List Word} (h : Leads limits s ws t)
    (hs : s.config.Regular limits) : t.config.Regular limits :=
  h.preserves hs fun hstep hs => Config.feed_regular hs hstep.feeds hstep.admitted.1 hstep.plain

theorem Leads.admitted {s t : Stage} {ws : List Word} (h : Leads limits s ws t)
    (hs : s.config.Admitted limits) : t.config.Admitted limits :=
  h.preserves hs fun hstep _ => hstep.admitted

theorem start_admitted (limits : Limits) (text : List Char) :
    (start text).config.Admitted limits := ⟨Nat.zero_le _, Nat.zero_le _⟩

/-- What has been read where reading stops is regular. -/
theorem regular_of_refused {text : List Char} {stop : Stop}
    (h : (start text).read limits = .refused stop) : stop.config.Regular limits := by
  obtain ⟨ws, t, hleads, hnext⟩ := leads_of_refused h
  have hleft := left_of_next (hleads.admitted (start_admitted limits text)).1 hnext
  exact hleft.regular (hleads.regular (Config.start_regular limits))

end Stage

end Formula
