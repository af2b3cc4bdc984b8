/-
The causes of failures.

Reading gives only the causes that it names itself.  The words of a caller, `Problem.other`, are
never among them.
-/
import Formula.Proofs.Reading.Stops

namespace Formula

/-- The cause is one of those that reading names itself. -/
def Cause.IsOwn (cause : Cause) : Prop := ∀ message, cause ≠ .malformed (.other message)

namespace Config

variable {c d : Config} {cause otherwise : Cause}

theorem missing_own (h : otherwise.IsOwn) : (c.missing otherwise).IsOwn := by
  rcases c.missing_cases otherwise with ⟨symbol, heq⟩ | heq
  · simp [heq, Cause.IsOwn]
  · rw [heq]
    exact h

theorem feed_error_own {w : Word} (h : c.feed w = .error (cause, d)) : cause.IsOwn := by
  cases refuses_of_feed h with
  | operator | comma | emptyBrackets => exact missing_own (by simp [Cause.IsOwn])
  | emptyArgument | unopened | noOperator | outsideCall | insideBrackets => simp [Cause.IsOwn]

theorem finish_error_own (h : c.finish = .error (cause, d)) : cause.IsOwn := by
  rcases finish_error_cause h with rfl | ⟨symbol, rfl⟩ <;> simp [Cause.IsOwn]

end Config

/-- **Where reading stops, it names the cause itself.** -/
theorem Stage.own_of_next {limits : Limits} {s : Stage} {stop : Stop}
    (h : s.next limits = .refused stop) : stop.cause.IsOwn := by
  have hfollows := follows_next limits s
  rw [h] at hfollows
  cases hfollows with
  | word _ _ hfeed => exact Config.feed_error_own hfeed
  | endOfText _ hfinish => exact Config.finish_error_own hfinish
  | value | tooManyCalls | tooDeep | badNumber | openText | stranger =>
      simp [stopFirst, Stage.stop, Cause.IsOwn]

end Formula
