/-
Failures are known from their JSON.

The messages of problems begin differently, so a message tells the problem; what comes behind
the beginning is a number or a quoted character, which can be read back.  The words of a caller
could be any message, so they are left out here.
-/
import Formula.Proofs.Number.Text
import Formula.Proofs.Reading.Causes
import Formula.Proofs.Text.Quoted

namespace Formula

/-! ### Beginnings of messages -/

/-- Of two beginnings of a text one begins with the other. -/
theorem prefix_or_prefix_of_append_eq {a b s t : String} (h : a ++ s = b ++ t) :
    a.toList <+: b.toList ∨ b.toList <+: a.toList := by
  have hchars : a.toList ++ s.toList = b.toList ++ t.toList := by
    rw [← String.toList_append, ← String.toList_append, h]
  have hprefix : b.toList <+: a.toList ++ s.toList := hchars ▸ List.prefix_append _ _
  exact List.prefix_or_prefix_of_prefix (List.prefix_append _ _) hprefix

theorem toString_injective {m n : Nat} (h : toString m = toString n) : m = n := by
  rw [Nat.toString_eq_ofList_toDigits, Nat.toString_eq_ofList_toDigits] at h
  exact Decimal.toDigits_injective (String.ofList_inj.mp h)

/-! ### Messages of problems -/

namespace Problem

/-- How the message of a problem begins, whatever the problem is about. -/
def opening : Problem → String
  | unexpectedCharacter _ => "unexpected character "
  | tooDeep _ => "expression nested deeper than "
  | tooManyCalls _ => "function calls nested deeper than "
  | problem => problem.message

/-- What comes behind the beginning. -/
def detail : Problem → String
  | unexpectedCharacter c => Text.quotedChar c
  | tooDeep limit | tooManyCalls limit => toString limit
  | _ => ""

theorem message_eq (problem : Problem) : problem.message = problem.opening ++ problem.detail := by
  cases problem with
  | unexpectedCharacter | tooDeep | tooManyCalls => rfl
  | _ => exact String.append_empty.symm

/-- The problem without what it is about. -/
def form : Problem → Problem
  | unexpectedCharacter _ => unexpectedCharacter ' '
  | tooDeep _ => tooDeep 0
  | tooManyCalls _ => tooManyCalls 0
  | problem => problem

/-- All problems that have no words of a caller, without what they are about. -/
def forms : List Problem :=
  [emptyBrackets, noValueBeforeComma, noValueBeforeEnd, noOperator, unexpectedCharacter ' ',
    commaOutsideCall, commaInsideBrackets, tooDeep 0, tooManyCalls 0]

theorem opening_form (problem : Problem) : problem.form.opening = problem.opening := by
  cases problem <;> rfl

theorem form_mem {problem : Problem} (h : ∀ message, problem ≠ .other message) :
    problem.form ∈ forms := by
  cases problem with
  | other message => exact absurd rfl (h message)
  | _ => simp [form, forms]

/-- No message begins as another one does. -/
theorem eq_of_prefix_opening : ∀ p ∈ forms, ∀ q ∈ forms,
    p.opening.toList <+: q.opening.toList → p = q := by
  decide +kernel

theorem eq_of_detail {p q : Problem} (hform : p.form = q.form) (hdetail : p.detail = q.detail) :
    p = q := by
  cases p with
  | unexpectedCharacter c =>
      cases q with
      | unexpectedCharacter d => rw [Text.quotedChar_injective hdetail]
      | _ => cases hform
  | tooDeep m =>
      cases q with
      | tooDeep n => rw [toString_injective hdetail]
      | _ => cases hform
  | tooManyCalls m =>
      cases q with
      | tooManyCalls n => rw [toString_injective hdetail]
      | _ => cases hform
  | _ =>
      cases q with
      | unexpectedCharacter | tooDeep | tooManyCalls => cases hform
      | _ => exact hform

/-- **The message of a problem tells the problem.** -/
theorem message_injective {p q : Problem} (hp : ∀ message, p ≠ .other message)
    (hq : ∀ message, q ≠ .other message) (h : p.message = q.message) : p = q := by
  rw [message_eq, message_eq] at h
  have hcases := prefix_or_prefix_of_append_eq h
  rw [← opening_form p, ← opening_form q] at hcases
  have hform : p.form = q.form := by
    rcases hcases with hpq | hqp
    · exact eq_of_prefix_opening _ (form_mem hp) _ (form_mem hq) hpq
    · exact (eq_of_prefix_opening _ (form_mem hq) _ (form_mem hp) hqp).symm
  rw [← opening_form p, hform, opening_form, String.append_right_inj] at h
  exact eq_of_detail hform h

end Problem

/-! ### Causes and failures as JSON -/

namespace Cause

/-- A message tells what stands in it between two fixed texts. -/
theorem eq_of_between {before behind : String} {c d : Char}
    (h : before ++ String.ofList [c] ++ behind = before ++ String.ofList [d] ++ behind) :
    c = d := by
  rw [String.append_left_inj, String.append_right_inj, String.ofList_inj] at h
  exact (List.cons.inj h).1

theorem message_left_ne_right (c d : Char) :
    (missingLeft c).message ≠ (missingRight d).message := by
  have hne : ∀ {before after s t u v : String}, ¬before.toList <+: after.toList →
      ¬after.toList <+: before.toList → before ++ s ++ u ≠ after ++ t ++ v := by
    intro before after s t u v hbefore hafter h
    rw [String.append_assoc, String.append_assoc] at h
    rcases prefix_or_prefix_of_append_eq h with hprefix | hprefix
    · exact hbefore hprefix
    · exact hafter hprefix
  exact hne (by decide +kernel) (by decide +kernel)

/-- Objects with the same kind have the same second field. -/
theorem eq_of_second {kind : Json} {name s t : String}
    (h : Json.object [("kind", kind), (name, .string s)] =
      .object [("kind", kind), (name, .string t)]) : s = t := by
  simpa using h

theorem json_injective {a b : Cause} (ha : a.IsOwn) (hb : b.IsOwn) (h : a.json = b.json) :
    a = b := by
  cases a with
  | missingLeft c =>
      cases b with
      | missingLeft d => rw [eq_of_between (eq_of_second h)]
      | missingRight d => exact absurd (eq_of_second h) (message_left_ne_right c d)
      | _ => simp [json] at h
  | missingRight c =>
      cases b with
      | missingLeft d => exact absurd (eq_of_second h).symm (message_left_ne_right d c)
      | missingRight d => rw [eq_of_between (eq_of_second h)]
      | _ => simp [json] at h
  | malformed p =>
      cases b with
      | malformed q =>
          have hp : ∀ message, p ≠ .other message := fun message heq => ha message (by rw [heq])
          have hq : ∀ message, q ≠ .other message := fun message heq => hb message (by rw [heq])
          rw [Problem.message_injective hp hq (eq_of_second h)]
      | _ => simp [json] at h
  | invalidNumber text =>
      cases b with
      | invalidNumber other => rw [eq_of_second h]
      | _ => simp [json] at h
  | unclosedGroup | unterminatedText =>
      cases b with
      | unclosedGroup | unterminatedText => simp_all [json]
      | _ => simp [json] at h

end Cause

/-- **The JSON of a failure tells the failure.** -/
theorem Failure.json_injective {a b : Failure} (ha : a.cause.IsOwn) (hb : b.cause.IsOwn)
    (h : a.json = b.json) : a = b := by
  obtain ⟨cause, line, context⟩ := a
  obtain ⟨other, place, text⟩ := b
  simp only [json, Json.object.injEq, List.cons.injEq, Prod.mk.injEq, Json.count.injEq,
    Json.string.injEq, true_and, and_true] at h
  obtain ⟨hcause, rfl, rfl⟩ := h
  obtain rfl := Cause.json_injective ha hb hcause
  rfl

end Formula
