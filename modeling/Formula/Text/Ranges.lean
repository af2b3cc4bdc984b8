/-
Classes of characters, given as ranges of code points.

A class is a table of inclusive ranges in increasing order, so a search can stop at the
first range that starts above the code point it looks for.  `covers_iff` says that stopping
there loses nothing.
-/

namespace Formula.Text

/-- Inclusive ranges of code points, each above the one before it. -/
abbrev Ranges := List (Nat × Nat)

/-- Whether `n` lies in one of the ranges.  The search ends at the first range above `n`. -/
def covers : Ranges → Nat → Bool
  | [], _ => false
  | (low, high) :: rest, n => if n < low then false else n ≤ high || covers rest n

/-- Whether every range is above `bound` and above the ranges before it. -/
def increasingFrom (bound : Nat) : Ranges → Bool
  | [] => true
  | (low, high) :: rest => bound ≤ low && low ≤ high && increasingFrom (high + 1) rest

/-- A range of an increasing table starts above the bound of the table. -/
theorem le_of_mem_increasingFrom {bound : Nat} {ranges : Ranges} {range : Nat × Nat}
    (h : increasingFrom bound ranges = true) (hr : range ∈ ranges) : bound ≤ range.1 := by
  induction ranges generalizing bound with
  | nil => cases hr
  | cons first rest ih =>
    simp only [increasingFrom, Bool.and_eq_true, decide_eq_true_eq] at h
    obtain ⟨⟨hlow, hhigh⟩, hrest⟩ := h
    rcases List.mem_cons.mp hr with rfl | hmem
    · exact hlow
    · have := ih hrest hmem
      omega

/-- In an increasing table the search finds a code point exactly if a range has it. -/
theorem covers_iff {bound : Nat} {ranges : Ranges} (h : increasingFrom bound ranges = true)
    (n : Nat) : covers ranges n = true ↔ ∃ range ∈ ranges, range.1 ≤ n ∧ n ≤ range.2 := by
  induction ranges generalizing bound with
  | nil => simp [covers]
  | cons first rest ih =>
    obtain ⟨low, high⟩ := first
    simp only [increasingFrom, Bool.and_eq_true, decide_eq_true_eq] at h
    obtain ⟨⟨-, hhigh⟩, hrest⟩ := h
    have habove : ∀ range ∈ rest, high + 1 ≤ range.1 := fun range hr =>
      le_of_mem_increasingFrom hrest hr
    simp only [covers, List.mem_cons, or_and_right, exists_or, exists_eq_left]
    split
    · next hlt =>
      -- a code point below this range is below all that follow
      refine iff_of_false (by simp) ?_
      rintro (⟨hle, -⟩ | ⟨range, hr, hle, -⟩)
      · omega
      · have := habove range hr
        omega
    · next hge =>
      rw [Bool.or_eq_true, decide_eq_true_eq, ih hrest]
      constructor
      · rintro (hle | hex)
        · exact Or.inl ⟨by omega, hle⟩
        · exact Or.inr hex
      · rintro (⟨-, hle⟩ | hex)
        · exact Or.inl hle
        · exact Or.inr hex

end Formula.Text
