/-
Reading a number.

What is taken from the text is the longest piece that looks like a number.  If it is a number and
the nearest one to its value is finite, that is hung below the cursor, and an operator is
expected.  Otherwise the piece is refused as a whole.

The value that decides is the one that has been counted.  It rounds as the value that the piece
stands for does, unless a mantissa of tens of thousands of digits balances the exponent.  Then a
number far out of range may be read as a small one: `readNumber_balanced`.
-/
import Formula.Proofs.Number.Counted
import Formula.Proofs.Reading.Failing

namespace Formula

open Decimal Binary64

/-- The machine `m'` has read the number `x` where the machine `m` was: there is one leaf more
below the cursor, and the scanner is in front of what comes behind the number. -/
structure TakesNumber (m m' : Machine) (x : Binary64) (behind : List Char) (line : Nat) :
    Prop where
  finite : x.isFinite = true
  state : m'.state = .readOperator
  builder : m'.builder = ⟨m.builder.tree.add m.builder.cursor (.number x), m.builder.cursor⟩
  calls : m'.calls = m.calls
  failure : m'.failure = m.failure
  log : m'.log = m.log
  scan : m'.scanner.Holds [] behind line

namespace Machine

variable (limits : Limits) {m : Machine} {rest : List Char} {line : Nat}

/-- Where the scanner is behind the number. -/
theorem passNumber_holds (hscan : m.scanner.Holds [] rest line) :
    (m.scan Scanner.passNumber).scanner.pending = String.ofList (numberSpan rest) ∧
      ((m.scan Scanner.passNumber).scan Scanner.ignore).scanner.Holds []
        (rest.drop (numberSpan rest).length) line := by
  have hpassed := hscan.passNumber
  rw [lineBreaks_of_forall fun c hc => isBlank_of_mem_numberSpan hc] at hpassed
  exact ⟨hpassed.pending_eq, hpassed.ignore⟩

/-- A number that is finite becomes a leaf. -/
theorem readNumber_takes (hscan : m.scanner.Holds [] rest line)
    (hstart : ∃ c ∈ rest.head?, continuesNumber c = true) (hnumeral : IsNumeral (numberSpan rest))
    (hvalue : countedValue (numberSpan rest) < overflow) :
    TakesNumber m (m.readNumber limits) (nearest false (countedValue (numberSpan rest)))
      (rest.drop (numberSpan rest).length) line := by
  obtain ⟨hpending, hbehind⟩ := passNumber_holds hscan
  have hliteral := (ofText?_literal (numberLike_numberSpan hstart)).mpr ⟨hnumeral, if_pos hvalue⟩
  have hfinite := (isFinite_nearest (countedValue_nonneg _)).mpr hvalue
  unfold readNumber
  simp only [hpending, Token.ofLiteral, hliteral]
  exact ⟨hfinite, rfl, rfl, rfl, rfl, rfl, hbehind⟩

/-- Everything else is refused as a whole. -/
theorem readNumber_fails (hscan : m.scanner.Holds [] rest line) (hfailure : m.failure = none)
    (hstart : ∃ c ∈ rest.head?, continuesNumber c = true)
    (hbad : ¬(IsNumeral (numberSpan rest) ∧ countedValue (numberSpan rest) < overflow)) :
    FailsWith m (m.readNumber limits) ⟨.invalidNumber (String.ofList (numberSpan rest)), line,
      quotation limits (numberSpan rest) (rest.drop (numberSpan rest).length)⟩ := by
  obtain ⟨hpending, hbehind⟩ := passNumber_holds hscan
  have hliteral : Binary64.ofText? (String.ofList (numberSpan rest)) = none := by
    refine Option.eq_none_iff_forall_ne_some.mpr fun x hx => hbad ?_
    obtain ⟨hnumeral, hvalue⟩ := (ofText?_literal (numberLike_numberSpan hstart)).mp hx
    exact ⟨hnumeral, lt_overflow_of_nearest? hvalue⟩
  have hreport := report_fails limits (.invalidNumber (String.ofList (numberSpan rest)))
    (numberSpan rest) hbehind hfailure line
  have hpassed : (Scanner.passNumber m.scanner).rest.length ≤ m.scanner.rest.length := by
    rw [hscan.passNumber.rest_eq, hscan.rest_eq, List.length_drop]
    exact Nat.sub_le _ _
  unfold readNumber
  simp only [hpending, Token.ofLiteral, hliteral, hbehind.line_eq]
  exact (hreport.of_scan (Nat.le_refl _)).of_scan hpassed

/-- **Reading a number** takes the longest piece that looks like one.  It is hung below the cursor
if it is a number and its counted value is below the middle between the largest finite number and
the next power of two, and otherwise it is refused as a whole.  The counted value rounds as the
value does, but for mantissas that balance a huge exponent. -/
theorem readNumber_literal (hscan : m.scanner.Holds [] rest line) (hfailure : m.failure = none)
    (hstart : ∃ c ∈ rest.head?, continuesNumber c = true) :
    ∃ literal behind, rest = literal ++ behind ∧ NumberLike literal ∧
      (∀ other, NumberLike other → other <+: rest → other <+: literal) ∧
      (IsNumeral literal ∧ countedValue literal < overflow →
        TakesNumber m (m.readNumber limits) (nearest false (countedValue literal)) behind line) ∧
      (¬(IsNumeral literal ∧ countedValue literal < overflow) →
        FailsWith m (m.readNumber limits) ⟨.invalidNumber (String.ofList literal), line,
          quotation limits literal behind⟩) ∧
      (CountsExactly literal → (countedValue literal < overflow ↔ textValue literal < overflow) ∧
        (textValue literal < overflow →
          nearest false (countedValue literal) = nearest false (textValue literal))) := by
  refine ⟨numberSpan rest, rest.drop (numberSpan rest).length, (numberSpan_append_drop rest).symm,
    numberLike_numberSpan hstart, fun other => prefix_numberSpan, ?_,
    readNumber_fails limits hscan hfailure hstart, fun hexact => ?_⟩
  · rintro ⟨hnumeral, hvalue⟩
    exact readNumber_takes limits hscan hstart hnumeral hvalue
  · exact eq_of_nearest? (nearest?_countedValue hexact)

/-- The exponent of a sum is taken with its first operand. -/
theorem readNumber_literal_sum :
    (start "1e3+x").scanner.Holds [] "1e3+x".toList 1 ∧ (start "1e3+x").failure = none ∧
      (∃ c ∈ "1e3+x".toList.head?, continuesNumber c = true) ∧
      ∃ literal behind, "1e3+x".toList = literal ++ behind ∧ NumberLike literal ∧
        (∀ other, NumberLike other → other <+: "1e3+x".toList → other <+: literal) ∧
        (IsNumeral literal ∧ countedValue literal < overflow →
          TakesNumber (start "1e3+x") ((start "1e3+x").readNumber ⟨10, 64, 256⟩)
            (nearest false (countedValue literal)) behind 1) ∧
        (¬(IsNumeral literal ∧ countedValue literal < overflow) →
          FailsWith (start "1e3+x") ((start "1e3+x").readNumber ⟨10, 64, 256⟩)
            ⟨.invalidNumber (String.ofList literal), 1, quotation ⟨10, 64, 256⟩ literal behind⟩) ∧
        (CountsExactly literal →
          (countedValue literal < overflow ↔ textValue literal < overflow) ∧
            (textValue literal < overflow →
              nearest false (countedValue literal) = nearest false (textValue literal))) :=
  have hscan : (start "1e3+x").scanner.Holds [] "1e3+x".toList 1 := Scanner.holds_ofText _
  have hstart : ∃ c ∈ "1e3+x".toList.head?, continuesNumber c = true := ⟨'1', by decide, by decide⟩
  ⟨hscan, rfl, hstart, readNumber_literal ⟨10, 64, 256⟩ hscan rfl hstart⟩

/-! ### A mantissa that balances its exponent -/

theorem holds_start (text : List Char) : (start (String.ofList text)).scanner.Holds [] text 1 := by
  have hscan := Scanner.holds_ofText (String.ofList text)
  rw [String.toList_ofList] at hscan
  exact hscan

/-- With as many zeros behind the point as the exponent counts, a number far out of range is read
as one. -/
theorem readNumber_balanced {zeros : Nat} {digits : List Char} (hdigits : IsDigits digits)
    (hcounted : countedExponent digits = (zeros + 1 : Nat))
    (hmeant : zeros + 310 ≤ endExponent digits) :
    IsNumeral (balanced zeros digits) ∧ overflow ≤ textValue (balanced zeros digits) ∧
      TakesNumber (start (String.ofList (balanced zeros digits)))
        ((start (String.ofList (balanced zeros digits))).readNumber limits)
        (nearest false 1) [] 1 := by
  have hne : digits ≠ [] := by
    rintro rfl
    have hzero : endExponent [] = 0 := rfl
    omega
  have hnumeral := isNumeral_balanced zeros hdigits hne
  have hvalue := countedValue_balanced hcounted
  have hspan := numberSpan_of_numberLike (numberLike_balanced zeros hdigits)
  have hstart : ∃ c ∈ (balanced zeros digits).head?, continuesNumber c = true :=
    ⟨'0', rfl, by decide⟩
  have htakes := readNumber_takes limits (holds_start (balanced zeros digits)) hstart
  rw [hspan, hvalue, List.drop_length] at htakes
  exact ⟨hnumeral, overflow_le_textValue_balanced hmeant, htakes hnumeral one_lt_overflow⟩

/-- The exponent `655360` counts as `65536`. -/
theorem readNumber_balanced_65536 : IsNumeral (balanced 65535 "655360".toList) ∧
    overflow ≤ textValue (balanced 65535 "655360".toList) ∧
      TakesNumber (start (String.ofList (balanced 65535 "655360".toList)))
        ((start (String.ofList (balanced 65535 "655360".toList))).readNumber ⟨10, 64, 256⟩)
        (nearest false 1) [] 1 :=
  readNumber_balanced ⟨10, 64, 256⟩ (by simp [IsDigits]) (by decide) (by decide)

end Machine

end Formula
