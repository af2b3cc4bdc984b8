/-
Failures are reported as early as possible.

If reading fails at a character, the text before it is the beginning of a sentence, and with
that character it is not: whatever comes behind, reading fails for the same reason and on the
same line.  A bad number is at fault itself, and the text before it is the beginning of a
sentence.  If reading fails at the end of the text, the whole text is the beginning of a
sentence.  Failures that are due to the limits are something else, since a grammar has none.
-/
import Formula.Proofs.Reading.Refusals
import Formula.Proofs.Reading.Simulation

namespace Formula

/-- The place of a failure, which is the earliest one. -/
inductive Earliest (limits : Limits) (source : List Char) (failure : Failure) : Prop
  /-- A character that cannot stand where it does. -/
  | atCharacter (before : List Char) (c : Char) (behind : List Char)
      (hsource : source = before ++ c :: behind)
      (hcontext : failure.context = quotation limits [c] behind)
      (hcause : failure.cause ≠ .unterminatedText ∧
        (∀ literal, failure.cause ≠ .invalidNumber literal) ∧
          (failure.cause = .unclosedGroup → c = ')'))
      (hviable : Viable before)
      (hrefused : ∀ q, ∃ other,
        (parse limits (String.ofList (before ++ c :: q))).failure = some other ∧
          other.cause = failure.cause ∧ other.line = failure.line)
  /-- A literal that is no number. -/
  | atNumber (before literal behind : List Char) (hsource : source = before ++ (literal ++ behind))
      (hliteral : literal = numberSpan (literal ++ behind))
      (hcause : failure.cause = .invalidNumber (String.ofList literal))
      (hviable : Viable before)
  /-- The end of the text, where something is missing. -/
  | atEnd (hcause : failure.cause = .unterminatedText ∨ failure.context = "" ∧
        (failure.cause = .unclosedGroup ∨ ∃ symbol, failure.cause = .missingRight symbol))
      (hviable : Viable source)

namespace Stage

variable {s : Stage} {c : Char} {rest : List Char}

/-- The line of a failure at a character does not depend on the text behind it. -/
theorem line_stopFirst_replace (htext : s.text = c :: rest) (cause : Cause) (d : Config)
    (q : List Char) :
    ((s.replace (c :: q)).stopFirst cause d).line = (s.stopFirst cause d).line := by
  have hblank := s.isBlank_text
  rw [htext] at hblank
  have hbefore : (s.replace (c :: q)).before = s.before := s.before_replace hblank
  cases cause with
  | missingRight symbol => rfl
  | _ =>
      rw [line_stopFirst (by simp), line_stopFirst (by simp), text_replace_cons htext, htext,
        hbefore]
      rfl

end Stage

section

variable {limits : Limits} {source : String}

/-- A failure is the failure of the place where the stages stop. -/
theorem refused_of_failure {failure : Failure} (h : (parse limits source).failure = some failure) :
    ∃ stop, (Stage.start source.toList).read limits = .refused stop ∧
      failure = stop.failure limits := by
  cases houtcome : (Stage.start source.toList).read limits with
  | accepted f =>
      rw [parse_of_accepted houtcome] at h
      cases h
  | refused stop =>
      rw [parse_of_refused houtcome] at h
      exact ⟨stop, rfl, (Option.some.inj h).symm⟩

/-- Where the stages stop, the text fails. -/
theorem failure_of_next {text : List Char} {ws : List Word} {t : Stage} {stop : Stop}
    (hleads : Stage.Leads limits (Stage.start text) ws t) (hnext : t.next limits = .refused stop) :
    (parse limits (String.ofList text)).failure = some (stop.failure limits) := by
  have hread : (Stage.start (String.ofList text).toList).read limits = .refused stop := by
    rw [String.toList_ofList]
    exact hleads.read_eq.trans (Stage.read_refused hnext)
  rw [parse_of_refused hread]

/-- The stages stop at the same place whatever comes behind it. -/
theorem failure_replace {text : List Char} {ws : List Word} {t : Stage} {c : Char}
    {rest : List Char} {cause : Cause} {d : Config}
    (hleads : Stage.Leads limits (Stage.start text) ws t) (htext : t.text = c :: rest)
    (q : List Char) (hnext : (t.replace (c :: q)).next limits =
      .refused ((t.replace (c :: q)).stopFirst cause d)) :
    (parse limits (String.ofList (t.before ++ c :: q))).failure =
      some (((t.replace (c :: q)).stopFirst cause d).failure limits) := by
  have hcut : CutLike t.text (c :: q) := by
    rw [htext]
    exact .inl rfl
  exact failure_of_next (hleads.replace_text hcut) hnext

/-- **Failures are reported at the earliest possible place**, those that are due to the limits
apart. -/
theorem failure_earliest {failure : Failure} (h : (parse limits source).failure = some failure)
    (hlimit : ¬failure.cause.IsLimit) : Earliest limits source.toList failure := by
  obtain ⟨stop, hread, rfl⟩ := refused_of_failure h
  obtain ⟨ws, t, hleads, ⟨f, haccepted, -⟩ | ⟨other, hother, hnext⟩⟩ :=
    Stage.leads_of_read limits (Stage.start source.toList)
  · rw [hread] at haccepted
    cases haccepted
  · rw [hread] at hother
    obtain rfl := Outcome.refused.inj hother
    have hsource : source.toList = t.before ++ t.text := by
      rw [t.before_append_text]
      exact (passed_append_rest hleads).symm
    have hviable := viable_before hleads
    cases Stage.refusal_of_next hnext with
    | atCharacter c rest d htext hcause halways =>
        have hstop : stop = t.stopFirst stop.cause d := by
          have hown := halways rest
          rw [← htext, t.replace_text, hnext] at hown
          exact Next.refused.inj hown
        rw [htext] at hsource
        refine .atCharacter t.before c rest hsource ?_ hcause hviable fun q => ?_
        · have hcontext : (stop.failure limits).context =
              ((t.stopFirst stop.cause d).failure limits).context := by rw [← hstop]
          rw [hcontext, Stage.failure_stopFirst_cons htext]
        · refine ⟨_, failure_replace hleads htext q (halways q), rfl, ?_⟩
          have hline : (stop.failure limits).line = (t.stopFirst stop.cause d).line := by
            rw [← hstop]
            rfl
          rw [hline]
          exact Stage.line_stopFirst_replace htext stop.cause d q
    | atNumber literal rest htext hspan hcause =>
        rw [htext] at hsource hspan
        exact .atNumber t.before literal rest hsource hspan hcause hviable
    | atQuote quote content htext hquote hopen hoperand hcause =>
        exact .atEnd (.inl hcause) (viable_openText hleads hoperand htext hquote hopen)
    | atEnd d htext hcause hstop =>
        rw [htext, List.append_nil] at hsource
        rw [hsource]
        refine .atEnd (.inr ⟨?_, hcause⟩) hviable
        have hcontext : (stop.failure limits).context =
            ((t.stopFirst stop.cause d).failure limits).context := by rw [← hstop]
        rw [hcontext, Stage.failure_stopFirst_nil htext]
        simp [quotation]
    | overLimit hcause => exact absurd hcause hlimit

/-- A bracket without its partner is found where it stands. -/
theorem failure_earliest_bracket :
    (parse ⟨9, 9, 9⟩ "a) b").failure = some ⟨.unclosedGroup, 1, ") b"⟩ ∧
      ¬Cause.unclosedGroup.IsLimit ∧
      Earliest ⟨9, 9, 9⟩ "a) b".toList ⟨.unclosedGroup, 1, ") b"⟩ :=
  have hfailure : (parse ⟨9, 9, 9⟩ "a) b").failure = some ⟨.unclosedGroup, 1, ") b"⟩ := by
    decide +kernel
  have hlimit : ¬Cause.unclosedGroup.IsLimit := by simp [Cause.IsLimit]
  ⟨hfailure, hlimit, failure_earliest hfailure hlimit⟩

end

end Formula
