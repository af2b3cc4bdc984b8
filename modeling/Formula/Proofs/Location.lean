/-
Where failures are reported.

A failure quotes a stretch of the text, and `FailsAt` says which one.  It begins at the
character that cannot stand where it does; at a literal that is no number, behind the first
quote of a text that is left open, at the bracket of a call too many, behind the lexeme that
makes the tree too deep, or at the end of the text.  In each case the text in front of it is
read without a failure up to its end, so the place is the only one.

The fragment at fault is quoted as a whole, and the text behind it as far as the window allows.
The line is the one on which the stretch begins, with two exceptions: an operator without a
right operand is reported where the operator stands, and text that is left open on the last
line.
-/
import Formula.Proofs.Grammar.Names
import Formula.Proofs.Number.Forms
import Formula.Proofs.Reading.Locating
import Formula.Proofs.Reading.Stops

namespace Formula

/-! ### Places -/

section

variable (limits : Limits) (failure : Failure)

/-- The line of a failure, if the text in front of the place is `before`: the line where that
text ends, but for a missing right operand the line of the operator. -/
structure OnLine (before : List Char) : Prop where
  missing : ∀ symbol, failure.cause = .missingRight symbol →
    ∃ front, Awaits limits symbol before front ∧ failure.line = lineAfter front
  other : (∀ symbol, failure.cause ≠ .missingRight symbol) → failure.line = lineAfter before

/-- Whatever comes behind the text, reading fails for the same reason on the same line. -/
def FailsAnyway (text : List Char) : Prop :=
  ∀ q, ∃ context, (parse limits (String.ofList (text ++ q))).failure =
    some ⟨failure.cause, failure.line, context⟩

/-- The place of a failure: the text in front of it, the fragment at fault and the text behind
that. -/
inductive FailsAt : (before fragment behind : List Char) → Prop
  /-- A character that cannot stand where it does. -/
  | atCharacter {before behind : List Char} {c : Char} (hread : ReadTo limits before)
      (hblank : Text.isBlank c = false)
      (hcause : failure.cause ≠ .unterminatedText ∧
        (∀ literal, failure.cause ≠ .invalidNumber literal) ∧
          (failure.cause = .unclosedGroup → c = ')'))
      (hlimit : ¬failure.cause.IsLimit) (hline : OnLine limits failure before)
      (hfails : FailsAnyway limits failure (before ++ [c])) : FailsAt before [c] behind
  /-- A literal that is no number. -/
  | atNumber {before literal behind : List Char} (hread : ReadTo limits before)
      (hliteral : literal = numberSpan (literal ++ behind))
      (hcause : failure.cause = .invalidNumber (String.ofList literal))
      (hline : failure.line = lineAfter before) : FailsAt before literal behind
  /-- Quoted text that is left open, behind its first quote. -/
  | inText {front content : List Char} {quote : Char} (hread : ReadTo limits front)
      (hquote : isQuoteMark quote = true) (hopen : quote ∉ content)
      (hcause : failure.cause = .unterminatedText)
      (hline : failure.line = lineAfter (front ++ quote :: content)) :
      FailsAt (front ++ [quote]) content []
  /-- The end of the text, where something is missing. -/
  | atEnd {before : List Char} (hread : ReadTo limits before)
      (hcause : failure.cause = .unclosedGroup ∨ ∃ symbol, failure.cause = .missingRight symbol)
      (hline : OnLine limits failure before) : FailsAt before [] []
  /-- The bracket of a call too many. -/
  | atCall {front behind : List Char} {name : String} (hread : ReadTo limits front)
      (hname : IsIdentifier name)
      (hcause : failure.cause = .malformed (.tooManyCalls limits.callDepth))
      (hline : failure.line = lineAfter (front ++ name.toList))
      (hfails : FailsAnyway limits failure (front ++ name.toList ++ ['('])) :
      FailsAt (front ++ name.toList) ['('] behind
  /-- Behind a lexeme that makes the tree too deep. -/
  | tooDeep {front lexeme behind : List Char} {w : Word} (hread : ReadTo limits front)
      (hlex : lex (lexeme ++ behind) = .word w lexeme behind)
      (hcause : failure.cause = .malformed (.tooDeep limits.treeDepth))
      (hline : failure.line = lineAfter (front ++ lexeme))
      (hfails : (parse limits (String.ofList (front ++ lexeme))).failure =
        some ⟨failure.cause, failure.line, ""⟩) : FailsAt (front ++ lexeme) [] behind

end

/-! ### Lines and quotations -/

/-- The fragment is quoted as a whole, and what is behind it as far as the window allows. -/
theorem toList_quotation (limits : Limits) (fragment rest : List Char) :
    (quotation limits fragment rest).toList = (fragment ++ rest).take
      (max fragment.length (min limits.window (fragment ++ rest).length)) := by
  obtain ⟨n, hn⟩ :
      ∃ n, max fragment.length (min limits.window (fragment ++ rest).length) = n := ⟨_, rfl⟩
  rw [List.length_append] at hn
  have hfragment : fragment.take n = fragment := List.take_of_length_le (by omega)
  have hrest : rest.take (n - fragment.length) = rest.take (limits.window - fragment.length) :=
    List.take_eq_take_iff.mpr (by omega)
  rw [quotation, String.toList_append, String.toList_ofList, String.toList_ofList,
    List.length_append, hn, List.take_append, hfragment, hrest]

theorem lineAfter_append_of_forall {first last : List Char}
    (h : ∀ c ∈ last, Text.isBlank c = false) : lineAfter (first ++ last) = lineAfter first := by
  rw [← lineAfter_append, lineBreaks_of_forall h, Nat.add_zero]

theorem isQuoteMark_of_starting {c : Char} (h : Lexeme.starting (some c) = .quote) :
    isQuoteMark c = true := by
  unfold Lexeme.starting Lexeme.ofOther at h
  grind

namespace Stage

variable {limits : Limits} {s : Stage} {stop : Stop}

theorem line_stop {cause : Cause} {before fragment rest : List Char} {c : Config}
    (hcause : ∀ symbol, cause ≠ .missingRight symbol) :
    (s.stop cause before fragment rest c).line = lineAfter (before ++ fragment) := by
  cases cause with
  | missingRight symbol => exact absurd rfl (hcause symbol)
  | _ => rfl

/-- The line of a stop depends on its place alone. -/
theorem line_of_next (h : s.next limits = .refused stop) :
    stop.line = (s.stop stop.cause stop.before stop.fragment stop.rest stop.config).line := by
  have hfollows := follows_next limits s
  rw [h] at hfollows
  cases hfollows <;> rfl

/-- Where a right operand is missing, an operator waits for it. -/
theorem waiting_of_next {symbol : Char} (h : s.next limits = .refused stop)
    (hcause : stop.cause = .missingRight symbol) :
    s.config.operand = none ∧ ∃ op, s.config.waiting = some op ∧ op.symbol = symbol := by
  have hfollows := follows_next limits s
  rw [h] at hfollows
  cases hfollows with
  | word _ _ hfeed => exact Config.waiting_of_feed_error hfeed hcause
  | endOfText _ hfinish => exact Config.waiting_of_finish_error hfinish hcause
  | value | tooManyCalls | tooDeep | badNumber | openText | stranger => cases hcause

end Stage

/-! ### The place of every failure -/

section

variable {limits : Limits} {text : List Char} {ws : List Word} {t : Stage} {stop : Stop}

/-- The line of a stop whose fragment has no blanks in it. -/
theorem onLine_of_next (hleads : Stage.Leads limits (Stage.start text) ws t)
    (hnext : t.next limits = .refused stop) (hbefore : stop.before = t.before)
    (hfragment : ∀ c ∈ stop.fragment, Text.isBlank c = false) :
    OnLine limits (stop.failure limits) t.before := by
  have hline := Stage.line_of_next hnext
  constructor
  · intro symbol hcause
    have hcause' : stop.cause = .missingRight symbol := hcause
    obtain ⟨hoperand, op, hwaiting, rfl⟩ := Stage.waiting_of_next hnext hcause'
    obtain ⟨front, hpassed, hawaits⟩ := awaits_before hleads hoperand hwaiting
    have hsymbol : ∀ c ∈ [op.symbol], Text.isBlank c = false :=
      List.forall_mem_singleton.mpr (by cases op <;> decide)
    refine ⟨front, hawaits, ?_⟩
    rw [hcause'] at hline
    calc stop.line = lineAfter t.passed := hline
      _ = lineAfter (front ++ [op.symbol]) := by rw [hpassed]
      _ = lineAfter front := lineAfter_append_of_forall hsymbol
  · intro hother
    calc stop.line = lineAfter (stop.before ++ stop.fragment) :=
          hline.trans (Stage.line_stop hother)
      _ = lineAfter t.before := by rw [hbefore, lineAfter_append_of_forall hfragment]

/-- The stages stop at the same character whatever comes behind it. -/
theorem failsAnyway_of_next {c : Char} {rest : List Char} {d : Config}
    (hleads : Stage.Leads limits (Stage.start text) ws t) (htext : t.text = c :: rest)
    (hstop : stop = t.stopFirst stop.cause d) (halways : ∀ q, (t.replace (c :: q)).next limits =
      .refused ((t.replace (c :: q)).stopFirst stop.cause d)) :
    FailsAnyway limits (stop.failure limits) (t.before ++ [c]) := by
  intro q
  have happend : t.before ++ [c] ++ q = t.before ++ c :: q := by simp
  have hline : stop.line = (t.stopFirst stop.cause d).line := by rw [← hstop]
  have hreplaced := Stage.line_stopFirst_replace htext stop.cause d q
  rw [← hline] at hreplaced
  refine ⟨quotation limits [c] q, ?_⟩
  rw [happend, failure_replace hleads htext q (halways q),
    Stage.failure_stopFirst_cons (Stage.text_replace_cons htext q), hreplaced]
  rfl

/-- A call too many. -/
theorem failsAt_tooManyCalls {w : Word} {lexeme rest : List Char} {c : Config}
    (hleads : Stage.Leads limits (Stage.start text) ws t)
    (hlex : lex t.text = .word w lexeme rest) (hfeed : t.config.feed w = .ok c)
    (hcalls : limits.callDepth < c.outer.length)
    (hstop : stop = t.stop (.malformed (.tooManyCalls limits.callDepth))
      (t.before ++ lexeme.dropLast) ['('] rest t.config) :
    stop.before ++ (stop.fragment ++ stop.rest) = t.before ++ t.text ∧
      FailsAt limits (stop.failure limits) stop.before stop.fragment stop.rest := by
  have hadmitted := (hleads.admitted (Stage.start_admitted limits text)).1
  obtain ⟨name, rfl⟩ := Config.function_of_feed hfeed (by omega)
  obtain ⟨hname, rfl⟩ := function_of_lex hlex
  obtain ⟨htext, -, -⟩ := lex_word hlex
  rw [List.dropLast_concat] at hstop
  have hbracket : ∀ c ∈ ['('], Text.isBlank c = false :=
    List.forall_mem_singleton.mpr (by decide)
  subst hstop
  refine ⟨?_, .atCall (readTo_before hleads) hname rfl ?_ fun q => ?_⟩
  · rw [htext]
    simp [Stage.stop]
  · exact lineAfter_append_of_forall hbracket
  · -- The bracket belongs to the word, so the word is the same whatever comes behind it.
    have hword := lex_function hname q
    rw [← List.singleton_append, ← List.append_assoc] at hword
    obtain ⟨hreplaced, hlex', hbefore⟩ := hleads.replace_word hlex hword
    have hnext : (t.replace (name.toList ++ ['('] ++ q)).next limits =
        .refused ((t.replace (name.toList ++ ['('] ++ q)).stop
          (.malformed (.tooManyCalls limits.callDepth)) (t.before ++ name.toList) ['('] q
            t.config) := by
      rw [Stage.next_of_feed hlex' hfeed, Stage.settle, if_pos hcalls, hbefore,
        List.dropLast_concat]
      rfl
    have happend : t.before ++ name.toList ++ ['('] ++ q =
        t.before ++ (name.toList ++ ['('] ++ q) := by simp
    rw [happend, failure_of_next hreplaced hnext]
    exact ⟨_, rfl⟩

/-- A lexeme that makes the tree too deep. -/
theorem failsAt_tooDeep {w : Word} {lexeme rest : List Char} {c : Config}
    (hleads : Stage.Leads limits (Stage.start text) ws t)
    (hlex : lex t.text = .word w lexeme rest) (hfeed : t.config.feed w = .ok c)
    (hcalls : c.outer.length ≤ limits.callDepth) (hheight : limits.treeDepth < c.height)
    (hstop : stop =
      t.stop (.malformed (.tooDeep limits.treeDepth)) (t.before ++ lexeme) [] rest c) :
    stop.before ++ (stop.fragment ++ stop.rest) = t.before ++ t.text ∧
      FailsAt limits (stop.failure limits) stop.before stop.fragment stop.rest := by
  obtain ⟨htext, hne, -⟩ := lex_word hlex
  subst hstop
  rw [htext] at hlex
  refine ⟨?_, .tooDeep (readTo_before hleads) hlex rfl ?_ ?_⟩
  · rw [htext]
    simp [Stage.stop]
  · show lineAfter (t.before ++ lexeme ++ []) = _
    rw [List.append_nil]
  · have hword := lex_word_append (b := []) hlex (.inr (by simp))
    rw [← htext] at hlex
    obtain ⟨hreplaced, hlex', hbefore⟩ := hleads.replace_word hlex hword
    have hnext := Stage.next_of_tooDeep hlex' hfeed hcalls hheight
    have hfails := failure_of_next hreplaced hnext
    rw [hbefore] at hfails
    rw [← List.append_nil lexeme, hfails, List.append_nil]
    simp [Stop.failure, Stage.stop, quotation]

/-- A character that cannot stand where it does, or the end of the text. -/
theorem failsAt_stopFirst {cause : Cause} {d : Config}
    (hleads : Stage.Leads limits (Stage.start text) ws t)
    (hnext : t.next limits = .refused (t.stopFirst cause d)) (hlimit : ¬cause.IsLimit)
    (hcause : cause ≠ .unterminatedText ∧ ∀ literal, cause ≠ .invalidNumber literal) :
    (t.stopFirst cause d).before ++ ((t.stopFirst cause d).fragment ++ (t.stopFirst cause d).rest) =
        t.before ++ t.text ∧
      FailsAt limits ((t.stopFirst cause d).failure limits) (t.stopFirst cause d).before
        (t.stopFirst cause d).fragment (t.stopFirst cause d).rest := by
  have hfirst : ∀ c ∈ t.text.take 1, Text.isBlank c = false := by
    intro c hc
    cases htext : t.text with
    | nil => simp [htext] at hc
    | cons b rest =>
        obtain rfl : c = b := by simpa [htext] using hc
        exact t.isBlank_text c (by rw [htext]; rfl)
  have hline := onLine_of_next hleads hnext rfl hfirst
  refine ⟨congrArg (t.before ++ ·) (List.take_append_drop 1 t.text), ?_⟩
  show FailsAt limits _ t.before (t.text.take 1) (t.text.drop 1)
  cases Stage.refusal_of_next hnext with
  | atCharacter c rest e htext hcharacter halways =>
      have hstop : t.stopFirst cause d = t.stopFirst cause e := by
        have hown := halways rest
        rw [← htext, t.replace_text, hnext] at hown
        exact Next.refused.inj hown
      have hfails := failsAnyway_of_next hleads htext hstop halways
      rw [htext] at hfirst ⊢
      exact .atCharacter (readTo_before hleads) (hfirst c (by simp)) hcharacter hlimit hline hfails
  | atEnd e htext hend hstop =>
      rw [htext]
      exact .atEnd (readTo_before hleads) hend hline
  | atNumber literal rest htext hspan hnumber => exact absurd hnumber (hcause.2 _)
  | atQuote quote content htext hquote hopen hoperand htext' => exact absurd htext' hcause.1
  | overLimit hover => exact absurd hover hlimit

/-- **The stages stop at one of the places.** -/
theorem failsAt_of_next (hleads : Stage.Leads limits (Stage.start text) ws t)
    (hnext : t.next limits = .refused stop) :
    stop.before ++ (stop.fragment ++ stop.rest) = t.before ++ t.text ∧
      FailsAt limits (stop.failure limits) stop.before stop.fragment stop.rest := by
  have hfollows := Stage.follows_next limits t
  rw [hnext] at hfollows
  cases hfollows with
  | tooManyCalls hlex hfeed hcalls => exact failsAt_tooManyCalls hleads hlex hfeed hcalls rfl
  | tooDeep hlex hfeed hcalls hheight =>
      exact failsAt_tooDeep hleads hlex hfeed hcalls hheight rfl
  | value | stranger =>
      exact failsAt_stopFirst hleads hnext (by simp [Cause.IsLimit]) (by simp)
  | word hfits hlex hfeed =>
      obtain ⟨htext, hnumber, -⟩ := Config.feed_error_cause hfeed
      exact failsAt_stopFirst hleads hnext (Config.feed_error_within hfeed) ⟨htext, hnumber⟩
  | endOfText htext hfinish =>
      obtain rfl | ⟨symbol, rfl⟩ := Config.finish_error_cause hfinish
      · exact failsAt_stopFirst hleads hnext (by simp [Cause.IsLimit]) (by simp)
      · exact failsAt_stopFirst hleads hnext (by simp [Cause.IsLimit]) (by simp)
  | @badNumber literal rest hlex =>
      obtain ⟨htext, hspan⟩ := lex_badNumber hlex
      rw [htext] at hspan
      have hliteral : ∀ c ∈ literal, Text.isBlank c = false := by
        intro c hc
        rw [hspan] at hc
        exact isBlank_of_mem_numberSpan hc
      refine ⟨by rw [htext]; rfl, .atNumber (readTo_before hleads) hspan rfl ?_⟩
      exact lineAfter_append_of_forall hliteral
  | @openText content hoperand hlex =>
      obtain ⟨quote, htext, hquote, hopen⟩ := lex_openText hlex
      have hcontent : quote ∉ content := by
        intro hmem
        simpa using List.dropWhile_eq_nil_iff.mp hopen quote hmem
      rw [htext]
      refine ⟨by simp [Stage.stop], .inText (readTo_before hleads) (isQuoteMark_of_starting hquote)
        hcontent rfl ?_⟩
      show lineAfter (t.before ++ [quote] ++ content) = lineAfter (t.before ++ quote :: content)
      rw [List.append_assoc, List.singleton_append]

/-- **Where a failure is reported**: it quotes the text from its place on, the fragment at fault
as a whole and the text behind it as far as the window allows, and its line is that of the
place. -/
theorem failure_place {source : String} {failure : Failure}
    (h : (parse limits source).failure = some failure) :
    ∃ before fragment behind, before ++ (fragment ++ behind) = source.toList ∧
      failure.context.toList = (source.toList.drop before.length).take
        (max fragment.length (min limits.window (source.toList.length - before.length))) ∧
      FailsAt limits failure before fragment behind := by
  obtain ⟨stop, hread, rfl⟩ := refused_of_failure h
  obtain ⟨ws, t, hleads, hnext⟩ := Stage.leads_of_refused hread
  obtain ⟨hsplit, hfails⟩ := failsAt_of_next hleads hnext
  rw [t.before_append_text] at hsplit
  have hsource := hsplit.trans (passed_append_rest hleads)
  refine ⟨stop.before, stop.fragment, stop.rest, hsource, ?_, hfails⟩
  rw [← hsource, List.drop_left, List.length_append, Nat.add_sub_cancel_left]
  exact toList_quotation limits stop.fragment stop.rest

/-- A missing right operand is reported on the line of its operator, though the text goes on
two lines below. -/
theorem failure_place_operator :
    (parse ⟨4, 9, 9⟩ "(1\n+\n\n) * 2").failure = some ⟨.missingRight '+', 2, ") * "⟩ ∧
      ∃ before fragment behind, before ++ (fragment ++ behind) = "(1\n+\n\n) * 2".toList ∧
        ") * ".toList = ("(1\n+\n\n) * 2".toList.drop before.length).take
          (max fragment.length (min 4 ("(1\n+\n\n) * 2".toList.length - before.length))) ∧
        FailsAt ⟨4, 9, 9⟩ ⟨.missingRight '+', 2, ") * "⟩ before fragment behind :=
  have hfailure : (parse ⟨4, 9, 9⟩ "(1\n+\n\n) * 2").failure =
      some ⟨.missingRight '+', 2, ") * "⟩ := by decide +kernel
  ⟨hfailure, failure_place hfailure⟩

end

end Formula
