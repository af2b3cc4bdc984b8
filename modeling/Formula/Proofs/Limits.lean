/-
How the limits show in what is read.

Limits that do not stop a text leave no trace: the text is read alike under all greater ones,
`parse_raise`.  The window shows only in what a failure quotes: under a wider one a text fails
for the same reason on the same line, quotes more, and leaves the same tree up to the message of
the mark, `parse_window`.  The reader looks ahead by the width of the window when it fails, on
the very text that the calls around are read from; but these only end then, and never look at
the text again.
-/
import Formula.Proofs.Earliest
import Formula.Proofs.Marks
import Formula.Proofs.Reading.Agreement
import Formula.Proofs.Tree.Messages

namespace Formula

/-! ### Greater limits -/

/-- A stop is the same failure under limits that quote as much. -/
theorem Stop.failure_congr {limits others : Limits} (hwindow : others.window = limits.window)
    (stop : Stop) : stop.failure others = stop.failure limits := by
  rw [failure, failure, quotation, quotation, hwindow]

theorem Stop.draft_congr {limits others : Limits} (hwindow : others.window = limits.window)
    (stop : Stop) : stop.draft others = stop.draft limits := by
  rw [draft, draft, innermost, innermost, mark, mark, stop.failure_congr hwindow]

/-- **Raising the limits never changes what they did not stop**: neither the tree nor the
failure. -/
theorem parse_raise {limits others : Limits} {source : String} (hraised : limits.Raised others)
    (hfree : ∀ failure, (parse limits source).failure = some failure → ¬failure.cause.IsLimit) :
    parse others source = parse limits source := by
  have hread : (Stage.start source.toList).read others = (Stage.start source.toList).read limits :=
    Stage.read_raised hraised fun stop hstop =>
      hfree (stop.failure limits) (by rw [parse_of_refused hstop])
  cases houtcome : (Stage.start source.toList).read limits with
  | accepted f =>
      rw [parse_of_accepted houtcome, parse_of_accepted (hread.trans houtcome)]
  | refused stop =>
      rw [parse_of_refused houtcome, parse_of_refused (hread.trans houtcome),
        stop.draft_congr hraised.window_eq, stop.failure_congr hraised.window_eq]

/-- A bad argument is the same failure whether or not more calls could have been opened. -/
theorem parse_raise_argument :
    (Limits.mk 4 1 2).Raised ⟨4, 3, 5⟩ ∧
      (∀ failure, (parse ⟨4, 1, 2⟩ "f(1, * 2)").failure = some failure →
        ¬failure.cause.IsLimit) ∧
      parse ⟨4, 3, 5⟩ "f(1, * 2)" = parse ⟨4, 1, 2⟩ "f(1, * 2)" :=
  have hraised : (Limits.mk 4 1 2).Raised ⟨4, 3, 5⟩ := ⟨rfl, by decide, by decide⟩
  have hfree : ∀ failure, (parse ⟨4, 1, 2⟩ "f(1, * 2)").failure = some failure →
      ¬failure.cause.IsLimit := by
    intro failure h
    have hfailure : (parse ⟨4, 1, 2⟩ "f(1, * 2)").failure =
        some ⟨.missingLeft '*', 1, "* 2)"⟩ := by decide +kernel
    obtain rfl := Option.some.inj (hfailure.symm.trans h)
    simp [Cause.IsLimit]
  ⟨hraised, hfree, parse_raise hraised hfree⟩

/-! ### A wider window -/

/-- One failure quotes at least as much as another one, and is the same apart from that. -/
structure Failure.Extends (long short : Failure) : Prop where
  cause_eq : long.cause = short.cause
  line_eq : long.line = short.line
  context_prefix : short.context.toList <+: long.context.toList

/-- A wider window quotes at least as much. -/
theorem quotation_prefix {limits others : Limits} (hwindow : limits.window ≤ others.window)
    (fragment rest : List Char) :
    (quotation limits fragment rest).toList <+: (quotation others fragment rest).toList := by
  simp only [quotation, String.toList_append, String.toList_ofList]
  exact (List.prefix_append_right_inj fragment).mpr
    (List.take_prefix_take_left (by omega))

theorem Stop.failure_extends {limits others : Limits} (hwindow : limits.window ≤ others.window)
    (stop : Stop) : (stop.failure others).Extends (stop.failure limits) :=
  ⟨rfl, rfl, quotation_prefix hwindow stop.fragment stop.rest⟩

/-- The arguments in front of the failing one have no marks. -/
theorem withMessage_arguments (message : String) (done : List Expr) (inner : Tree) :
    ((done.map Expr.argumentTree).reverse ++ [inner]).map (Tree.withMessage message) =
      (done.map Expr.argumentTree).reverse ++ [inner.withMessage message] := by
  obtain ⟨hdone, -⟩ := Expr.isClean_trees done.reverse
  rw [Expr.trees_eq_map, List.map_reverse] at hdone
  rw [List.map_append, Token.trees_withMessage_eq_self message _ hdone, List.map_singleton]

/-- **Ending the calls around a failure passes its message on** and adds nothing to it. -/
theorem withMessage_failDraft {message : String} {short long : Draft Token}
    (h : Tree.withMessage message short.arena = long.arena) (outer : List OpenCall) :
    Tree.withMessage message (failDraft short outer).arena = (failDraft long outer).arena := by
  induction outer generalizing short long with
  | nil => exact h
  | cons call outer ih =>
      rw [failDraft, failDraft]
      apply ih
      have hcall : (Token.call call.name
          ((call.done.map Expr.argumentTree).reverse ++ [short.arena])).withMessage message =
            .call call.name ((call.done.map Expr.argumentTree).reverse ++ [long.arena]) := by
        rw [Token.withMessage_call, withMessage_arguments, h]
      rw [callLeaf, callLeaf, Draft.withMessage_hang
        (isClean_partsDraft (isClean_rootToken outer) call.parts none), hcall,
        ← Token.levels_withMessage_call message, hcall]

/-- Where reading stops, the window shows in the message of the mark and nowhere else. -/
theorem Stop.withMessage_draft (limits others : Limits) (stop : Stop) :
    Tree.withMessage (stop.failure others).message (stop.draft limits).arena =
      (stop.draft others).arena := by
  refine withMessage_failDraft ?_ stop.config.outer
  have hclean := isClean_partsDraft (isClean_rootToken stop.config.outer) stop.config.parts
    stop.config.operand
  exact Draft.withMessage_hang hclean _ _ _

/-- **The window shows only in what a failure quotes.**  Under limits that differ in a wider
window, a text is read with the same tree, or fails with the same cause on the same line; then
the wider window quotes more, and the trees are the same but for the message of the one mark. -/
theorem parse_window (limits : Limits) (source : String) {wider : Nat}
    (hwider : limits.window ≤ wider) :
    ((parse limits source).failure = none ∧
      parse { limits with window := wider } source = parse limits source) ∨
    ∃ short long, (parse limits source).failure = some short ∧
      (parse { limits with window := wider } source).failure = some long ∧
      long.Extends short ∧
      Tree.marks (parse limits source).tree = [short.message] ∧
      Tree.marks (parse { limits with window := wider } source).tree = [long.message] ∧
      (parse { limits with window := wider } source).tree =
        Tree.withMessage long.message (parse limits source).tree := by
  have hread : (Stage.start source.toList).read { limits with window := wider } =
      (Stage.start source.toList).read limits :=
    Stage.read_eq_of_next fun _ t _ => t.next_window rfl rfl
  cases houtcome : (Stage.start source.toList).read limits with
  | accepted f =>
      rw [parse_of_accepted houtcome, parse_of_accepted (hread.trans houtcome)]
      exact .inl ⟨rfl, rfl⟩
  | refused stop =>
      rw [parse_of_refused houtcome, parse_of_refused (hread.trans houtcome)]
      exact .inr ⟨_, _, rfl, rfl, stop.failure_extends hwider, (hasMark_stop limits stop).marks,
        (hasMark_stop _ stop).marks, (stop.withMessage_draft limits _).symm⟩

/-- A window of five quotes two more characters than one of three, in the argument of a call as
elsewhere. -/
theorem parse_window_argument :
    3 ≤ 5 ∧ ∃ short long, (parse ⟨3, 9, 9⟩ "f(1 2 + 3)").failure = some short ∧
      (parse ⟨5, 9, 9⟩ "f(1 2 + 3)").failure = some long ∧
      long.Extends short ∧
      Tree.marks (parse ⟨3, 9, 9⟩ "f(1 2 + 3)").tree = [short.message] ∧
      Tree.marks (parse ⟨5, 9, 9⟩ "f(1 2 + 3)").tree = [long.message] ∧
      (parse ⟨5, 9, 9⟩ "f(1 2 + 3)").tree =
        Tree.withMessage long.message (parse ⟨3, 9, 9⟩ "f(1 2 + 3)").tree := by
  have hfailure : (parse ⟨3, 9, 9⟩ "f(1 2 + 3)").failure ≠ none := by decide +kernel
  refine ⟨by decide, ?_⟩
  have hwider : (Limits.mk 3 9 9).window ≤ 5 := by decide
  rcases parse_window ⟨3, 9, 9⟩ "f(1 2 + 3)" hwider with ⟨hnone, -⟩ | hfails
  · exact absurd hnone hfailure
  · exact hfails

end Formula
