/-
Which texts are formulas, and what their trees are.

The machine keeps one tree and turns it as operators come in; it has no grammar and no list
of words.  Here it is compared with both: a text is read without a failure exactly if its
words are a sentence of the grammar and the expression keeps to the limits, `parse_isOk_iff`,
and the tree is then the one that recursive descent through the levels of the grammar finds,
`parse_view`.
-/
import Formula.Proofs.Grammar.Reference
import Formula.Proofs.Reading.Simulation

namespace Formula

variable {limits : Limits} {source : String}

/-- A text is read without a failure if its stages come to a formula, and the tree is the tree
of that formula. -/
theorem isOk_iff_accepted : (parse limits source).isOk = true ↔
    ∃ f, (Stage.start source.toList).read limits = .accepted f ∧
      (parse limits source).tree = (formulaDraft f).arena := by
  cases houtcome : (Stage.start source.toList).read limits with
  | accepted f =>
      rw [parse_of_accepted houtcome]
      exact ⟨fun _ => ⟨f, rfl, rfl⟩, fun _ => rfl⟩
  | refused stop =>
      rw [parse_of_refused houtcome]
      constructor
      · intro hok
        cases hok
      · rintro ⟨f, hf, -⟩
        cases hf

/-- **The texts that are read without a failure are the sentences of the grammar** whose calls
are not too deep inside each other and whose trees are not too high. -/
theorem parse_isOk_iff : (parse limits source).isOk = true ↔
    ∃ ws f, words? source.toList = some ws ∧ Grammar.Sentence ws f ∧
      formulaCallDepth f ≤ limits.callDepth ∧ formulaHeight f ≤ limits.treeDepth := by
  rw [isOk_iff_accepted]
  constructor
  · rintro ⟨f, haccepted, -⟩
    obtain ⟨hwords, hlayered, hcalls, hheight⟩ := Stage.read_eq_accepted_iff.mp haccepted
    exact ⟨formulaWords f, f, hwords, Grammar.sentence_iff.mpr ⟨hlayered, rfl⟩, hcalls, hheight⟩
  · rintro ⟨ws, f, hwords, hsentence, hcalls, hheight⟩
    obtain ⟨hlayered, rfl⟩ := Grammar.sentence_iff.mp hsentence
    have haccepted : (Stage.start source.toList).read limits = .accepted f :=
      Stage.read_eq_accepted_iff.mpr ⟨hwords, hlayered, hcalls, hheight⟩
    have hholds := read_holds limits source
    rw [haccepted] at hholds
    exact ⟨f, haccepted, hholds.2.1⟩

/-- **The tree of a text is the tree that recursive descent finds**: the words of the text are
the words of the expression, in the same order and each of them once, and the tree shows that
expression below an empty root. -/
theorem parse_view (hok : (parse limits source).isOk = true) :
    ∃ ws f, words? source.toList = some ws ∧ Reference.formula? ws = some f ∧
      formulaWords f = ws ∧ (parse limits source).tree.view? = some (formulaView f) := by
  obtain ⟨f, haccepted, htree⟩ := isOk_iff_accepted.mp hok
  obtain ⟨hwords, hlayered, -, -⟩ := Stage.read_eq_accepted_iff.mp haccepted
  refine ⟨formulaWords f, f, hwords, Reference.formula?_words hlayered, rfl, ?_⟩
  rw [htree]
  exact view?_formulaDraft f

/-- What `a-b*c-d` means: its operators group to the left, and the tighter one is inside. -/
def chain : Expr :=
  .binary .sub (.binary .sub (.name "a") (.binary .mul (.name "b") (.name "c"))) (.name "d")

/-- The tree of `a-b*c-d` shows just that. -/
theorem parse_view_chain : (parse ⟨9, 9, 9⟩ "a-b*c-d").isOk = true ∧
    (parse ⟨9, 9, 9⟩ "a-b*c-d").tree.view? = some (.node .empty [.node (.operator .sub) [
      .node (.operator .sub) [.node (.identifier "a") [],
        .node (.operator .mul) [.node (.identifier "b") [], .node (.identifier "c") []]],
      .node (.identifier "d") []]]) := by
  have hok : (parse ⟨9, 9, 9⟩ "a-b*c-d").isOk = true := by decide +kernel
  have hlayered : ∀ e ∈ some chain, e.Layered := by
    intro e he
    obtain rfl := Option.some.inj he
    simp [chain, Expr.Layered, Expr.level, Operator.level, Operator.precedence, Precedence.level]
  have hchain : words? "a-b*c-d".toList = some (formulaWords (some chain)) := by decide +kernel
  refine ⟨hok, ?_⟩
  obtain ⟨ws, f, hwords, hreads, -, hview⟩ := parse_view hok
  obtain rfl := Option.some.inj (hwords.symm.trans hchain)
  obtain rfl := Option.some.inj (hreads.symm.trans (Reference.formula?_words hlayered))
  exact hview

end Formula
