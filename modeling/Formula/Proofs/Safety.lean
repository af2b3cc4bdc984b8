/-
Nothing goes wrong while a text is read.

The reader takes some things for granted where it does not look again: that the nodes it refers
to are in their trees, that what it takes from the text lies between two characters, that an
operator has something to its left, and that only some characters can come next.  `Safe` lists
them for one step, and `run_safe` says that they hold at every step of every run, whatever the
text and whatever the limits.

A step passes characters and lets trees grow several times over.  So what is said about the
scanner is said about every place that it can get to, and what is said about a tree about
everything that it can grow to.
-/
import Formula.Proofs.Reading.Work

namespace Formula

/-! ### What the reader relies on -/

/-- Every node that is looked up in a tree under construction is in the tree, and no operator is
put around its root. -/
structure Builder.InRange (b : Builder) : Prop where
  cursor_lt : b.cursor < b.tree.size
  parent_lt : ∀ id parent : Nat, b.tree.parent? id = some parent → parent < b.tree.size
  child_lt : ∀ id child : Nat, child ∈ b.tree.children id → child < b.tree.size
  path_lt : ∀ id : Nat, id ∈ b.path → id < b.tree.size
  closing_lt : ∀ closing, b.closing? = some closing → closing.node < b.tree.size
  placement : ∀ op place, b.placement? op = some place →
    place.left < b.tree.size ∧ place.left ≠ Arena.root

/-- What the reader relies on in its next step. -/
structure Machine.Safe (limits : Limits) (source : String) (m : Machine) : Prop where
  /-- The step does only what a step can do. -/
  proceeds : m.Proceeds (m.step limits)
  /-- The scanner stays within the text. -/
  within : ∀ s, m.scanner.Passes s → s.Within source
  /-- The nodes of the trees under construction stay in their trees. -/
  inRange : ∀ b ∈ m.builders, ∀ c, b.Grows c → c.InRange
  /-- An operator that comes in finds its place. -/
  placement : m.state = .readOperator → ∀ op, ∃ place, m.builder.placement? op = some place
  /-- An argument ends at a comma, at a bracket or at the end of the text. -/
  argument : m.state = .done → m.calls ≠ [] →
    m.scanner.peek = some ',' ∨ m.scanner.peek = some ')' ∨ m.scanner.peek = none
  /-- Behind the blanks comes something else. -/
  blanks : Lexeme.starting m.scanner.skipBlanks.peek ≠ .blank

/-! ### Why it holds -/

theorem Builder.Sound.inRange {b : Builder} (h : b.Sound) : b.InRange where
  cursor_lt := h.cursor_lt
  parent_lt := h.linked.parent_lt
  child_lt _ _ hchild := h.linked.child_lt hchild
  path_lt _ hid := h.path_lt hid
  closing_lt _ hclosing := h.closing_lt hclosing
  placement _ _ hplace := h.placement hplace

theorem Scanner.starting_skipBlanks (s : Scanner) :
    Lexeme.starting s.skipBlanks.peek ≠ .blank := by
  have htext : s.skipBlanks.peek = (Stage.start s.rest).text.head? :=
    congrArg List.head? (s.rest_advanceWhile Text.isBlank)
  rw [htext]
  exact (Stage.start s.rest).starting_ne_blank

namespace Machine

variable {limits : Limits} {outcome : Outcome} {m : Machine}

/-- Where an operator may come there is an operand, so an operator finds its place. -/
theorem exists_placement (h : Tracks limits outcome m) (hstate : m.state = .readOperator)
    (op : Operator) : ∃ place, m.builder.placement? op = some place := by
  cases h with
  | reading s _ hcarries hcursor _ hexpected =>
      rw [hexpected, Config.state] at hstate
      cases hoperand : s.config.operand with
      | none =>
          rw [hoperand] at hstate
          cases hstate
      | some e =>
          have hbuilder : m.builder =
              (partsDraft (rootToken s.config.outer) s.config.parts (some e)).builder := by
            rw [builder_eq hcarries.tree hcursor, Config.draft, hoperand]
          obtain ⟨place, hplace, -⟩ :=
            insert_builder (operator?_rootToken s.config.outer) hcarries.ordered.parts e op
          exact ⟨place, hbuilder ▸ hplace⟩
  | inside s _ _ _ _ hpromises =>
      rw [hstate] at hpromises
      exact hpromises.elim
  | failing _ _ _ _ _ hfailed =>
      rw [hstate] at hfailed
      cases hfailed
  | complete _ _ hdone =>
      rw [hstate] at hdone
      cases hdone

/-- What comes behind a finished argument. -/
theorem peek_of_done (h : Tracks limits outcome m) (hstate : m.state = .done)
    (hcalls : m.calls ≠ []) :
    m.scanner.peek = some ',' ∨ m.scanner.peek = some ')' ∨ m.scanner.peek = none := by
  cases h with
  | reading s _ _ _ _ hexpected =>
      rw [hexpected, Config.state] at hstate
      split at hstate <;> cases hstate
  | inside s _ _ _ hscan hpromises =>
      rw [hstate] at hpromises
      obtain ⟨-, -, htext | ⟨rest, htext⟩ | ⟨-, rest, htext⟩⟩ := hpromises
      · exact .inr (.inr (by rw [hscan.peek_eq, htext]; rfl))
      · exact .inr (.inl (by rw [hscan.peek_eq, htext]; rfl))
      · exact .inl (by rw [hscan.peek_eq, htext]; rfl)
  | failing _ _ _ _ _ hfailed =>
      rw [hstate] at hfailed
      cases hfailed
  | complete _ _ _ _ hnone => exact absurd hnone hcalls

theorem sound_run (limits : Limits) (source : String) (n : Nat) :
    ∀ b ∈ ((start source).run limits n).builders, b.Sound :=
  run_keeps (P := fun m => ∀ b ∈ m.builders, b.Sound)
    (fun m hm => (step_proceeds limits m).sound hm)
    (List.forall_mem_singleton.mpr (.ofRoot rfl)) n

/-- **Nothing goes wrong at any step of any run.** -/
theorem run_safe (limits : Limits) (source : String) (n : Nat) :
    ((start source).run limits n).Safe limits source where
  proceeds := step_proceeds limits _
  within _ hpasses := (run_passes limits (start source) n).within hpasses
  inRange b hb _ hgrows := ((sound_run limits source n b hb).grows hgrows).inRange
  placement := exists_placement (tracks_run (tracks_start limits source) n)
  argument := peek_of_done (tracks_run (tracks_start limits source) n)
  blanks := Scanner.starting_skipBlanks _

end Machine

end Formula
