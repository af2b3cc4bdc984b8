/-
Closing brackets match opening ones.

Nothing in a tree says which pairs of brackets are still open; the cursor does, by the way from
there to the root.  What it has to say follows from the brackets alone: a closing one closes the
pair that was opened last and has not been closed since (`Parenthesis.unmatched`).  Along every run
the two agree in each of the trees under construction (`run_matched`), though an argument begins
and ends in the middle of another tree, with brackets that are not counted in either.

For this, every tree under construction is followed by a list of the brackets that have been passed
in it, the latest one first (`Machine.passed`).  A step adds at most one bracket to the list of the
tree at hand, and `agrees_step` says what it does there.
-/
import Formula.Proofs.Reading.Parentheses
import Formula.Proofs.Safety

namespace Formula

/-! ### Brackets that have been passed -/

namespace Parenthesis

/-- The number of opening brackets. -/
def openings : List Parenthesis → Nat
  | [] => 0
  | opening _ :: brackets => openings brackets + 1
  | closing :: brackets => openings brackets

/-- The number of closing brackets. -/
def closings : List Parenthesis → Nat
  | [] => 0
  | opening _ :: brackets => closings brackets
  | closing :: brackets => closings brackets + 1

/-- The pairs that have been opened and not been closed, the latest one first.  The brackets are
given in this order as well, and each closing one closes the latest pair that is still open. -/
def unmatched : List Parenthesis → List NodeId
  | [] => []
  | opening id :: brackets => id :: unmatched brackets
  | closing :: brackets => (unmatched brackets).tail

end Parenthesis

open Parenthesis

namespace Machine

/-- The brackets passed in each of the trees under construction, after the step from `m` to `m'`.
The tree at hand comes first.  A call that begins puts an argument in front of it.  Where the tree
is finished, it is followed no longer: the call ends, or its next argument begins. -/
def follow (m m' : Machine) : List (List Parenthesis) → List (List Parenthesis)
  | [] => []
  | here :: outer =>
    if m.isFinished then here :: outer
    else if m.state.isTerminal then
      if m'.calls.length < m.calls.length then outer else [] :: outer
    else if m.calls.length < m'.calls.length then [] :: here :: outer
    else ((m.parenthesis? m').toList ++ here) :: outer

/-- The brackets passed in each of the trees under construction in the first steps of a run. -/
def passed (limits : Limits) (source : String) : (steps : Nat) → List (List Parenthesis)
  | 0 => [[]]
  | n + 1 =>
    let m := (start source).run limits n
    m.follow (m.step limits) (passed limits source n)

end Machine

/-! ### One tree -/

namespace Builder

variable {b c : Builder} {brackets : List Parenthesis}

/-- The open pairs of the tree are the ones that have not been closed. -/
structure Agrees (b : Builder) (brackets : List Parenthesis) : Prop where
  rooted : b.Rooted
  openParens : b.openParens = unmatched brackets
  count : (unmatched brackets).length + closings brackets = openings brackets

namespace Agrees

theorem ofRoot {token : Token} (htoken : token = .empty ∨ token = .group .scope) :
    (Builder.ofRoot token).Agrees [] :=
  ⟨.ofRoot htoken, (Rooted.ofRoot htoken).openParens_root, rfl⟩

theorem fills (h : b.Agrees brackets) (hfills : b.Fills c) : c.Agrees brackets where
  rooted := h.rooted.grows hfills.grows
  openParens := (h.rooted.openParens_fills hfills).trans h.openParens
  count := h.count

theorem opens (h : b.Agrees brackets) :
    b.openParen.Agrees (.opening b.tree.size :: brackets) where
  rooted := h.rooted.openParen
  openParens := h.rooted.openParens_openParen.trans (congrArg _ h.openParens)
  count := by
    have hcount := h.count
    rw [unmatched, List.length_cons, closings, openings]
    omega

/-- **A closing bracket closes the pair that was opened last.** -/
theorem closes (h : b.Agrees brackets) {parent : NodeId}
    (hgroup : b.closing? = some (.group parent)) :
    ({ b with cursor := parent } : Builder).Agrees (.closing :: brackets) := by
  obtain ⟨id, hopen, hparent⟩ := h.rooted.closing?_eq_group_iff.mp hgroup
  have hpairs := h.rooted.openParens_close hopen hparent
  rw [h.openParens] at hpairs
  have hcount := h.count
  rw [hpairs, List.length_cons] at hcount
  refine ⟨h.rooted.climb (h.rooted.mem_path_closing hgroup), ?_, ?_⟩
  · rw [unmatched, hpairs, List.tail_cons]
  · rw [unmatched, hpairs, List.tail_cons, closings, openings]
    omega

theorem leaves (h : b.Agrees brackets) {root : NodeId}
    (hcall : b.closing? = some (.call root)) :
    ({ b with cursor := root } : Builder).Agrees brackets := by
  obtain ⟨hnone, -, rfl⟩ := h.rooted.closing?_eq_call_iff.mp hcall
  rw [openParen?_eq, List.head?_eq_none_iff] at hnone
  refine ⟨h.rooted.climb (h.rooted.mem_path_closing hcall), ?_, h.count⟩
  rw [h.rooted.openParens_root, ← h.openParens, hnone]

end Agrees

end Builder

/-! ### All trees under construction -/

namespace Machine

variable {limits : Limits} {outcome : Outcome} {m m' : Machine}

/-- The tree at hand, after a step that works on it. -/
theorem agrees_handled {here : List Parenthesis} (h : m.builder.Agrees here)
    (hhandles : m.Handles m') :
    m'.builder.Agrees ((m.parenthesis? m').toList ++ here) := by
  cases hhandles with
  | fills hnone hfills =>
      rw [hnone]
      exact h.fills hfills
  | opens hopening hfills =>
      rw [hopening]
      exact h.opens.fills hfills
  | closes parent hclosing hgroup hbuilder =>
      rw [hclosing, hbuilder]
      exact h.closes hgroup
  | leaves root hnone hcall hbuilder =>
      rw [hnone, hbuilder]
      exact h.leaves hcall

/-- **A step keeps the trees and the brackets together.** -/
theorem agrees_step (h : Tracks limits outcome m) {histories : List (List Parenthesis)}
    (hagrees : List.Forall₂ Builder.Agrees m.builders histories) :
    List.Forall₂ Builder.Agrees (m.step limits).builders
      (m.follow (m.step limits) histories) := by
  have hroot : (Builder.ofRoot (.group .scope)).Agrees [] := .ofRoot (.inr rfl)
  have hunfinished : m.state.isTerminal = false → m.isFinished = false := by
    intro hactive
    rw [isFinished, hactive, Bool.false_and]
  have hsuspended : ∀ call outer, m.calls = call :: outer → m.isFinished = false := by
    intro call outer hbefore
    rw [isFinished, hbefore, List.isEmpty_cons, Bool.and_false]
  rw [builders] at hagrees
  rcases hagrees with _ | ⟨hhere, houter⟩
  cases step_proceeds limits m with
  | works hactive hworks =>
      have hhandled := agrees_handled hhere (handles_step h hactive hworks.calls)
      rw [builders, hworks.calls]
      simp only [follow, hunfinished hactive, hactive, hworks.calls, Nat.lt_irrefl, if_false,
        Bool.false_eq_true]
      exact .cons hhandled houter
  | begins name hactive _ _ hbuilder hcalls =>
      rw [builders, hbuilder, hcalls]
      simp only [follow, hunfinished hactive, hactive, hcalls, List.length_cons, Nat.lt_succ_self,
        if_false, if_true, Bool.false_eq_true]
      exact .cons hroot (.cons hhere houter)
  | separates call outer hterminal hbefore _ _ _ hbuilder hcalls =>
      rw [hbefore] at houter
      rw [builders, hbuilder, hcalls]
      simp only [follow, hsuspended call outer hbefore, hterminal, hbefore, hcalls,
        List.length_cons, Nat.lt_irrefl, if_false, if_true, Bool.false_eq_true]
      exact .cons hroot houter
  | ends call outer hterminal hbefore _ _ hcalls =>
      have hfills := fills_step hterminal hbefore hcalls
      rw [hbefore] at houter
      rcases houter with _ | ⟨hcall, houter⟩
      rw [builders, hcalls]
      simp only [follow, hsuspended call outer hbefore, hterminal, hbefore, hcalls,
        List.length_cons, Nat.lt_succ_self, if_false, if_true, Bool.false_eq_true]
      exact .cons (hcall.fills hfills) houter
  | rests hfinished hsame =>
      rw [hsame, follow, if_pos hfinished]
      exact .cons hhere houter

theorem agrees_run (limits : Limits) (source : String) (n : Nat) :
    List.Forall₂ Builder.Agrees ((start source).run limits n).builders
      (passed limits source n) := by
  induction n with
  | zero => exact .cons (.ofRoot (.inl rfl)) .nil
  | succ n ih =>
      rw [run_succ]
      exact agrees_step (tracks_run (tracks_start limits source) n) ih

/-! ### Formulas and arguments -/

/-- The tokens at the roots of the trees under construction. -/
def roots (m : Machine) : List Token := m.builders.map fun b => b.tree.token Arena.root

/-- The trees at hand and put aside are arguments, each inside the next, and then the formula. -/
theorem roots_step (h : m.Proceeds m') (hsound : ∀ b ∈ m.builders, b.Sound)
    (hroots : m.roots = List.replicate m.calls.length (.group .scope) ++ [.empty]) :
    m'.roots = List.replicate m'.calls.length (.group .scope) ++ [.empty] := by
  obtain ⟨hbuilder, hsuspended⟩ := List.forall_mem_cons.mp hsound
  rw [roots, builders, List.map_cons] at hroots ⊢
  cases h with
  | works _ hworks =>
      rw [hworks.calls, hbuilder.token_root_grows hworks.builder, hroots]
  | begins name _ _ _ hroot hcalls =>
      rw [hroot, hcalls, List.length_cons, List.replicate_succ, List.cons_append, ← hroots]
      rfl
  | separates call outer _ hbefore _ _ _ hroot hcalls =>
      rw [hbefore, List.length_cons, List.replicate_succ, List.cons_append] at hroots
      rw [hroot, hcalls, List.length_cons, List.replicate_succ, List.cons_append]
      exact congrArg _ (List.cons.inj hroots).2
  | ends call outer _ hbefore _ hgrows hcalls =>
      rw [hbefore] at hsuspended hroots
      have hcall := (List.forall_mem_cons.mp hsuspended).1
      rw [hcalls, hcall.token_root_grows hgrows]
      exact (List.cons.inj hroots).2
  | rests _ hsame =>
      rw [hsame]
      exact hroots

theorem roots_run (limits : Limits) (source : String) (n : Nat) :
    ((start source).run limits n).roots =
      List.replicate ((start source).run limits n).calls.length (.group .scope) ++ [.empty] := by
  induction n with
  | zero => rfl
  | succ n ih =>
      rw [run_succ]
      exact roots_step (step_proceeds limits _) (sound_run limits source n) ih

/-- The tree at hand is the formula if no call is around it, and an argument otherwise. -/
theorem token_root_of_roots
    (hroots : m.roots = List.replicate m.calls.length (.group .scope) ++ [.empty]) :
    m.builder.tree.token Arena.root = if m.calls = [] then .empty else .group .scope := by
  rw [roots, builders, List.map_cons] at hroots
  cases hcalls : m.calls with
  | nil =>
      rw [hcalls] at hroots
      rw [if_pos rfl]
      exact (List.cons.inj hroots).1
  | cons call outer =>
      rw [hcalls, List.length_cons, List.replicate_succ] at hroots
      rw [if_neg (List.cons_ne_nil call outer)]
      exact (List.cons.inj hroots).1

end Machine

/-! ### What closing brackets find -/

/-- What the brackets that have been passed in a tree say of the next closing bracket there. -/
structure Builder.Matched (b : Builder) (brackets : List Parenthesis) : Prop where
  /-- Around the cursor are as many pairs as there are opening brackets, less the closing ones. -/
  count : b.openParens.length + closings brackets = openings brackets
  /-- They are the pairs that have not been closed. -/
  openParens : b.openParens = unmatched brackets
  /-- A closing bracket closes a pair if and only if one is open. -/
  closes_iff : (∃ parent, b.closing? = some (.group parent)) ↔ ∃ id, b.openParen? = some id
  /-- That pair is the one that was opened last, and the cursor goes to its parent. -/
  closes : ∀ id, b.openParen? = some id → (unmatched brackets).head? = some id ∧
    ∃ parent, b.tree.parent? id = some parent ∧ b.closing? = some (.group parent)
  /-- Where none is open, the bracket of an argument is that of the call. -/
  leaves : b.openParen? = none → b.tree.token Arena.root = .group .scope →
    b.closing? = some (.call Arena.root)
  /-- Where none is open, the bracket of the formula closes nothing. -/
  refuses : b.openParen? = none → b.tree.token Arena.root = .empty → b.closing? = none

theorem Builder.Agrees.matched {b : Builder} {brackets : List Parenthesis}
    (h : b.Agrees brackets) : b.Matched brackets where
  count := h.openParens ▸ h.count
  openParens := h.openParens
  closes_iff := by
    constructor
    · rintro ⟨parent, hgroup⟩
      obtain ⟨id, hopen, -⟩ := h.rooted.closing?_eq_group_iff.mp hgroup
      exact ⟨id, hopen⟩
    · rintro ⟨id, hopen⟩
      obtain ⟨-, parent, hparent, -⟩ := h.rooted.path_eq_of_openParen? hopen
      exact ⟨parent, h.rooted.closing?_eq_group_iff.mpr ⟨id, hopen, hparent⟩⟩
  closes := by
    intro id hopen
    obtain ⟨-, parent, hparent, -⟩ := h.rooted.path_eq_of_openParen? hopen
    refine ⟨?_, parent, hparent, h.rooted.closing?_eq_group_iff.mpr ⟨id, hopen, hparent⟩⟩
    rw [← h.openParens, ← b.openParen?_eq]
    exact hopen
  leaves hopen hroot := h.rooted.closing?_eq_call_iff.mpr ⟨hopen, hroot, rfl⟩
  refuses hopen hroot := h.rooted.closing?_eq_none_iff.mpr ⟨hopen, hroot⟩

namespace Machine

/-- What the brackets that have been passed say of the next closing bracket. -/
structure Matched (limits : Limits) (m : Machine) (histories : List (List Parenthesis)) :
    Prop where
  /-- Each tree under construction goes with the brackets that have been passed in it. -/
  trees : List.Forall₂ Builder.Matched m.builders histories
  /-- The trees are those of the arguments around the place of reading, and then the formula. -/
  roots : m.roots = List.replicate m.calls.length (.group .scope) ++ [.empty]
  /-- A closing bracket that closes a pair is passed, and the cursor goes to the parent. -/
  closes : ∀ id parent, m.builder.openParen? = some id → m.builder.tree.parent? id = some parent →
    m.exitGroup limits = { m.scan fun s => s.advance.ignore with
      builder := { m.builder with cursor := parent }, state := .readOperator }
  /-- One that is left to a call is not passed, and the cursor goes to the root. -/
  leaves : m.builder.openParen? = none → m.calls ≠ [] →
    m.exitGroup limits = { m.note .endOfCall with
      builder := { m.builder with cursor := Arena.root }, state := .done }
  /-- One that closes nothing is refused, which leaves the tree and the cursor as they are, but for
  the mark of the failure. -/
  refuses : m.builder.openParen? = none → m.calls = [] →
    m.exitGroup limits = m.refuse limits .unclosedGroup ∧
      ∃ message, (m.exitGroup limits).builder = m.builder.attach (.error message)

theorem matched_of_agrees {limits : Limits} {m : Machine} {histories : List (List Parenthesis)}
    (hagrees : List.Forall₂ Builder.Agrees m.builders histories)
    (hroots : m.roots = List.replicate m.calls.length (.group .scope) ++ [.empty]) :
    m.Matched limits histories := by
  have hrooted : m.builder.Rooted := by
    rw [builders] at hagrees
    rcases hagrees with _ | ⟨hhere, -⟩
    exact hhere.rooted
  have hroot := token_root_of_roots hroots
  refine ⟨hagrees.imp fun _ _ h => h.matched, hroots, ?_, ?_, ?_⟩
  · intro id parent hopen hparent
    rw [exitGroup, hrooted.closing?_eq_group_iff.mpr ⟨id, hopen, hparent⟩]
    rfl
  · intro hopen hcalls
    rw [if_neg hcalls] at hroot
    rw [exitGroup, hrooted.closing?_eq_call_iff.mpr ⟨hopen, hroot, rfl⟩]
  · intro hopen hcalls
    rw [if_pos hcalls] at hroot
    have hrefuse : m.exitGroup limits = m.refuse limits .unclosedGroup := by
      rw [exitGroup, hrooted.closing?_eq_none_iff.mpr ⟨hopen, hroot⟩]
    rw [hrefuse]
    exact ⟨rfl, (marks_refuse limits _ m).2⟩

/-- **Brackets match** at every step of every run, in the formula and in every argument: a closing
bracket closes the pair that was opened last in the same tree and has not been closed since.  Where
there is none, it is left to the call around the argument, or refused in the formula. -/
theorem run_matched (limits : Limits) (source : String) (n : Nat) :
    ((start source).run limits n).Matched limits (passed limits source n) :=
  matched_of_agrees (agrees_run limits source n) (roots_run limits source n)

/-- Of the five brackets that have been passed here, three are in the argument of the call, where
the first pair has been closed again. -/
example : passed ⟨9, 9, 9⟩ "(2*(f((1)+(3" 16 =
    [[.opening 4, .closing, .opening 1], [.opening 4, .opening 1]] := by decide +kernel

end Machine

end Formula
