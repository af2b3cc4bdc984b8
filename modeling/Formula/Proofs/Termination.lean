/-
Reading comes to an end.

The reader works on one tree at a time, and the trees around it wait: each of them has a run of
its own, which begins and ends with nothing but the calls around it on the stack.  Every one of
these runs ends, `read_terminates`, because characters get fewer.  A step either passes some, or
it only decides what comes next and then the step behind it passes it; and whatever happens
inside a call, its run goes on only behind a character that has been passed for it.

That the potential of the machine gets lower is known from the simulation.  What it says about
characters depends on what the step does to the stack.
-/
import Formula.Proofs.Reading.Work

namespace Formula

namespace State

theorem rank_le (state : State) : state.rank ≤ 2 := by cases state <;> decide

theorem rank_eq_zero (state : State) : state.rank = 0 ↔ state.isTerminal = true := by
  cases state <;> simp [rank, isTerminal]

theorem rank_eq_one (state : State) : state.rank = 1 ↔
    state = .readText ∨ state = .enterGroup ∨ state = .exitGroup := by
  cases state <;> simp [rank]

theorem rank_eq_two (state : State) : state.rank = 2 ↔
    state = .readValue ∨ state = .readOperator := by
  cases state <;> simp [rank]

theorem rank_pos {state : State} (h : state.isTerminal = false) : 0 < state.rank := by
  rw [Nat.pos_iff_ne_zero, Ne, rank_eq_zero, h]
  simp

end State

namespace Machine

/-- The number of characters that have not been passed. -/
def unread (m : Machine) : Nat := m.scanner.rest.length

/-- A step that passes nothing, and only decides what it is that comes next. -/
structure Decides (m m' : Machine) : Prop where
  unread_eq : m'.unread = m.unread
  before : m.state = .readValue ∨ m.state = .readOperator
  after : m'.state = .readText ∨ m'.state = .enterGroup ∨ m'.state = .exitGroup

/-- How a step brings the machine closer to the end. -/
structure Progress (m m' : Machine) : Prop where
  /-- No step comes back to a character. -/
  unread_le : m'.unread ≤ m.unread
  /-- A step that goes on with a tree passes characters or decides what comes next. -/
  reads : m.state.isTerminal = false → m'.state.isTerminal = false →
    m'.unread < m.unread ∨ m.Decides m'
  /-- What has been decided on is passed, or the run ends. -/
  passes : m.state = .readText ∨ m.state = .enterGroup ∨ m.state = .exitGroup →
    m'.unread < m.unread ∨ (m'.state.isTerminal = true ∧ m'.calls = m.calls)
  /-- Behind an argument a run goes on only if a character has been passed. -/
  resumes : m.state.isTerminal = true → m'.state.isTerminal = false → m'.unread < m.unread
  /-- A call with a finished argument ends, or goes on behind a comma. -/
  separates : m.state.isTerminal = true → ∀ call outer, m.calls = call :: outer →
    m'.calls = outer ∨ (m.scanner.rest = ',' :: m'.scanner.rest ∧ m'.state = .readValue ∧
      m'.calls = { call with arguments := m.builder.tree :: call.arguments } :: outer)

/-! ### Steps -/

section

variable {limits : Limits} {outcome : Outcome} {m m' : Machine}

/-- A step on an unfinished tree passes characters, or its state counts less. -/
theorem Proceeds.reads (h : m.Proceeds m') (hactive : m.state.isTerminal = false)
    (hlower : m'.potential < m.potential) : m'.unread < m.unread ∨
      (m'.unread = m.unread ∧ m'.state.rank < m.state.rank ∧ m'.calls = m.calls) := by
  have hle := h.scanner.length_rest_le
  have hrank := m.state.rank_le
  rw [potential, potential] at hlower
  rw [unread, unread]
  cases h with
  | works _ hworks =>
      have hcalls := hworks.calls
      rw [hcalls] at hlower
      by_cases hsame : m'.scanner.rest.length = m.scanner.rest.length
      · exact .inr ⟨hsame, by omega, hcalls⟩
      · exact .inl (by omega)
  | begins name _ _ hstate _ hcalls =>
      rw [hcalls, hstate, List.length_cons, State.rank] at hlower
      exact .inl (by omega)
  | separates _ _ hterminal | ends _ _ hterminal =>
      rw [hactive] at hterminal
      cases hterminal
  | rests hfinished =>
      rw [isFinished, hactive] at hfinished
      cases hfinished

/-- A step behind a finished argument that goes on with a tree passes a character. -/
theorem Proceeds.resumes (h : m.Proceeds m') (hterminal : m.state.isTerminal = true)
    (hactive : m'.state.isTerminal = false)
    (hlower : m.isFinished = false → m'.potential < m.potential) : m'.unread < m.unread := by
  rw [unread, unread]
  cases h with
  | works hnot | begins _ hnot =>
      rw [hterminal] at hnot
      cases hnot
  | separates _ _ _ _ _ hcomma =>
      rw [hcomma, List.length_cons]
      exact Nat.lt_succ_self _
  | ends call outer _ hbefore _ _ hcalls =>
      have hpotential := hlower (by rw [isFinished, hterminal, hbefore]; rfl)
      have hrank := State.rank_pos hactive
      rw [potential, potential, hbefore, hcalls, m.state.rank_eq_zero.mpr hterminal,
        List.length_cons] at hpotential
      omega
  | rests _ hsame =>
      rw [hsame, hterminal] at hactive
      cases hactive

theorem Proceeds.separates_or_ends (h : m.Proceeds m') (hterminal : m.state.isTerminal = true)
    {call : PendingCall} {outer : List PendingCall} (hcalls : m.calls = call :: outer) :
    m'.calls = outer ∨ (m.scanner.rest = ',' :: m'.scanner.rest ∧ m'.state = .readValue ∧
      m'.calls = { call with arguments := m.builder.tree :: call.arguments } :: outer) := by
  cases h with
  | works hnot | begins _ hnot =>
      rw [hterminal] at hnot
      cases hnot
  | separates other rest _ hbefore _ hcomma hstate _ hpushed =>
      obtain ⟨rfl, rfl⟩ := List.cons.inj (hbefore.symm.trans hcalls)
      exact .inr ⟨hcomma, hstate, hpushed⟩
  | ends other rest _ hbefore _ _ hpopped =>
      obtain ⟨rfl, rfl⟩ := List.cons.inj (hbefore.symm.trans hcalls)
      exact .inl hpopped
  | rests hfinished _ =>
      rw [isFinished, hterminal, hcalls] at hfinished
      cases hfinished

/-- **Every step of a machine that is on its way brings it closer to the end.** -/
theorem progress_step (h : Tracks limits outcome m) : m.Progress (m.step limits) := by
  have hproceeds := step_proceeds limits m
  have hlower : m.isFinished = false → (m.step limits).potential < m.potential :=
    fun hactive => (h.step hactive).2
  have hreads := fun hactive => hproceeds.reads hactive
    (hlower (by rw [isFinished, hactive]; rfl))
  refine ⟨hproceeds.scanner.length_rest_le, fun hactive hgoes => ?_, fun hdecided => ?_,
    fun hterminal hgoes => hproceeds.resumes hterminal hgoes hlower,
    fun hterminal _ _ => hproceeds.separates_or_ends hterminal⟩
  · rcases hreads hactive with hlt | ⟨hsame, hrank, -⟩
    · exact .inl hlt
    · have hpos := State.rank_pos hgoes
      have hle := m.state.rank_le
      exact .inr ⟨hsame, m.state.rank_eq_two.mp (by omega),
        (m.step limits).state.rank_eq_one.mp (by omega)⟩
  · have hone := m.state.rank_eq_one.mpr hdecided
    have hactive : m.state.isTerminal = false := by
      rcases hdecided with hstate | hstate | hstate <;> rw [hstate] <;> rfl
    rcases hreads hactive with hlt | ⟨-, hrank, hcalls⟩
    · exact .inl hlt
    · exact .inr ⟨(m.step limits).state.rank_eq_zero.mp (by omega), hcalls⟩

/-! ### Runs -/

/-- **Every run that is under way comes to its end**, and leaves the calls around it. -/
theorem exists_run_ends (h : Tracks limits outcome m) {outer : List PendingCall}
    (houter : outer <:+ m.calls) :
    ∃ k, (m.run limits k).state.isTerminal = true ∧ (m.run limits k).calls = outer := by
  induction hn : m.potential using Nat.strongRecOn generalizing m with
  | ind n ih =>
      rcases (step_proceeds limits m).outer_suffix houter with ⟨hterminal, hcalls⟩ | hbehind
      · exact ⟨0, hterminal, hcalls⟩
      · by_cases hfinished : m.isFinished
        · rw [isFinished, Bool.and_eq_true, List.isEmpty_iff] at hfinished
          rw [hfinished.2, List.suffix_nil] at houter
          exact ⟨0, hfinished.1, hfinished.2.trans houter.symm⟩
        · obtain ⟨hstep, hlower⟩ := h.step (by simpa using hfinished)
          obtain ⟨k, hk⟩ := ih (m.step limits).potential (by omega) hstep hbehind rfl
          refine ⟨k + 1, ?_⟩
          rw [run, if_neg hfinished]
          exact hk

/-- **Between two moments at which some tree is being read, characters have been passed**,
unless the one is right behind the other and only a decision has been made. -/
theorem unread_run_lt (h : Tracks limits outcome m) (hactive : m.state.isTerminal = false)
    (k : Nat) (hgoes : (m.run limits (k + 1)).state.isTerminal = false) :
    (m.run limits (k + 1)).unread < m.unread ∨
      (k = 0 ∧ m.Decides (m.run limits (k + 1))) := by
  induction k with
  | zero =>
      rw [run_succ] at hgoes ⊢
      rcases (progress_step h).reads hactive hgoes with hlt | hdecides
      · exact .inl hlt
      · exact .inr ⟨rfl, hdecides⟩
  | succ k ih =>
      have hlast := progress_step (tracks_run h (k + 1))
      rw [run_succ limits (k + 1)] at hgoes ⊢
      have hle : (m.run limits (k + 1)).unread ≤ m.unread :=
        (run_passes limits m (k + 1)).length_rest_le
      by_cases hterminal : (m.run limits (k + 1)).state.isTerminal
      · exact .inl (Nat.lt_of_lt_of_le (hlast.resumes hterminal hgoes) hle)
      · rcases ih (by simpa using hterminal) with hlt | ⟨-, hdecides⟩
        · exact .inl (Nat.lt_of_le_of_lt hlast.unread_le hlt)
        · rcases hlast.passes hdecides.after with hlt | ⟨hends, -⟩
          · exact .inl (Nat.lt_of_lt_of_le hlt hle)
          · rw [hgoes] at hends
            cases hends

end

end Machine

/-! ### The whole text -/

/-- Reading a text comes to an end under all circumstances. -/
structure Terminates (limits : Limits) (source : String) : Prop where
  finished : (read limits source).isFinished = true
  /-- Three steps for each character and two more are enough. -/
  settled : ∀ more, (Machine.start source).run limits (3 * source.length + 2 + more) =
    read limits source
  /-- Whatever run is under way, that of the text or that of an argument, comes to its end. -/
  runs : ∀ n outer, outer <:+ ((Machine.start source).run limits n).calls →
    ∃ k, ((Machine.start source).run limits (n + k)).state.isTerminal = true ∧
      ((Machine.start source).run limits (n + k)).calls = outer
  /-- Each step brings the end closer. -/
  progress : ∀ n, ((Machine.start source).run limits n).Progress
    ((Machine.start source).run limits (n + 1))
  /-- So does whatever happens between two moments at which a tree is being read. -/
  between : ∀ n k, ((Machine.start source).run limits n).state.isTerminal = false →
    ((Machine.start source).run limits (n + (k + 1))).state.isTerminal = false →
      ((Machine.start source).run limits (n + (k + 1))).unread <
          ((Machine.start source).run limits n).unread ∨
        (k = 0 ∧ ((Machine.start source).run limits n).Decides
          ((Machine.start source).run limits (n + (k + 1))))

/-- **Reading comes to an end on every text**, and so does each run inside it. -/
theorem read_terminates (limits : Limits) (source : String) : Terminates limits source := by
  have hstart := tracks_start limits source
  have hfinished : (read limits source).isFinished = true := (hstart.run (Nat.le_refl _)).2
  refine ⟨hfinished, fun more => ?_, fun n outer houter => ?_, fun n => ?_,
    fun n k hactive hgoes => ?_⟩
  · have hpotential : (Machine.start source).potential = 3 * source.length + 2 := by
      rw [← String.length_toList]
      rfl
    rw [← hpotential, ← Machine.run_run]
    exact Machine.run_of_isFinished hfinished
  · obtain ⟨k, hk⟩ := Machine.exists_run_ends (Machine.tracks_run hstart n) houter
    rw [Machine.run_run] at hk
    exact ⟨k, hk⟩
  · rw [Machine.run_succ]
    exact Machine.progress_step (Machine.tracks_run hstart n)
  · rw [← Machine.run_run] at hgoes ⊢
    exact Machine.unread_run_lt (Machine.tracks_run hstart n) hactive k hgoes

end Formula
