/-
Cursors and scanners under any use.

Reading a formula uses a scanner in a few set ways.  What is said here does not depend on them:
the moves come in any order and any number.  A history lists them with what each has returned,
the last one first, and two things are computed from it alone: how many characters have been
consumed, and how the scanner has cut the text.

Only one step back is remembered, and it is forgotten when it is taken, and also by an advance
at the end of the text.  So what a cursor remembers has to be followed together with where it
is: `Moved.place` says that it remembers a step exactly if the last move but for looks was an
advance that returned a character.
-/
import Formula.Proofs.Source.Places

namespace Formula

/-! ### Histories of a cursor -/

namespace Cursor

/-- A move of a cursor, with what it returns. -/
inductive Move where
  | advance (passed : Option Char)
  | backup
  | peek (seen : Option Char)

/-- Whether the last move, looks aside, is an advance that returned a character. -/
def remembers : List Move → Bool
  | .advance passed :: _ => passed.isSome
  | .peek _ :: moves => remembers moves
  | _ => false

/-- The number of characters consumed: those that have been passed and not taken back. -/
def consumed : List Move → Nat
  | [] => 0
  | .advance (some _) :: moves => consumed moves + 1
  | .advance none :: moves => consumed moves
  | .backup :: moves => if remembers moves then consumed moves - 1 else consumed moves
  | .peek _ :: moves => consumed moves

/-- The cursors that moves lead to from the start of a text. -/
inductive Moved (text : String) : List Move → Cursor → Prop
  | start : Moved text [] (.ofText text)
  | advance {moves : List Move} {c : Cursor} (h : Moved text moves c) :
      Moved text (.advance c.peek :: moves) c.advance
  | backup {moves : List Move} {c : Cursor} (h : Moved text moves c) :
      Moved text (.backup :: moves) c.backup
  | peek {moves : List Move} {c : Cursor} (h : Moved text moves c) :
      Moved text (.peek c.peek :: moves) c

/-- The cursor is behind the first `n` characters of the text, and shows so in every way. -/
structure Exact (text : String) (n : Nat) (c : Cursor) : Prop where
  le_length : n ≤ text.toList.length
  byte : c.position.byte = (String.ofList (text.toList.take n)).utf8ByteSize
  line : c.position.line = (text.toList.take n).count '\n'
  column : c.position.column = ((text.toList.take n).reverse.takeWhile (· ≠ '\n')).length
  peek : c.peek = text.toList[n]?
  atEnd : c.atEnd = true ↔ n = text.toList.length

/-! ### Where a cursor is -/

variable {text : String} {moves : List Move} {c : Cursor} {n : Nat}

theorem peek_of_here (h : c.here = .after text n) : c.peek = text.toList[n]? := by
  rw [Cursor.peek, h, Place.rest_after, List.head?_drop]

theorem exact_of_here (hn : n ≤ text.toList.length) (h : c.here = .after text n) :
    c.Exact text n where
  le_length := hn
  byte := by rw [position, h, Place.byte_after hn]
  line := by rw [position, h, Place.line_after hn]
  column := by rw [position, h, Place.column_after hn]
  peek := peek_of_here h
  atEnd := by
    rw [Cursor.atEnd, h, Place.rest_after, List.isEmpty_iff, List.drop_eq_nil_iff]
    omega

/-- At the end of the text a cursor stays and forgets. -/
theorem advance_of_peek_none (h : c.peek = none) : c.advance = ⟨c.here, none⟩ := by
  rw [Cursor.peek, List.head?_eq_none_iff] at h
  rw [Cursor.advance, atEnd, h]
  rfl

theorem advance_of_peek_some {next : Char} (h : c.peek = some next) :
    c.advance = ⟨c.here.next, some c.here⟩ := by
  obtain ⟨rest, hrest⟩ := List.head?_eq_some_iff.mp h
  rw [Cursor.advance, atEnd, hrest]
  rfl

/-- A cursor is behind the characters that have been consumed, and remembers the place one
character before if it remembers any. -/
theorem Moved.place (h : Moved text moves c) : consumed moves ≤ text.toList.length ∧
    c.here = .after text (consumed moves) ∧
    c.previous = if remembers moves then some (.after text (consumed moves - 1)) else none := by
  induction h with
  | start => exact ⟨Nat.zero_le _, rfl, rfl⟩
  | @advance moves c _ ih =>
      obtain ⟨hle, hhere, -⟩ := ih
      cases hpeek : c.peek with
      | none =>
          rw [advance_of_peek_none hpeek]
          exact ⟨hle, hhere, rfl⟩
      | some next =>
          have hlt : consumed moves < text.toList.length := by
            rw [peek_of_here hhere] at hpeek
            exact (List.getElem?_eq_some_iff.mp hpeek).1
          rw [advance_of_peek_some hpeek, hhere]
          exact ⟨hlt, rfl, rfl⟩
  | @backup moves c _ ih =>
      obtain ⟨hle, hhere, hprevious⟩ := ih
      rw [Cursor.backup, hprevious, consumed]
      by_cases hremembers : remembers moves = true
      · rw [if_pos hremembers, if_pos hremembers]
        exact ⟨Nat.le_trans (Nat.sub_le _ _) hle, rfl, rfl⟩
      · rw [if_neg hremembers, if_neg hremembers]
        refine ⟨hle, hhere, hprevious.trans ?_⟩
        rw [if_neg hremembers]
        rfl
  | peek _ ih => exact ih

/-- **The position of a cursor is exact under any use.** -/
theorem exact_of_moved (h : Moved text moves c) : c.Exact text (consumed moves) :=
  exact_of_here h.place.1 h.place.2.1

/-- Two steps forward, over a line break, and one back, with a look in between. -/
theorem exact_of_stepBack :
    ∃ c, Moved "é\nx"
        [.backup, .peek (some 'x'), .advance (some '\n'), .advance (some 'é')] c ∧
      c.Exact "é\nx" 1 :=
  have hmoved : Moved "é\nx"
      [.backup, .peek (some 'x'), .advance (some '\n'), .advance (some 'é')]
      (ofText "é\nx").advance.advance.backup := .backup (.peek (.advance (.advance .start)))
  ⟨_, hmoved, exact_of_moved hmoved⟩

end Cursor

/-! ### Histories of a scanner -/

namespace Scanner

/-- A move of a scanner: a move of its cursor, or a cut, with the text that is cut off. -/
inductive Move where
  | cursor (move : Cursor.Move)
  | commit (taken : String)
  | ignore (dropped : String)

/-- The moves of the cursor. -/
def cursorMoves : List Move → List Cursor.Move
  | [] => []
  | .cursor move :: moves => move :: cursorMoves moves
  | _ :: moves => cursorMoves moves

/-- The text that a move cuts off. -/
def Move.cut? : Move → Option String
  | .cursor _ => none
  | .commit taken => some taken
  | .ignore dropped => some dropped

/-- The texts that have been cut off, in order. -/
def cuts (moves : List Move) : List String := moves.reverse.filterMap Move.cut?

/-- The characters that have been passed since the last cut and not taken back. -/
def passed : List Move → List Char
  | .cursor (.advance answer) :: moves => passed moves ++ answer.toList
  | .cursor .backup :: moves =>
    if Cursor.remembers (cursorMoves moves) then (passed moves).dropLast else passed moves
  | .cursor (.peek _) :: moves => passed moves
  | _ => []

/-- The scanners that moves lead to from the start of a text, where a step is taken back only
if something is pending. -/
inductive Moved (text : String) : List Move → Scanner → Prop
  | start : Moved text [] (.ofText text)
  | advance {moves : List Move} {s : Scanner} (h : Moved text moves s) :
      Moved text (.cursor (.advance s.peek) :: moves) s.advance
  | backup {moves : List Move} {s : Scanner} (h : Moved text moves s)
      (hpending : s.pending ≠ "") : Moved text (.cursor .backup :: moves) s.backup
  | peek {moves : List Move} {s : Scanner} (h : Moved text moves s) :
      Moved text (.cursor (.peek s.peek) :: moves) s
  | commit {moves : List Move} {s : Scanner} (h : Moved text moves s) :
      Moved text (.commit s.commit.1 :: moves) s.commit.2
  | ignore {moves : List Move} {s : Scanner} (h : Moved text moves s) :
      Moved text (.ignore s.pending :: moves) s.ignore

/-- What has been cut off is the text up to the mark, and what would be cut off next is what
has been passed since. -/
structure Parts (text : String) (moves : List Move) (s : Scanner) : Prop where
  cuts_eq : (String.join (cuts moves)).toList = text.toList.take s.mark.offset
  byte_eq : (String.join (cuts moves)).utf8ByteSize = s.mark.position.byte
  commit_eq : s.commit.1 = String.ofList (passed moves)

/-! ### Where a scanner has cut -/

variable {text : String} {moves : List Move} {s : Scanner} {m : Nat}

theorem Moved.cursor (h : Moved text moves s) : Cursor.Moved text (cursorMoves moves) s.cursor := by
  induction h with
  | start => exact .start
  | advance _ ih => exact .advance ih
  | backup _ _ ih => exact .backup ih
  | peek _ ih => exact .peek ih
  | commit _ ih => exact ih
  | ignore _ ih => exact ih

/-- The last cut is behind the first `m` characters, and the characters from there to the
cursor have been passed since. -/
structure CutAt (text : String) (moves : List Move) (s : Scanner) (m : Nat) : Prop where
  le_consumed : m ≤ Cursor.consumed (cursorMoves moves)
  mark_eq : s.mark = .after text m
  cuts_eq : (String.join (cuts moves)).toList = text.toList.take m
  passed_eq : passed moves = (text.toList.drop m).take (Cursor.consumed (cursorMoves moves) - m)

theorem CutAt.pending (hmoved : Moved text moves s) (h : CutAt text moves s m) :
    s.pending = String.ofList (passed moves) := by
  obtain ⟨hle, hhere, -⟩ := hmoved.cursor.place
  rw [Inside.pending_eq h.le_consumed hle h.mark_eq hhere, h.passed_eq]

/-- One more cut, of what is pending. -/
theorem cuts_cons {move : Move} {cut : String} (hcut : move.cut? = some cut) :
    cuts (move :: moves) = cuts moves ++ [cut] := by
  rw [cuts, cuts, List.reverse_cons, List.filterMap_append, List.filterMap_cons,
    hcut]
  rfl

theorem cuts_cursor (move : Cursor.Move) :
    cuts (.cursor move :: moves) = cuts moves := by
  rw [cuts, List.reverse_cons, List.filterMap_append]
  exact List.append_nil _

/-- Passing a character that is still to come. -/
theorem CutAt.advance (hmoved : Moved text moves s) (h : CutAt text moves s m) :
    CutAt text (.cursor (.advance s.peek) :: moves) s.advance m := by
  obtain ⟨hle, hmark, hcuts, hpassed⟩ := h
  have hpeek : s.peek = text.toList[Cursor.consumed (cursorMoves moves)]? :=
    Cursor.peek_of_here hmoved.cursor.place.2.1
  cases hnext : s.peek with
  | none => exact ⟨hle, hmark, by rw [cuts_cursor, hcuts],
      by rw [passed, hpassed]; exact List.append_nil _⟩
  | some next =>
      refine ⟨Nat.le_succ_of_le hle, hmark, by rw [cuts_cursor, hcuts], ?_⟩
      have hnextAt : (text.toList.drop m)[Cursor.consumed (cursorMoves moves) - m]? =
          some next := by
        rw [List.getElem?_drop, Nat.add_sub_cancel' hle, ← hpeek, hnext]
      rw [passed, hpassed, cursorMoves, Cursor.consumed, Nat.succ_sub hle,
        List.take_add_one, hnextAt]

/-- Taking back a character that is pending. -/
theorem CutAt.backup (hmoved : Moved text moves s) (h : CutAt text moves s m)
    (hpending : s.pending ≠ "") : CutAt text (.cursor .backup :: moves) s.backup m := by
  have hne : passed moves ≠ [] := by
    rw [h.pending hmoved] at hpending
    rintro hnil
    rw [hnil] at hpending
    exact hpending rfl
  obtain ⟨hle, hmark, hcuts, hpassed⟩ := h
  have hlt : m < Cursor.consumed (cursorMoves moves) := by
    refine Nat.lt_of_le_of_ne hle fun heq => hne ?_
    rw [hpassed, ← heq, Nat.sub_self, List.take_zero]
  by_cases hremembers : Cursor.remembers (cursorMoves moves) = true
  · have hconsumed : Cursor.consumed (cursorMoves (.cursor .backup :: moves)) =
        Cursor.consumed (cursorMoves moves) - 1 := by
      rw [cursorMoves, Cursor.consumed, if_pos hremembers]
    have hlength := hmoved.cursor.place.1
    refine ⟨by omega, hmark, by rw [cuts_cursor, hcuts], ?_⟩
    rw [passed, if_pos hremembers, hpassed, hconsumed, List.dropLast_eq_take,
      List.take_take, List.length_take, List.length_drop]
    congr 1
    omega
  · refine ⟨?_, hmark, by rw [cuts_cursor, hcuts], ?_⟩
    · rw [cursorMoves, Cursor.consumed, if_neg hremembers]
      exact hle
    · rw [passed, if_neg hremembers, cursorMoves, Cursor.consumed, if_neg hremembers]
      exact hpassed

/-- Cutting off what is pending. -/
theorem CutAt.cut (hmoved : Moved text moves s) (h : CutAt text moves s m) {move : Move}
    (hcut : move.cut? = some s.pending) :
    CutAt text (move :: moves) s.ignore (Cursor.consumed (cursorMoves moves)) := by
  have hcursor : cursorMoves (move :: moves) = cursorMoves moves := by
    cases move with
    | cursor => cases hcut
    | commit | ignore => rfl
  have hnone : passed (move :: moves) = [] := by
    cases move with
    | cursor => cases hcut
    | commit | ignore => rfl
  refine ⟨Nat.le_of_eq (congrArg _ hcursor.symm), hmoved.cursor.place.2.1, ?_, ?_⟩
  · rw [cuts_cons hcut, String.join_append, String.toList_append, h.cuts_eq, String.join_cons,
      String.toList_append, h.pending hmoved, String.toList_ofList, h.passed_eq]
    have hparts := List.take_add (l := text.toList) (i := m)
      (j := Cursor.consumed (cursorMoves moves) - m)
    rw [Nat.add_sub_cancel' h.le_consumed] at hparts
    rw [hparts]
    exact congrArg _ (List.append_nil _)
  · rw [hnone, hcursor, Nat.sub_self, List.take_zero]

theorem Moved.exists_cutAt (h : Moved text moves s) : ∃ m, CutAt text moves s m := by
  induction h with
  | start => exact ⟨0, Nat.le_refl _, rfl, rfl, rfl⟩
  | advance hmoved ih =>
      obtain ⟨m, hcut⟩ := ih
      exact ⟨m, hcut.advance hmoved⟩
  | backup hmoved hpending ih =>
      obtain ⟨m, hcut⟩ := ih
      exact ⟨m, hcut.backup hmoved hpending⟩
  | peek _ ih =>
      obtain ⟨m, hle, hmark, hcuts, hpassed⟩ := ih
      exact ⟨m, hle, hmark, by rw [cuts_cursor, hcuts], hpassed⟩
  | commit hmoved ih =>
      obtain ⟨m, hcut⟩ := ih
      exact ⟨_, hcut.cut hmoved rfl⟩
  | ignore hmoved ih =>
      obtain ⟨m, hcut⟩ := ih
      exact ⟨_, hcut.cut hmoved rfl⟩

/-- **A scanner cuts the text without losing or doubling a character**, whatever the moves
are. -/
theorem parts_of_moved (h : Moved text moves s) : Parts text moves s := by
  obtain ⟨m, hcut⟩ := h.exists_cutAt
  have hm : m ≤ text.toList.length := Nat.le_trans hcut.le_consumed h.cursor.place.1
  refine ⟨?_, ?_, hcut.pending h⟩
  · rw [hcut.mark_eq, Place.offset_after hm]
    exact hcut.cuts_eq
  · rw [hcut.mark_eq, Place.byte_after hm, ← hcut.cuts_eq, String.ofList_toList]

/-- A lexeme, a blank, and a character that is passed, taken back and still to come. -/
theorem parts_of_cuts :
    ∃ s, Moved "é b" [.cursor .backup, .cursor (.advance (some 'b')), .ignore " ",
        .cursor (.advance (some ' ')), .commit "é", .cursor (.advance (some 'é'))] s ∧
      Parts "é b" [.cursor .backup, .cursor (.advance (some 'b')), .ignore " ",
        .cursor (.advance (some ' ')), .commit "é", .cursor (.advance (some 'é'))] s :=
  have hmoved : Moved "é b" [.cursor .backup, .cursor (.advance (some 'b')), .ignore " ",
      .cursor (.advance (some ' ')), .commit "é", .cursor (.advance (some 'é'))]
      (ofText "é b").advance.ignore.advance.ignore.advance.backup :=
    .backup (.advance (.ignore (.advance (.commit (.advance .start))))) (by decide +kernel)
  ⟨_, hmoved, parts_of_moved hmoved⟩

end Scanner

end Formula
