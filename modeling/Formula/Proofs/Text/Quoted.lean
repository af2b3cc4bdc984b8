/-
Characters are known from how they are shown between quotes.

`unescape` reads back what is written of one character.  Where the code point is written, its
hexadecimal digits are read as a number again.
-/
import Formula.Text.Quoted
import Mathlib.Tactic.SplitIfs

namespace Formula.Text

/-! ### Hexadecimal digits -/

/-- The value of a hexadecimal digit. -/
def hexDigitValue (c : Char) : Nat := if c.isDigit then c.toNat - 48 else c.toNat - 87

/-- The number that hexadecimal digits spell. -/
def hexValue (digits : List Char) : Nat :=
  digits.foldl (fun n c => 16 * n + hexDigitValue c) 0

theorem hexDigitValue_digitChar : ∀ n < 16, hexDigitValue (Nat.digitChar n) = n := by decide

/-- The digits of a number spell it. -/
theorem hexValue_toDigits (n : Nat) : hexValue (Nat.toDigits 16 n) = n := by
  induction n using Nat.strongRecOn with
  | ind n ih =>
      rw [Nat.toDigits_eq_if (by decide)]
      by_cases hsmall : n < 16
      · rw [if_pos hsmall]
        have hvalue := hexDigitValue_digitChar n hsmall
        rw [hexValue, List.foldl_cons, List.foldl_nil, hvalue]
        omega
      · have hhigh := ih (n / 16) (by omega)
        have hlow := hexDigitValue_digitChar (n % 16) (Nat.mod_lt _ (by decide))
        rw [hexValue] at hhigh
        rw [if_neg hsmall, hexValue, List.foldl_append, hhigh, List.foldl_cons, List.foldl_nil,
          hlow]
        omega

/-! ### Reading a character back -/

/-- The character that is shown by some text. -/
def unescape : List Char → Char
  | [c] => c
  | ['\\', c] =>
    if c = '0' then '\x00' else if c = 't' then '\t' else if c = 'r' then '\r'
    else if c = 'n' then '\n' else c
  | text => Char.ofNat (hexValue (text.drop 3).dropLast)

theorem unescape_codePointEscape (c : Char) : unescape (codePointEscape c) = c := by
  have hdrop : ((codePointEscape c).drop 3).dropLast = Nat.toDigits 16 c.toNat := by
    simp [codePointEscape]
  have hshape : unescape (codePointEscape c) =
      Char.ofNat (hexValue ((codePointEscape c).drop 3).dropLast) := rfl
  rw [hshape, hdrop, hexValue_toDigits, Char.ofNat_toNat]

/-- **What is shown between quotes can be read back.** -/
theorem unescape_escape (c : Char) : unescape (escape singleQuote c) = c := by
  unfold escape
  split_ifs with hzero htab hreturn hline hmark hhidden
  · rw [hzero]; rfl
  · rw [htab]; rfl
  · rw [hreturn]; rfl
  · rw [hline]; rfl
  · have hcases : c = '\\' ∨ c = singleQuote := by simpa using hmark
    rcases hcases with rfl | rfl <;> rfl
  · exact unescape_codePointEscape c
  · rfl

theorem quotedChar_injective {c d : Char} (h : quotedChar c = quotedChar d) : c = d := by
  have hchars : escape singleQuote c = escape singleQuote d := by
    have hquoted := String.ofList_inj.mp h
    simpa [quoted] using hquoted
  rw [← unescape_escape c, hchars, unescape_escape]

end Formula.Text
