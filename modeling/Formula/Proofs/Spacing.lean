/-
Blanks between words make no difference.

A text is spaced out by putting blanks in front of it, behind it and between its words;
`Spaced` follows the words of the text as `lex` takes them, so the name of a call and its
bracket are one word and stay together, and the inside of quoted text is not touched.  A blank
ends every word in front of it, so the words are the same as before, `words?_spaced`, and a
formula is read from its words alone.
-/
import Formula.Proofs.Grammar.Cuts
import Formula.Proofs.Language

namespace Formula

/-- The second text is the first one with some blanks put in between its words, in front of
them or behind them. -/
inductive Spaced : List Char → List Char → Prop
  | nil : Spaced [] []
  /-- A blank that is put in. -/
  | insert {c : Char} {text other : List Char} (hblank : Text.isBlank c = true)
      (h : Spaced text other) : Spaced text (c :: other)
  /-- A blank that was there before. -/
  | blank {c : Char} {text other : List Char} (hblank : Text.isBlank c = true)
      (h : Spaced text other) : Spaced (c :: text) (c :: other)
  /-- A word, which stays as it is. -/
  | word (w : Word) (lexeme : List Char) {rest other : List Char}
      (hlex : lex (lexeme ++ rest) = .word w lexeme rest) (h : Spaced rest other) :
      Spaced (lexeme ++ rest) (lexeme ++ other)

namespace Spaced

variable {text other : List Char}

/-- To the word in front, a spaced text looks like the text. -/
theorem cutLike (h : Spaced text other) : CutLike text other := by
  cases h with
  | nil => exact .inl rfl
  | insert hblank =>
      refine .inr fun d hd => ?_
      obtain rfl := Option.mem_some_iff.mp hd
      simp [endsWord, hblank]
  | blank => exact .inl rfl
  | word w lexeme hlex =>
      obtain ⟨-, hne, -⟩ := lex_word hlex
      obtain ⟨c, lexeme, rfl⟩ := List.exists_cons_of_ne_nil hne
      exact .inl rfl

end Spaced

/-- **Spacing a text out does not change its words.** -/
theorem words?_spaced {text other : List Char} (h : Spaced text other) :
    words? other = words? text := by
  induction h with
  | nil => rfl
  | insert hblank _ ih => rw [words?_blank hblank, ih]
  | blank hblank _ ih => rw [words?_blank hblank, words?_blank hblank, ih]
  | word w lexeme hlex h ih =>
      have hother := lex_word_append hlex h.cutLike
      rw [← dropWhile_word hlex] at hlex
      rw [← dropWhile_word hother] at hother
      rw [words?_word hlex, words?_word hother, ih]

/-- A formula is read from its words alone. -/
theorem parse_eq_of_words? {limits : Limits} {source other : String}
    (hok : (parse limits source).isOk = true)
    (hwords : words? other.toList = words? source.toList) :
    parse limits other = parse limits source := by
  obtain ⟨f, haccepted, -⟩ := isOk_iff_accepted.mp hok
  have hother : (Stage.start other.toList).read limits = .accepted f := by
    rw [Stage.read_eq_accepted_iff, hwords]
    exact Stage.read_eq_accepted_iff.mp haccepted
  rw [parse_of_accepted haccepted, parse_of_accepted hother]

/-- **Blanks between words make no difference**: a formula that is spaced out is read without
a failure too, and its tree is the same, node by node and with the trees of all arguments. -/
theorem parse_spaced {limits : Limits} {source other : String}
    (hok : (parse limits source).isOk = true) (h : Spaced source.toList other.toList) :
    parse limits other = parse limits source :=
  parse_eq_of_words? hok (words?_spaced h)

/-- The name of a call keeps its bracket, and blanks of any kind may stand everywhere else. -/
theorem parse_spaced_call : (parse ⟨9, 9, 9⟩ "f(a)*b").isOk = true ∧
    Spaced "f(a)*b".toList " f( a\t)*\n\u00a0b ".toList ∧
    parse ⟨9, 9, 9⟩ " f( a\t)*\n\u00a0b " = parse ⟨9, 9, 9⟩ "f(a)*b" :=
  have hok : (parse ⟨9, 9, 9⟩ "f(a)*b").isOk = true := by decide +kernel
  have hspaced : Spaced "f(a)*b".toList " f( a\t)*\n\u00a0b ".toList :=
    .insert rfl <| .word (.function "f") ['f', '('] rfl <|
    .insert rfl <| .word (.name "a") ['a'] rfl <|
    .insert rfl <| .word .closing [')'] rfl <| .word (.operator .mul) ['*'] rfl <|
    .insert rfl <| .insert rfl <| .word (.name "b") ['b'] rfl <| .insert rfl .nil
  ⟨hok, hspaced, parse_spaced hok hspaced⟩

end Formula
