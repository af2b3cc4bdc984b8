/-
Names in front of a bracket.

A name with a bracket right after it is one word, which begins a call, and no other lexeme is
that word: `lex_function` and `function_of_lex`.
-/
import Formula.Proofs.Grammar.Cuts

namespace Formula

/-- Whether the text is a name. -/
def IsIdentifier (name : String) : Prop :=
  ∃ first rest, name.toList = first :: rest ∧ startsIdentifier first = true ∧
    ∀ c ∈ rest, continuesIdentifier c = true

theorem startsIdentifier_of_starting {c : Char} (h : Lexeme.starting (some c) = .identifier) :
    startsIdentifier c = true := by
  unfold Lexeme.starting Lexeme.ofOther at h
  grind

/-- A name with a bracket right after it begins a call. -/
theorem lex_function {name : String} (hname : IsIdentifier name) (rest : List Char) :
    lex (name.toList ++ '(' :: rest) = .word (.function name) (name.toList ++ ['(']) rest := by
  obtain ⟨first, more, htext, hfirst, hmore⟩ := hname
  have hbracket : ∀ c ∈ ('(' :: rest).head?, continuesIdentifier c = false := by
    intro c hc
    obtain rfl := Option.mem_some_iff.mp hc
    decide +kernel
  obtain ⟨htake, hdrop⟩ := cut_run hmore hbracket
  have hspelled : String.ofList (first :: more) = name := by
    rw [← htext, String.ofList_toList]
  rw [htext, List.cons_append, lex, starting_of_startsIdentifier hfirst, lexAs, lexName]
  simp only [htake, hdrop, hspelled]

/-- What is taken as a name, with a bracket behind it or without one, is a name. -/
theorem isIdentifier_of_lex {name : String} {text lexeme rest : List Char} {w : Word}
    (h : lex text = .word w lexeme rest) (hw : w = .name name ∨ w = .function name) :
    IsIdentifier name := by
  cases text with
  | nil => cases h
  | cons c text =>
      rw [lex] at h
      cases hc : Lexeme.starting (some c) with
      | identifier =>
          have hspelled :
              IsIdentifier (String.ofList (c :: text.takeWhile continuesIdentifier)) :=
            ⟨c, _, String.toList_ofList, startsIdentifier_of_starting hc,
              List.all_eq_true.mp List.all_takeWhile⟩
          rw [hc, lexAs, lexName] at h
          split at h
          · obtain rfl := (Lexed.word.inj h).1
            rcases hw with hw | hw
            · cases hw
            · rwa [Word.function.inj hw] at hspelled
          · obtain rfl := (Lexed.word.inj h).1
            rcases hw with hw | hw
            · rwa [Word.name.inj hw] at hspelled
            · cases hw
      | number =>
          rw [hc] at h
          obtain ⟨value, -, rfl, -⟩ := lexNumber_word h
          rcases hw with hw | hw <;> cases hw
      | quote =>
          rw [hc, lexAs, lexText] at h
          split at h
          · obtain rfl := (Lexed.word.inj h).1
            rcases hw with hw | hw <;> cases hw
          · cases h
      | operator | openBracket | closeBracket | separator =>
          rw [hc] at h
          obtain rfl := (Lexed.word.inj h).1
          rcases hw with hw | hw <;> cases hw
      | unknown | blank | endOfText =>
          rw [hc] at h
          cases h

/-- Only a name with a bracket right after it begins a call. -/
theorem function_of_lex {name : String} {text lexeme rest : List Char}
    (h : lex text = .word (.function name) lexeme rest) :
    IsIdentifier name ∧ lexeme = name.toList ++ ['('] := by
  cases text with
  | nil => cases h
  | cons c text =>
      rw [lex] at h
      cases hc : Lexeme.starting (some c) with
      | identifier =>
          rw [hc, lexAs, lexName] at h
          split at h
          · simp only [Lexed.word.injEq, Word.function.injEq] at h
            obtain ⟨rfl, rfl, -⟩ := h
            rw [String.toList_ofList]
            exact ⟨⟨c, _, String.toList_ofList, startsIdentifier_of_starting hc,
              List.all_eq_true.mp List.all_takeWhile⟩, rfl⟩
          · cases (Lexed.word.inj h).1
      | number =>
          rw [hc] at h
          obtain ⟨value, -, hw, -⟩ := lexNumber_word h
          cases hw
      | quote =>
          rw [hc, lexAs, lexText] at h
          split at h <;> cases h
      | operator | openBracket | closeBracket | separator | unknown | blank | endOfText =>
          rw [hc] at h
          cases h

end Formula
