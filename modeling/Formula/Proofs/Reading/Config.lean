/-
Reading word by word, without arrays.

A configuration is what has been read of a formula: the parts that are open around the place
of reading, the operand that has just been read, if there is one, and the calls around, each
with what is open around it and with its complete arguments.  `Config.feed` takes one word
and `Config.finish` takes the end of the formula; both say what is wrong if the word or the
end cannot come there.

An operator takes its left operand by closing the open operators that bind at least as
tightly, `reduce`.  A bracket closes all operators up to the last open bracket, `enclose`.

What a word can do is listed once, as the relation `Fed`, and why it is refused as the relation
`Refuses`; what is said about all configurations goes through their cases.

Nothing is lost on the way: the words of a configuration are the words that it has been fed
(`feed_words`), and the words of the formula at the end are all of them (`finish_words`).
-/
import Formula.Failure
import Formula.Proofs.Grammar.Expr

namespace Formula

/-- A part of a formula that is not complete yet. -/
inductive OpenPart where
  /-- A pair of brackets. -/
  | bracket
  /-- An operator with its left operand. -/
  | operator (op : Operator) (left : Expr)

/-- A call whose arguments are being read. -/
structure OpenCall where
  /-- The name of the function. -/
  name : String
  /-- What is open around the call, the innermost part first. -/
  parts : List OpenPart
  /-- The arguments that are complete, the last one first. -/
  done : List Expr

/-- What has been read of a formula. -/
structure Config where
  /-- What is open in the tree at hand, the innermost part first. -/
  parts : List OpenPart
  /-- The operand that has just been read; without one a value has to come next. -/
  operand : Option Expr
  /-- The calls around the tree at hand, the innermost one first. -/
  outer : List OpenCall

/-! ### Closing what is open -/

/-- Closes operators around an operand for as long as they bind at least as tightly as
`bound`. -/
def reduce (bound : Nat) : List OpenPart → Expr → List OpenPart × Expr
  | .operator op left :: parts, e =>
    if bound ≤ op.level then reduce bound parts (.binary op left e)
    else (.operator op left :: parts, e)
  | parts, e => (parts, e)

/-- Closes operators around an operand up to the innermost open bracket: the expression
inside, and what is open around the bracket, if there is one. -/
def enclose : List OpenPart → Expr → Expr × Option (List OpenPart)
  | [], e => (e, none)
  | .bracket :: parts, e => (e, some parts)
  | .operator op left :: parts, e => enclose parts (.binary op left e)

/-- The number of brackets that are open. -/
def openBrackets : List OpenPart → Nat
  | [] => 0
  | .bracket :: parts => openBrackets parts + 1
  | .operator _ _ :: parts => openBrackets parts

/-- There is a bracket to close exactly if one is open. -/
theorem enclose_brackets (parts : List OpenPart) (e : Expr) :
    (∃ inner, enclose parts e = (inner, none) ∧ openBrackets parts = 0) ∨
    ∃ inner rest, enclose parts e = (inner, some rest) ∧
      openBrackets parts = openBrackets rest + 1 := by
  induction parts generalizing e with
  | nil => exact .inl ⟨e, rfl, rfl⟩
  | cons part parts ih =>
      cases part with
      | bracket => exact .inr ⟨e, parts, rfl, rfl⟩
      | operator op left => exact ih (.binary op left e)

namespace OpenCall

/-- The call with one more complete argument. -/
def push (call : OpenCall) (argument : Expr) : OpenCall :=
  { call with done := argument :: call.done }

/-- What has been read once the call is complete. -/
def close (call : OpenCall) (outer : List OpenCall) : Config :=
  ⟨call.parts, some (.call call.name call.done.reverse), outer⟩

end OpenCall

namespace Config

/-- Nothing has been read. -/
def start : Config := ⟨[], none, []⟩

/-- The operator that waits for its right operand. -/
def waiting (c : Config) : Option Operator :=
  match c.parts with
  | .operator op _ :: _ => some op
  | _ => none

/-- What is wrong with a word that is no value where a value has to come. -/
def missing (c : Config) (otherwise : Cause) : Cause :=
  match c.waiting with
  | some op => .missingRight op.symbol
  | none => otherwise

/-! ### Words and the end -/

/-- Takes a closing bracket where a value has to come, which only ends a call that has had no
argument. -/
def closeEmpty (c : Config) : Except (Cause × Config) Config :=
  match c.parts, c.outer with
  | [], call :: outer =>
    if call.done.isEmpty then .ok (call.close outer)
    else .error (.malformed .noValueBeforeEnd, call.close outer)
  | [], [] => .error (.unclosedGroup, c)
  | _, _ => .error (c.missing (.malformed .emptyBrackets), c)

/-- Takes a word where a value has to come. -/
def feedValue (c : Config) : Word → Except (Cause × Config) Config
  | .number value => .ok { c with operand := some (.number value) }
  | .text content => .ok { c with operand := some (.text content) }
  | .name name => .ok { c with operand := some (.name name) }
  | .function name => .ok ⟨[], none, ⟨name, c.parts, []⟩ :: c.outer⟩
  | .opening => .ok { c with parts := .bracket :: c.parts }
  | .closing => c.closeEmpty
  | .operator op => .error (c.missing (.missingLeft op.symbol), c)
  | .comma => .error (c.missing (.malformed .noValueBeforeComma), c)

/-- Takes a closing bracket after the operand `e`. -/
def closeAfter (c : Config) (e : Expr) : Except (Cause × Config) Config :=
  match enclose c.parts e, c.outer with
  | (inner, some parts), outer => .ok ⟨parts, some (.paren inner), outer⟩
  | (argument, none), call :: outer => .ok ((call.push argument).close outer)
  | (_, none), [] => .error (.unclosedGroup, c)

/-- Takes a comma after the operand `e`, which ends an argument. -/
def separateAfter (c : Config) (e : Expr) : Except (Cause × Config) Config :=
  match enclose c.parts e, c.outer with
  | _, [] => .error (.malformed .commaOutsideCall, c)
  | (_, some _), _ => .error (.malformed .commaInsideBrackets, c)
  | (argument, none), call :: outer => .ok ⟨[], none, call.push argument :: outer⟩

/-- Takes an operator after the operand `e`. -/
def infixAfter (c : Config) (e : Expr) (op : Operator) : Config :=
  let (parts, left) := reduce op.level c.parts e
  ⟨.operator op left :: parts, none, c.outer⟩

/-- Takes a word after the operand `e`. -/
def feedAfter (c : Config) (e : Expr) : Word → Except (Cause × Config) Config
  | .operator op => .ok (c.infixAfter e op)
  | .closing => c.closeAfter e
  | .comma => c.separateAfter e
  | _ => .error (.malformed .noOperator, c)

/-- Takes a word. -/
def feed (c : Config) (w : Word) : Except (Cause × Config) Config :=
  match c.operand with
  | none => c.feedValue w
  | some e => c.feedAfter e w

/-- Takes the end of the formula.  A call that is still open keeps the argument that has been
read. -/
def finish (c : Config) : Except (Cause × Config) (Option Expr) :=
  match c.operand with
  | none =>
    match c.parts, c.outer with
    | [], [] => .ok none
    | [], call :: outer => .error (.unclosedGroup, call.close outer)
    | _, _ => .error (c.missing .unclosedGroup, c)
  | some e =>
    match enclose c.parts e, c.outer with
    | (f, none), [] => .ok (some f)
    | (argument, none), call :: outer => .error (.unclosedGroup, (call.push argument).close outer)
    | (_, some _), _ => .error (.unclosedGroup, c)

/-! ### What a word and the end can do -/

/-- What taking a word does to a configuration. -/
inductive Fed : Config → Word → Config → Prop
  | number {parts : List OpenPart} {outer : List OpenCall} (value : Binary64) :
      Fed ⟨parts, none, outer⟩ (.number value) ⟨parts, some (.number value), outer⟩
  | text {parts : List OpenPart} {outer : List OpenCall} (content : String) :
      Fed ⟨parts, none, outer⟩ (.text content) ⟨parts, some (.text content), outer⟩
  | name {parts : List OpenPart} {outer : List OpenCall} (name : String) :
      Fed ⟨parts, none, outer⟩ (.name name) ⟨parts, some (.name name), outer⟩
  /-- A call begins. -/
  | function {parts : List OpenPart} {outer : List OpenCall} (name : String) :
      Fed ⟨parts, none, outer⟩ (.function name) ⟨[], none, ⟨name, parts, []⟩ :: outer⟩
  /-- A pair of brackets begins. -/
  | opening {parts : List OpenPart} {outer : List OpenCall} :
      Fed ⟨parts, none, outer⟩ .opening ⟨.bracket :: parts, none, outer⟩
  /-- A call ends that has no arguments. -/
  | closeEmpty {call : OpenCall} {outer : List OpenCall} (hdone : call.done = []) :
      Fed ⟨[], none, call :: outer⟩ .closing (call.close outer)
  /-- An operator takes its left operand. -/
  | operator {parts : List OpenPart} {outer : List OpenCall} (e : Expr) (op : Operator) :
      Fed ⟨parts, some e, outer⟩ (.operator op)
        ⟨.operator op (reduce op.level parts e).2 :: (reduce op.level parts e).1, none, outer⟩
  /-- A pair of brackets ends. -/
  | closeGroup {parts rest : List OpenPart} {outer : List OpenCall} {e inner : Expr}
      (henclose : enclose parts e = (inner, some rest)) :
      Fed ⟨parts, some e, outer⟩ .closing ⟨rest, some (.paren inner), outer⟩
  /-- A call ends after an argument. -/
  | closeCall {parts : List OpenPart} {call : OpenCall} {outer : List OpenCall}
      {e argument : Expr} (henclose : enclose parts e = (argument, none)) :
      Fed ⟨parts, some e, call :: outer⟩ .closing ((call.push argument).close outer)
  /-- An argument ends, and the next one begins. -/
  | separate {parts : List OpenPart} {call : OpenCall} {outer : List OpenCall}
      {e argument : Expr} (henclose : enclose parts e = (argument, none)) :
      Fed ⟨parts, some e, call :: outer⟩ .comma ⟨[], none, call.push argument :: outer⟩

/-- **Taking a word does nothing else.** -/
theorem fed_of_feed {c d : Config} {w : Word} (h : c.feed w = .ok d) : Fed c w d := by
  obtain ⟨parts, operand, outer⟩ := c
  cases operand with
  | none =>
      cases w with
      | number value =>
          obtain rfl := Except.ok.inj h
          exact .number value
      | text content =>
          obtain rfl := Except.ok.inj h
          exact .text content
      | name name =>
          obtain rfl := Except.ok.inj h
          exact .name name
      | function name =>
          obtain rfl := Except.ok.inj h
          exact .function name
      | opening =>
          obtain rfl := Except.ok.inj h
          exact .opening
      | closing =>
          simp only [feed, feedValue, Config.closeEmpty] at h
          split at h
          · split at h
            · next hdone =>
                obtain rfl := Except.ok.inj h
                exact .closeEmpty (List.isEmpty_iff.mp hdone)
            · cases h
          · cases h
          · cases h
      | operator | comma => cases h
  | some e =>
      cases w with
      | operator op =>
          obtain rfl := Except.ok.inj h
          exact .operator e op
      | closing =>
          simp only [feed, feedAfter, closeAfter] at h
          split at h
          · next henclose =>
              obtain rfl := Except.ok.inj h
              exact .closeGroup henclose
          · next henclose =>
              obtain rfl := Except.ok.inj h
              exact .closeCall henclose
          · cases h
      | comma =>
          simp only [feed, feedAfter, separateAfter] at h
          split at h
          · cases h
          · cases h
          · next henclose =>
              obtain rfl := Except.ok.inj h
              exact .separate henclose
      | number | text | name | function | opening => cases h

/-- Why a word is refused, and what has been read there. -/
inductive Refuses (c : Config) : Word → Cause → Config → Prop
  /-- An operator where a value has to come. -/
  | operator (op : Operator) :
      Refuses c (.operator op) (c.missing (.missingLeft op.symbol)) c
  /-- A comma where a value has to come. -/
  | comma : Refuses c .comma (c.missing (.malformed .noValueBeforeComma)) c
  /-- A closing bracket where a value has to come. -/
  | emptyBrackets : Refuses c .closing (c.missing (.malformed .emptyBrackets)) c
  /-- The end of a call right after a comma. -/
  | emptyArgument {call : OpenCall} {outer : List OpenCall} (hc : c = ⟨[], none, call :: outer⟩) :
      Refuses c .closing (.malformed .noValueBeforeEnd) (call.close outer)
  /-- A closing bracket without its partner. -/
  | unopened : Refuses c .closing .unclosedGroup c
  /-- A value right after a value. -/
  | noOperator (w : Word) : Refuses c w (.malformed .noOperator) c
  /-- A comma that ends no argument. -/
  | outsideCall : Refuses c .comma (.malformed .commaOutsideCall) c
  | insideBrackets : Refuses c .comma (.malformed .commaInsideBrackets) c

/-- **No word is refused for another reason.** -/
theorem refuses_of_feed {c d : Config} {w : Word} {cause : Cause}
    (h : c.feed w = .error (cause, d)) : c.Refuses w cause d := by
  obtain ⟨parts, operand, outer⟩ := c
  cases operand with
  | none =>
      cases w with
      | number | text | name | function | opening => cases h
      | operator op =>
          obtain ⟨rfl, rfl⟩ := Prod.mk.inj (Except.error.inj h)
          exact .operator op
      | comma =>
          obtain ⟨rfl, rfl⟩ := Prod.mk.inj (Except.error.inj h)
          exact .comma
      | closing =>
          simp only [feed, feedValue, Config.closeEmpty] at h
          split at h
          · split at h
            · cases h
            · obtain ⟨rfl, rfl⟩ := Prod.mk.inj (Except.error.inj h)
              exact .emptyArgument rfl
          · obtain ⟨rfl, rfl⟩ := Prod.mk.inj (Except.error.inj h)
            exact .unopened
          · obtain ⟨rfl, rfl⟩ := Prod.mk.inj (Except.error.inj h)
            exact .emptyBrackets
  | some e =>
      cases w with
      | operator op => cases h
      | number | text | name | function | opening =>
          obtain ⟨rfl, rfl⟩ := Prod.mk.inj (Except.error.inj h)
          exact .noOperator _
      | closing =>
          simp only [feed, feedAfter, closeAfter] at h
          split at h
          · cases h
          · cases h
          · obtain ⟨rfl, rfl⟩ := Prod.mk.inj (Except.error.inj h)
            exact .unopened
      | comma =>
          simp only [feed, feedAfter, separateAfter] at h
          split at h
          · obtain ⟨rfl, rfl⟩ := Prod.mk.inj (Except.error.inj h)
            exact .outsideCall
          · obtain ⟨rfl, rfl⟩ := Prod.mk.inj (Except.error.inj h)
            exact .insideBrackets
          · cases h

/-- Why the end of the text is refused, and what has been read there. -/
inductive Unfinished : Config → Cause → Config → Prop
  /-- A value is missing. -/
  | missing (c : Config) : Unfinished c (c.missing .unclosedGroup) c
  /-- A call is open, and an argument may begin. -/
  | openArgument (call : OpenCall) (outer : List OpenCall) :
      Unfinished ⟨[], none, call :: outer⟩ .unclosedGroup (call.close outer)
  /-- A call is open after an argument, which it keeps. -/
  | openCall {parts : List OpenPart} {call : OpenCall} {outer : List OpenCall}
      {e argument : Expr} (henclose : enclose parts e = (argument, none)) :
      Unfinished ⟨parts, some e, call :: outer⟩ .unclosedGroup ((call.push argument).close outer)
  /-- A bracket is open. -/
  | openBracket (c : Config) : Unfinished c .unclosedGroup c

theorem unfinished_of_finish {c d : Config} {cause : Cause}
    (h : c.finish = .error (cause, d)) : Unfinished c cause d := by
  obtain ⟨parts, operand, outer⟩ := c
  cases operand with
  | none =>
      simp only [finish] at h
      split at h
      · cases h
      · obtain ⟨rfl, rfl⟩ := Prod.mk.inj (Except.error.inj h)
        exact .openArgument _ _
      · obtain ⟨rfl, rfl⟩ := Prod.mk.inj (Except.error.inj h)
        exact .missing _
  | some e =>
      simp only [finish] at h
      split at h
      · cases h
      · next henclose =>
          obtain ⟨rfl, rfl⟩ := Prod.mk.inj (Except.error.inj h)
          exact .openCall henclose
      · obtain ⟨rfl, rfl⟩ := Prod.mk.inj (Except.error.inj h)
        exact .openBracket _

/-- A formula ends before anything has been read, or after its last operand. -/
theorem finish_cases {c : Config} {f : Option Expr} (h : c.finish = .ok f) :
    (c = start ∧ f = none) ∨ ∃ parts e inner, c = ⟨parts, some e, []⟩ ∧
      enclose parts e = (inner, none) ∧ f = some inner := by
  obtain ⟨parts, operand, outer⟩ := c
  cases operand with
  | none =>
      simp only [finish] at h
      split at h
      · obtain rfl := Except.ok.inj h
        exact .inl ⟨rfl, rfl⟩
      · cases h
      · cases h
  | some e =>
      simp only [finish] at h
      split at h
      · next inner henclose =>
          obtain rfl := Except.ok.inj h
          exact .inr ⟨parts, e, inner, rfl, henclose, rfl⟩
      · cases h
      · cases h

end Config

/-! ### The words that have been read -/

/-- The words of open parts. -/
def partsWords : List OpenPart → List Word
  | [] => []
  | .bracket :: parts => partsWords parts ++ [.opening]
  | .operator op left :: parts => partsWords parts ++ (left.words ++ [.operator op])

/-- The words of complete arguments, the last one first, each with the comma behind it. -/
def doneWords : List Expr → List Word
  | [] => []
  | e :: es => doneWords es ++ (e.words ++ [.comma])

/-- The words of open calls. -/
def outerWords : List OpenCall → List Word
  | [] => []
  | call :: outer =>
    outerWords outer ++ (partsWords call.parts ++ .function call.name :: doneWords call.done)

/-- The words that have been read. -/
def Config.words (c : Config) : List Word :=
  outerWords c.outer ++ (partsWords c.parts ++ formulaWords c.operand)

theorem reduce_words (bound : Nat) (parts : List OpenPart) (e : Expr) :
    partsWords (reduce bound parts e).1 ++ (reduce bound parts e).2.words =
      partsWords parts ++ e.words := by
  induction parts generalizing e with
  | nil => rfl
  | cons part parts ih =>
      cases part with
      | bracket => rfl
      | operator op left =>
          rw [reduce]
          split
          · rw [ih, Expr.words, partsWords]
            simp
          · rfl

theorem enclose_none {parts : List OpenPart} {e inner : Expr}
    (h : enclose parts e = (inner, none)) : inner.words = partsWords parts ++ e.words := by
  induction parts generalizing e with
  | nil =>
      obtain ⟨rfl, -⟩ := Prod.mk.inj h
      rfl
  | cons part parts ih =>
      cases part with
      | bracket => cases h
      | operator op left =>
          rw [ih h, Expr.words, partsWords]
          simp

theorem enclose_some {parts rest : List OpenPart} {e inner : Expr}
    (h : enclose parts e = (inner, some rest)) :
    partsWords rest ++ .opening :: inner.words = partsWords parts ++ e.words := by
  induction parts generalizing e with
  | nil => cases h
  | cons part parts ih =>
      cases part with
      | bracket =>
          obtain ⟨rfl, hrest⟩ := Prod.mk.inj h
          obtain rfl := Option.some.inj hrest
          rw [partsWords, List.append_assoc]
          rfl
      | operator op left =>
          rw [ih h, Expr.words, partsWords]
          simp

theorem moreWords_concat (es : List Expr) (e : Expr) :
    Expr.moreWords (es ++ [e]) = Expr.moreWords es ++ .comma :: e.words := by
  induction es with
  | nil => simp [Expr.moreWords]
  | cons d es ih =>
      rw [List.cons_append, Expr.moreWords, Expr.moreWords, ih, List.cons_append,
        List.append_assoc]

/-- The words of arguments that have been collected in reverse order. -/
theorem listWords_reverse (done : List Expr) (e : Expr) :
    Expr.listWords (e :: done).reverse = doneWords done ++ e.words := by
  induction done generalizing e with
  | nil => rw [List.reverse_singleton, Expr.listWords, Expr.moreWords, List.append_nil]; rfl
  | cons d done ih =>
      have hfirst := ih d
      rw [List.reverse_cons]
      cases hrev : (d :: done).reverse with
      | nil => simp at hrev
      | cons a as =>
          rw [hrev] at hfirst
          rw [List.cons_append, Expr.listWords, moreWords_concat, ← List.append_assoc,
            ← Expr.listWords, hfirst, doneWords]
          simp

namespace Config

theorem words_close_push (call : OpenCall) (argument : Expr) (outer : List OpenCall) :
    ((call.push argument).close outer).words =
      outerWords (call :: outer) ++ argument.words ++ [.closing] := by
  rw [words, OpenCall.close, OpenCall.push]
  simp only [formulaWords]
  rw [Expr.words, listWords_reverse, outerWords]
  simp

theorem words_close_empty {call : OpenCall} (outer : List OpenCall) (h : call.done.isEmpty) :
    (call.close outer).words = outerWords (call :: outer) ++ [.closing] := by
  have hdone : call.done = [] := List.isEmpty_iff.mp h
  rw [words, OpenCall.close]
  simp only [formulaWords]
  rw [Expr.words, hdone, List.reverse_nil, Expr.listWords, outerWords, hdone, doneWords]
  simp

/-- **Every word that is taken becomes the last word of the configuration.** -/
theorem feed_words {c c' : Config} {w : Word} (h : c.feed w = .ok c') :
    c'.words = c.words ++ [w] := by
  cases fed_of_feed h with
  | number | text | name => simp [words, formulaWords, Expr.words]
  | function => simp [words, formulaWords, outerWords, partsWords, doneWords]
  | opening => simp [words, formulaWords, partsWords]
  | closeEmpty hdone =>
      rw [words_close_empty _ (by rw [hdone]; rfl)]
      simp [words, formulaWords, partsWords]
  | @operator parts outer e op =>
      have hreduce := reduce_words op.level parts e
      simp only [words, formulaWords, partsWords, List.append_nil]
      rw [← hreduce]
      simp
  | closeGroup henclose =>
      simp only [words, formulaWords, Expr.words]
      rw [← enclose_some henclose]
      simp
  | closeCall henclose =>
      rw [words_close_push, enclose_none henclose]
      simp [words, formulaWords]
  | separate henclose =>
      simp only [words, formulaWords, outerWords, OpenCall.push, doneWords, partsWords]
      rw [enclose_none henclose]
      simp

/-- The words of a formula that is complete are the words that have been read. -/
theorem finish_words {c : Config} {f : Option Expr} (h : c.finish = .ok f) :
    formulaWords f = c.words := by
  rcases finish_cases h with ⟨rfl, rfl⟩ | ⟨parts, e, inner, rfl, henclose, rfl⟩
  · rfl
  · rw [formulaWords, enclose_none henclose]
    rfl

end Config

end Formula
