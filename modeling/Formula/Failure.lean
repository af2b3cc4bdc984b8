/-
Failures: what went wrong, where, and near which text.
-/
import Formula.Json
import Formula.Text.Quoted

namespace Formula

/-- What is wrong with a sequence of lexemes, other than a missing operand, a bracket, a
quote or a number. -/
inductive Problem where
  /-- A pair of brackets with nothing inside. -/
  | emptyBrackets
  /-- A comma where a value should be. -/
  | noValueBeforeComma
  /-- The end of a call right after a comma. -/
  | noValueBeforeEnd
  /-- A value right after a value. -/
  | noOperator
  /-- A character that starts no lexeme. -/
  | unexpectedCharacter (c : Char)
  /-- A comma that belongs to no call. -/
  | commaOutsideCall
  /-- A comma inside a pair of brackets. -/
  | commaInsideBrackets
  /-- A tree with more than `limit` levels. -/
  | tooDeep (limit : Nat)
  /-- More than `limit` calls inside each other. -/
  | tooManyCalls (limit : Nat)
  /-- Anything else, in the caller's own words. -/
  | other (message : String)
  deriving DecidableEq

/-- The text that says what is wrong. -/
def Problem.message : Problem → String
  | emptyBrackets => "empty brackets"
  | noValueBeforeComma => "expecting a value before ','"
  | noValueBeforeEnd => "expecting a value before ')'"
  | noOperator => "expecting an operator"
  | unexpectedCharacter c => "unexpected character " ++ Text.quotedChar c
  | commaOutsideCall => "unexpected ',' outside a call"
  | commaInsideBrackets => "unexpected ',' inside brackets"
  | tooDeep limit => "expression nested deeper than " ++ toString limit
  | tooManyCalls limit => "function calls nested deeper than " ++ toString limit
  | other message => message

/-- What went wrong. -/
inductive Cause where
  /-- An operator without a value before it. -/
  | missingLeft (operator : Char)
  /-- An operator without a value after it. -/
  | missingRight (operator : Char)
  /-- A bracket without its partner. -/
  | unclosedGroup
  /-- Quoted text without its second quote. -/
  | unterminatedText
  /-- A literal that is no finite number. -/
  | invalidNumber (text : String)
  /-- Any other lexemes that make no formula. -/
  | malformed (problem : Problem)
  deriving DecidableEq

/-- The text that says what went wrong. -/
def Cause.message : Cause → String
  | missingLeft operator =>
    "expecting a value before operator '" ++ String.ofList [operator] ++ "'"
  | missingRight operator =>
    "expecting a value after operator '" ++ String.ofList [operator] ++ "'"
  | unclosedGroup => "brackets not closed"
  | unterminatedText => "missing quote at end of text"
  | invalidNumber text => "invalid number '" ++ text ++ "'"
  | malformed problem => problem.message

/-- The cause as JSON. -/
def Cause.json (cause : Cause) : Json :=
  match cause with
  | missingLeft _ | missingRight _ =>
    .object [("kind", .string "missing_operand"), ("detail", .string cause.message)]
  | unclosedGroup => .object [("kind", .string "unclosed_group")]
  | unterminatedText => .object [("kind", .string "unterminated_string")]
  | invalidNumber text => .object [("kind", .string "invalid_number"), ("text", .string text)]
  | malformed problem =>
    .object [("kind", .string "syntax_error"), ("message", .string problem.message)]

/-- A failure to read a formula. -/
structure Failure where
  /-- What went wrong. -/
  cause : Cause
  /-- The line where it went wrong, counted from one. -/
  line : Nat
  /-- The text from the place where it went wrong. -/
  context : String
  deriving DecidableEq

namespace Failure

/-- The failure on one line of text. -/
def message (failure : Failure) : String :=
  "Line: " ++ toString failure.line ++ ", near " ++ Text.quotedText failure.context ++
    ", Error: " ++ failure.cause.message

/-- The failure as JSON. -/
def json (failure : Failure) : Json :=
  .object [("kind", failure.cause.json), ("line", .count failure.line),
    ("context", .string failure.context)]

end Failure

end Formula
