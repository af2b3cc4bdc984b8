/-
Tokens and trees as text for a reader.

A token is shown by its kind with its content in brackets, quoted text by its quoted form.
A tree is shown as an outline with one token on each line.  An argument of a call has to fit
on the line of the call, so the lines of its outline are joined with commas, without their
indentation.

A line cannot be indented by as much as one likes.  Where one would have to be, be it only on
the way to the text of an argument, nothing is shown at all.
-/
import Formula.Arena.Walk
import Formula.Number.Style
import Formula.Text.Lines
import Formula.Text.Quoted
import Formula.Token

namespace Formula

namespace Token

/-- Numbers are shown without an exponent and without an empty fraction, and a tie between
two shortest decimals goes to the greater one. -/
def numberStyle : NumberStyle := ⟨.up, fun _ => true, false⟩

/-- The text of a number. -/
def numberText (x : Binary64) : String :=
  if x.isNaN then "NaN"
  else if x.isFinite then String.ofList (numberStyle.write x)
  else if x.isNegative then "-inf"
  else "inf"

/-- The text of a bracket: a pair of brackets in the formula, and nothing for a scope. -/
def bracketText : Bracket → String
  | .paren => "()"
  | .scope => ""

/-- The text of a token other than a call. -/
def leafText : Token → String
  | empty => "Base()"
  | error message => "Error(" ++ message ++ ")"
  | number x => "Number(" ++ numberText x ++ ")"
  | identifier name => "Identity(" ++ name ++ ")"
  | operator op => "Func(" ++ op.text ++ ")"
  | group bracket => "Group(" ++ bracketText bracket ++ ")"
  | text content => Text.quotedText content
  | call name _ => "Func " ++ name

/-- The text of a call whose arguments are given as trees of text. -/
def callText (name : String) (arguments : List (Arena String)) : String :=
  "Func " ++ name ++ "([" ++
    " ".intercalate (arguments.map fun argument => Text.onOneLine argument.rows) ++ "])"

/-- The text of a token. -/
def display (token : Token) : String := token.fold leafText callText

/-- Whether the text of a token can be written.  Every argument of a call is written as an
outline first. -/
def isWritable (token : Token) : Bool :=
  token.fold (fun _ => true) fun _ arguments => arguments.all Arena.rowsFit

/-- What is shown of a token: its text, if it can be written. -/
def display? (token : Token) : Option String :=
  if token.isWritable then some token.display else none

end Token

namespace Tree

/-- The text of a tree: one token on each line, indented by its depth. -/
def display (tree : Tree) : String :=
  (tree.foldTokens Token.leafText Token.callText).outline

/-- Whether the text of a tree can be written. -/
def isWritable (tree : Tree) : Bool :=
  (tree.foldTokens (fun _ => true) fun _ arguments => arguments.all Arena.rowsFit).rowsFit

/-- What is shown of a tree: its text, if it can be written. -/
def display? (tree : Tree) : Option String :=
  if tree.isWritable then some tree.display else none

end Tree

end Formula
