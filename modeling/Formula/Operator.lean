/-
The four infix operators and how tightly they bind.

Multiplication and division bind tighter than addition and subtraction.  Operators of one
level group to the left.
-/

namespace Formula

/-- The levels of binding strength. -/
inductive Precedence where
  /-- Addition and subtraction. -/
  | term
  /-- Multiplication and division. -/
  | factor
  deriving DecidableEq

/-- The level as a number; the greater one binds tighter. -/
def Precedence.level : Precedence → Nat
  | .term => 1
  | .factor => 2

/-- An infix operator. -/
inductive Operator where
  | add
  | sub
  | mul
  | div
  deriving DecidableEq

namespace Operator

/-- The operator that a character stands for. -/
def ofSymbol? : Char → Option Operator
  | '+' => some .add
  | '-' => some .sub
  | '*' => some .mul
  | '/' => some .div
  | _ => none

/-- The character that stands for the operator. -/
def symbol : Operator → Char
  | .add => '+'
  | .sub => '-'
  | .mul => '*'
  | .div => '/'

/-- The operator as it is written in a formula. -/
def text (op : Operator) : String := String.ofList [op.symbol]

/-- How tightly the operator binds. -/
def precedence : Operator → Precedence
  | .add | .sub => .term
  | .mul | .div => .factor

/-- How an incoming operator binds, compared with the one that came before it: `gt` if it
binds tighter. -/
def comparePrecedence (current incoming : Operator) : Ordering :=
  compare incoming.precedence.level current.precedence.level

theorem ofSymbol?_symbol (op : Operator) : ofSymbol? op.symbol = some op := by
  cases op <;> rfl

end Operator

end Formula
