/-
JSON values and their compact text.

Objects keep their fields in the order given.  The text has no blanks between lexemes; in a
string only the quote, the backslash and the characters below the space are escaped.  JSON
has no text for an infinity or for a pattern that stands for no number, so these are written
as `null`.
-/
import Formula.Number.Style

namespace Formula

/-- A JSON value. -/
inductive Json where
  | null
  | count (n : Nat)
  | number (x : Binary64)
  | string (text : String)
  | array (items : List Json)
  | object (fields : List (String × Json))

namespace Json

/-- Numbers in JSON keep a fraction, a tie goes to the even digit, and the sizes from
0.00001 up to, but not including, ten to the power sixteen are written without an exponent. -/
def numberStyle : NumberStyle :=
  ⟨.even, fun point => -4 ≤ point && point ≤ 16, true⟩

/-- The text of a floating-point number. -/
def numberText (x : Binary64) : String :=
  if x.isFinite then String.ofList (numberStyle.write x) else "null"

/-- How a character is written in a JSON string. -/
def escape (c : Char) : List Char :=
  if c = '\x22' then ['\\', '\x22']
  else if c = '\\' then ['\\', '\\']
  else if c = '\x08' then ['\\', 'b']
  else if c = '\x0c' then ['\\', 'f']
  else if c = '\n' then ['\\', 'n']
  else if c = '\r' then ['\\', 'r']
  else if c = '\t' then ['\\', 't']
  else if c.toNat < 16 then ['\\', 'u', '0', '0', '0'] ++ Nat.toDigits 16 c.toNat
  else if c.toNat < 32 then ['\\', 'u', '0', '0'] ++ Nat.toDigits 16 c.toNat
  else [c]

/-- A JSON string with its quotes. -/
def quote (text : String) : String :=
  String.ofList ('\x22' :: (text.toList.flatMap escape ++ ['\x22']))

mutual

/-- Appends the compact text of a value to `out`. -/
def write (out : String) : Json → String
  | null => out ++ "null"
  | count n => out ++ String.ofList (Nat.toDigits 10 n)
  | number x => out ++ numberText x
  | string text => out ++ quote text
  | array [] => out ++ "[]"
  | array (item :: items) => writeItems (write (out ++ "[") item) items ++ "]"
  | object [] => out ++ "\x7b\x7d"
  | object ((name, value) :: fields) =>
    writeFields (write (out ++ "\x7b" ++ quote name ++ ":") value) fields ++ "\x7d"

/-- Appends the items of an array that come after its first one. -/
def writeItems (out : String) : List Json → String
  | [] => out
  | item :: items => writeItems (write (out ++ ",") item) items

/-- Appends the fields of an object that come after its first one. -/
def writeFields (out : String) : List (String × Json) → String
  | [] => out
  | (name, value) :: fields =>
    writeFields (write (out ++ "," ++ quote name ++ ":") value) fields

end

/-- The compact text of a value. -/
def text (value : Json) : String := write "" value

end Json

end Formula
