import SymbolIndex.Json.Basic
import SymbolIndex.Text.Quoted

/-!
# Json.Printer — compact JSON text

Values are printed without blanks. Inside strings, the double quote and the backslash get a
backslash, the five controls with a short escape use it, other controls are written by number, and
every other character stands for itself.
-/

namespace SymbolIndex.Json

open SymbolIndex.Text (hexDigit)

/-- One character of a string literal. -/
def escapeChar (c : Char) : List Char :=
  if c = '"' then ['\\', '"']
  else if c = '\\' then ['\\', '\\']
  else if c = '\x08' then ['\\', 'b']
  else if c = '\x0c' then ['\\', 'f']
  else if c = '\n' then ['\\', 'n']
  else if c = '\r' then ['\\', 'r']
  else if c = '\t' then ['\\', 't']
  else if c.toNat < 0x20 then
    ['\\', 'u', '0', '0', hexDigit (c.toNat / 16), hexDigit (c.toNat % 16)]
  else [c]

/-- A string literal. -/
def stringChars (s : String) : List Char :=
  '"' :: s.toList.flatMap escapeChar ++ ['"']

/-- A string literal; a string that denotes no text is printed as an unpaired surrogate. -/
def textChars : Option String → List Char
  | some s => stringChars s
  | none => ['"', '\\', 'u', 'd', '8', '0', '0', '"']

/-- A number literal. -/
def Number.chars (n : Number) : List Char :=
  (if n.negative then ['-'] else []) ++ n.digits ++
    (match n.fraction with
      | none => []
      | some digits => '.' :: digits) ++
    (match n.exponent with
      | none => []
      | some (negative, digits) => 'e' :: (if negative then '-' :: digits else digits))

mutual

/-- The compact text of a value. -/
def chars : Json → List Char
  | .null => ['n', 'u', 'l', 'l']
  | .bool true => ['t', 'r', 'u', 'e']
  | .bool false => ['f', 'a', 'l', 's', 'e']
  | .number n => n.chars
  | .string s => textChars s
  | .array items => '[' :: itemsChars items
  | .object fields => '\x7b' :: fieldsChars fields

/-- Items up to and with the closing bracket. -/
def itemsChars : List Json → List Char
  | [] => [']']
  | [item] => chars item ++ [']']
  | item :: rest => chars item ++ ',' :: itemsChars rest

/-- Fields up to and with the closing brace. -/
def fieldsChars : List (Option String × Json) → List Char
  | [] => ['\x7d']
  | [(key, value)] => textChars key ++ ':' :: (chars value ++ ['\x7d'])
  | (key, value) :: rest => textChars key ++ ':' :: (chars value ++ ',' :: fieldsChars rest)

end

/-- The compact text of a value. -/
def print (j : Json) : String := String.ofList j.chars

end SymbolIndex.Json
