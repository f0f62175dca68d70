import SymbolIndex.Json.Basic

/-!
# Json.Parser — reading JSON text

`parse? s` is the value written by the whole of `s`, blanks around tokens apart. Nesting is not
bounded here: who decodes a value asks for its `depth`.
-/

namespace SymbolIndex.Json

/-- The blanks of JSON. -/
def isSpace (c : Char) : Bool :=
  c == ' ' || c == '\t' || c == '\n' || c == '\r'

/-- Drop blanks. -/
def skipSpace (cs : List Char) : List Char := cs.dropWhile isSpace

/-- The value of a hexadecimal digit. -/
def hexValue? (c : Char) : Option Nat :=
  let n := c.toNat
  if 48 ≤ n ∧ n ≤ 57 then some (n - 48)
  else if 97 ≤ n ∧ n ≤ 102 then some (n - 87)
  else if 65 ≤ n ∧ n ≤ 70 then some (n - 55)
  else none

/-- The value of four hexadecimal digits. -/
def codeUnit? (a b c d : Char) : Option Nat := do
  return (((← hexValue? a) * 16 + (← hexValue? b)) * 16 + (← hexValue? c)) * 16 + (← hexValue? d)

/-- The control or punctuation character a short escape stands for. -/
def shortEscape? (c : Char) : Option Char :=
  if c = '"' then some '"'
  else if c = '\\' then some '\\'
  else if c = '/' then some '/'
  else if c = 'b' then some '\x08'
  else if c = 'f' then some '\x0c'
  else if c = 'n' then some '\n'
  else if c = 'r' then some '\r'
  else if c = 't' then some '\t'
  else none

/-- What one character or escape of a string literal stands for: a character, or a UTF-16 code
unit given by number. -/
inductive Piece where
  | character (c : Char)
  | unit (n : Nat)
  deriving DecidableEq

/-- The pieces of a string literal after its opening quote, and what follows the closing one. -/
def stringPieces : List Char → Option (List Piece × List Char)
  | [] => none
  | '"' :: rest => some ([], rest)
  | '\\' :: 'u' :: a :: b :: c :: d :: rest =>
    match codeUnit? a b c d with
    | none => none
    | some n => (stringPieces rest).map (fun read => (.unit n :: read.1, read.2))
  | '\\' :: c :: rest =>
    match shortEscape? c with
    | none => none
    | some e => (stringPieces rest).map (fun read => (.character e :: read.1, read.2))
  | c :: rest =>
    if c = '\\' || c.toNat < 0x20 then none
    else (stringPieces rest).map (fun read => (.character c :: read.1, read.2))

/-- The character of a surrogate pair. -/
def pairChar (high low : Nat) : Char :=
  Char.ofNat (0x10000 + (high - 0xD800) * 0x400 + (low - 0xDC00))

/-- The text of a sequence of pieces; none when a surrogate has no partner right beside it. -/
def joinPieces : List Piece → Option (List Char)
  | [] => some []
  | .character c :: rest => (joinPieces rest).map (c :: ·)
  | .unit n :: rest =>
    if n < 0xD800 || 0xE000 ≤ n then (joinPieces rest).map (Char.ofNat n :: ·)
    else if 0xDC00 ≤ n then none
    else match rest with
      | .unit low :: rest' =>
        if 0xDC00 ≤ low && low < 0xE000 then (joinPieces rest').map (pairChar n low :: ·)
        else none
      | _ => none

/-- The text of a string literal after its opening quote. -/
def stringLiteral (cs : List Char) : Option (Option String × List Char) :=
  (stringPieces cs).map (fun read => ((joinPieces read.1).map String.ofList, read.2))

/-- The digits at the head. -/
def takeDigits (cs : List Char) : List Char × List Char :=
  (cs.takeWhile Char.isDigit, cs.dropWhile Char.isDigit)

/-- An optional fraction: a point and at least one digit. -/
def fractionPart : List Char → Option (Option (List Char) × List Char)
  | '.' :: rest =>
    match takeDigits rest with
    | ([], _) => none
    | (digits, rest') => some (some digits, rest')
  | cs => some (none, cs)

/-- The sign and the digits of an exponent. -/
def exponentDigits (negative : Bool) (cs : List Char) :
    Option (Option (Bool × List Char) × List Char) :=
  match takeDigits cs with
  | ([], _) => none
  | (digits, rest) => some (some (negative, digits), rest)

/-- An optional exponent. -/
def exponentPart : List Char → Option (Option (Bool × List Char) × List Char)
  | c :: rest =>
    if c = 'e' || c = 'E' then
      match rest with
      | '+' :: rest' => exponentDigits false rest'
      | '-' :: rest' => exponentDigits true rest'
      | _ => exponentDigits false rest
    else some (none, c :: rest)
  | [] => some (none, [])

/-- The integer digits of a number: a zero stands alone. -/
def integerPart (cs : List Char) : Option (List Char × List Char) :=
  match takeDigits cs with
  | ([], _) => none
  | ('0' :: _ :: _, _) => none
  | (digits, rest) => some (digits, rest)

/-- A number after its sign. -/
def unsignedNumber (negative : Bool) (cs : List Char) : Option (Number × List Char) := do
  let (digits, rest) ← integerPart cs
  let (fraction, rest) ← fractionPart rest
  let (exponent, rest) ← exponentPart rest
  return (⟨negative, digits, fraction, exponent⟩, rest)

/-- A number literal. -/
def numberLiteral : List Char → Option (Number × List Char)
  | '-' :: rest => unsignedNumber true rest
  | cs => unsignedNumber false cs

mutual

/-- A value and what follows it. Each call reads at least one character, so `fuel` above the
length of the text is enough. -/
def parseValue : (fuel : Nat) → List Char → Option (Json × List Char)
  | 0, _ => none
  | fuel + 1, cs =>
    match skipSpace cs with
    | 'n' :: 'u' :: 'l' :: 'l' :: rest => some (.null, rest)
    | 't' :: 'r' :: 'u' :: 'e' :: rest => some (.bool true, rest)
    | 'f' :: 'a' :: 'l' :: 's' :: 'e' :: rest => some (.bool false, rest)
    | '"' :: rest => (stringLiteral rest).map (fun read => (.string read.1, read.2))
    | '[' :: rest =>
      match skipSpace rest with
      | ']' :: rest' => some (.array [], rest')
      | rest' => (parseItems fuel rest').map (fun read => (.array read.1, read.2))
    | '\x7b' :: rest =>
      match skipSpace rest with
      | '\x7d' :: rest' => some (.object [], rest')
      | rest' => (parseFields fuel rest').map (fun read => (.object read.1, read.2))
    | rest => (numberLiteral rest).map (fun read => (.number read.1, read.2))

/-- One or more items up to the closing bracket. -/
def parseItems : (fuel : Nat) → List Char → Option (List Json × List Char)
  | 0, _ => none
  | fuel + 1, cs =>
    match parseValue fuel cs with
    | none => none
    | some (item, rest) =>
      match skipSpace rest with
      | ']' :: rest' => some ([item], rest')
      | ',' :: rest' => (parseItems fuel rest').map (fun read => (item :: read.1, read.2))
      | _ => none

/-- One or more fields up to the closing brace. -/
def parseFields : (fuel : Nat) → List Char → Option (List (Option String × Json) × List Char)
  | 0, _ => none
  | fuel + 1, cs =>
    match skipSpace cs with
    | '"' :: rest =>
      match stringLiteral rest with
      | none => none
      | some (key, rest) =>
        match skipSpace rest with
        | ':' :: rest =>
          match parseValue fuel rest with
          | none => none
          | some (value, rest) =>
            match skipSpace rest with
            | '\x7d' :: rest' => some ([(key, value)], rest')
            | ',' :: rest' =>
              (parseFields fuel rest').map (fun read => ((key, value) :: read.1, read.2))
            | _ => none
        | _ => none
    | _ => none

end

/-- The value a text writes. -/
def parseChars? (cs : List Char) : Option Json :=
  match parseValue (cs.length + 1) cs with
  | none => none
  | some (value, rest) => if skipSpace rest = [] then some value else none

/-- The value a text writes. -/
def parse? (s : String) : Option Json := parseChars? s.toList

end SymbolIndex.Json
