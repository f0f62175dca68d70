import SymbolIndex.Integer
import SymbolIndex.Json.Parser
import SymbolIndex.Toml.Basic

/-!
# Toml.Parser — reading TOML text

`parse? s` is the table that the whole of `s` writes. A document is read line by line, each line a
header, a key with its value, or nothing; only strings of three quotes and arrays go on over the
end of a line.
-/

namespace SymbolIndex.Toml

open SymbolIndex.Json (hexValue? digitsValue)

/-- Blank space within a line. -/
def isSpace (c : Char) : Bool := c == ' ' || c == '\t'

/-- Drop blank space within a line. -/
def skipSpace (cs : List Char) : List Char := cs.dropWhile isSpace

/-- A line break at the head, and what follows it. -/
def lineBreak? : List Char → Option (List Char)
  | '\n' :: rest => some rest
  | '\r' :: '\n' :: rest => some rest
  | _ => none

/-- Whether a character may stand in a comment, and in a string of one line. -/
def isText (c : Char) : Bool := c == '\t' || (' ' ≤ c && c != '\x7f')

/-- Drop a comment. -/
def skipComment : List Char → List Char
  | '#' :: rest => rest.dropWhile isText
  | cs => cs

/-- Drop blank space, comments and line breaks, in as many steps as there are characters. -/
def skipLines : (fuel : Nat) → List Char → List Char
  | 0, cs => cs
  | fuel + 1, cs =>
    let cs := skipComment (skipSpace cs)
    match lineBreak? cs with
    | some rest => skipLines fuel rest
    | none => cs

/-! ## Strings -/

/-- The character of some hexadecimal digits, if they write one. -/
def codePoint? (digits : List Char) : Option Char := do
  let n ← digits.foldlM (fun n d => (hexValue? d).map (n * 16 + ·)) 0
  if n < 0xD800 ∨ (0xE000 ≤ n ∧ n < 0x110000) then some (Char.ofNat n) else none

/-- An escape after its backslash: the character it stands for and what follows it. -/
def escape? : List Char → Option (Char × List Char)
  | 'b' :: rest => some ('\x08', rest)
  | 't' :: rest => some ('\t', rest)
  | 'n' :: rest => some ('\n', rest)
  | 'f' :: rest => some ('\x0c', rest)
  | 'r' :: rest => some ('\r', rest)
  | '"' :: rest => some ('"', rest)
  | '\\' :: rest => some ('\\', rest)
  | 'u' :: rest =>
    if rest.length < 4 then none else (codePoint? (rest.take 4)).map (·, rest.drop 4)
  | 'U' :: rest =>
    if rest.length < 8 then none else (codePoint? (rest.take 8)).map (·, rest.drop 8)
  | _ => none

/-- Put a character before what was read. -/
def before (c : Char) (read : Option (List Char × List Char)) : Option (List Char × List Char) :=
  read.map (fun r => (c :: r.1, r.2))

/-- A string after its quote, with escapes, in as many steps as there are characters. -/
def basicString : (fuel : Nat) → List Char → Option (List Char × List Char)
  | 0, _ => none
  | _, [] => none
  | _, '"' :: rest => some ([], rest)
  | fuel + 1, '\\' :: rest =>
    match escape? rest with
    | some (c, rest) => before c (basicString fuel rest)
    | none => none
  | fuel + 1, c :: rest => if isText c then before c (basicString fuel rest) else none

/-- A string after its quote, as it is written. -/
def literalString : List Char → Option (List Char × List Char)
  | [] => none
  | '\'' :: rest => some ([], rest)
  | c :: rest => if isText c then before c (literalString rest) else none

/-- The quotes at the end of a string of three quotes: up to two of them belong to the string. -/
def closing (quote : Char) (cs : List Char) : Option (List Char × List Char) :=
  let n := (cs.takeWhile (· == quote)).length
  if n < 3 then none
  else
    let inside := min (n - 3) 2
    some (List.replicate inside quote, cs.drop (inside + 3))

/-- Blank space and line breaks after a backslash that ends a line, with at least one break. -/
def continued? (cs : List Char) : Option (List Char) :=
  match lineBreak? (skipSpace cs) with
  | some rest => some (rest.dropWhile (fun c => isSpace c || c == '\n' || c == '\r'))
  | none => none

/-- A string of three quotes after them, with escapes. -/
def longBasicString : (fuel : Nat) → List Char → Option (List Char × List Char)
  | 0, _ => none
  | _, [] => none
  | fuel + 1, '"' :: rest =>
    match closing '"' ('"' :: rest) with
    | some read => some read
    | none => before '"' (longBasicString fuel rest)
  | fuel + 1, '\\' :: rest =>
    match continued? rest with
    | some rest => longBasicString fuel rest
    | none =>
      match escape? rest with
      | some (c, rest) => before c (longBasicString fuel rest)
      | none => none
  | fuel + 1, '\r' :: '\n' :: rest => before '\n' (longBasicString fuel rest)
  | fuel + 1, c :: rest =>
    if isText c || c == '\n' then before c (longBasicString fuel rest) else none

/-- A string of three quotes after them, as it is written. -/
def longLiteralString : (fuel : Nat) → List Char → Option (List Char × List Char)
  | 0, _ => none
  | _, [] => none
  | fuel + 1, '\'' :: rest =>
    match closing '\'' ('\'' :: rest) with
    | some read => some read
    | none => before '\'' (longLiteralString fuel rest)
  | fuel + 1, '\r' :: '\n' :: rest => before '\n' (longLiteralString fuel rest)
  | fuel + 1, c :: rest =>
    if isText c || c == '\n' then before c (longLiteralString fuel rest) else none

/-- A line break right after three quotes does not count. -/
def dropFirstBreak (cs : List Char) : List Char := (lineBreak? cs).getD cs

/-- A string of one line. -/
def shortString? : List Char → Option (String × List Char)
  | '"' :: rest => (basicString (rest.length + 1) rest).map (fun r => (String.ofList r.1, r.2))
  | '\'' :: rest => (literalString rest).map (fun r => (String.ofList r.1, r.2))
  | _ => none

/-- A string of any kind. -/
def string? : List Char → Option (String × List Char)
  | '"' :: '"' :: '"' :: rest =>
    (longBasicString (rest.length + 1) (dropFirstBreak rest)).map
      (fun r => (String.ofList r.1, r.2))
  | '\'' :: '\'' :: '\'' :: rest =>
    (longLiteralString (rest.length + 1) (dropFirstBreak rest)).map
      (fun r => (String.ofList r.1, r.2))
  | cs => shortString? cs

/-! ## Keys and numbers -/

/-- Whether a character may stand in a key without quotes. -/
def isBare (c : Char) : Bool := c.isAlphanum || c == '-' || c == '_'

/-- A key without dots. -/
def simpleKey? (cs : List Char) : Option (String × List Char) :=
  match shortString? cs with
  | some read => some read
  | none =>
    match cs.takeWhile isBare with
    | [] => none
    | name => some (String.ofList name, cs.dropWhile isBare)

/-- A key: names with dots between them, in as many steps as there are characters. -/
def key? : (fuel : Nat) → List Char → Option (List String × List Char)
  | 0, _ => none
  | fuel + 1, cs =>
    match simpleKey? (skipSpace cs) with
    | none => none
    | some (name, rest) =>
      match skipSpace rest with
      | '.' :: rest => (key? fuel rest).map (fun r => (name :: r.1, r.2))
      | rest => some ([name], rest)

/-- Digits with single underscores between them, and what follows. -/
def digits? (isDigit : Char → Bool) : List Char → Option (List Char × List Char)
  | [] => none
  | c :: rest =>
    if !isDigit c then none
    else
      match rest with
      | '_' :: more => (digits? isDigit more).map (fun r => (c :: r.1, r.2))
      | d :: more =>
        if isDigit d then (digits? isDigit (d :: more)).map (fun r => (c :: r.1, r.2))
        else some ([c], d :: more)
      | [] => some ([c], [])

/-- The number that digits of a base write. -/
def valueOf (base : Nat) (digits : List Char) : Nat :=
  digits.foldl (fun n d => n * base + (hexValue? d).getD 0) 0

/-- A number in the range of 64-bit integers. -/
def inRange (i : Int) (rest : List Char) : Option (Toml × List Char) :=
  (int64OfInt? i).map (fun _ => (.integer i, rest))

/-- Decimal digits with a sign; a zero stands alone. -/
def decimal? (negative : Bool) (cs : List Char) : Option (Toml × List Char) :=
  match cs with
  | '0' :: rest => some (.integer 0, rest)
  | _ =>
    match digits? Char.isDigit cs with
    | none => none
    | some (digits, rest) =>
      let value : Int := valueOf 10 digits
      inRange (if negative then -value else value) rest

/-- Digits of a base, which have no sign. -/
def based? (base : Nat) (cs : List Char) : Option (Toml × List Char) :=
  match digits? (fun c => (hexValue? c).any (· < base)) cs with
  | none => none
  | some (digits, rest) => inRange (valueOf base digits) rest

/-- An integer. -/
def integer? : List Char → Option (Toml × List Char)
  | '0' :: 'x' :: rest => based? 16 rest
  | '0' :: 'o' :: rest => based? 8 rest
  | '0' :: 'b' :: rest => based? 2 rest
  | '-' :: rest => decimal? true rest
  | '+' :: rest => decimal? false rest
  | cs => decimal? false cs

/-! ## Values and documents -/

mutual

/-- A value. -/
def value? : (fuel : Nat) → List Char → Option (Toml × List Char)
  | 0, _ => none
  | fuel + 1, cs =>
    match cs with
    | '"' :: _ | '\'' :: _ => (string? cs).map (fun r => (.string r.1, r.2))
    | 't' :: 'r' :: 'u' :: 'e' :: rest => some (.boolean true, rest)
    | 'f' :: 'a' :: 'l' :: 's' :: 'e' :: rest => some (.boolean false, rest)
    | '[' :: rest => (items? fuel rest).map (fun r => (.array r.1, r.2))
    | '\x7b' :: rest =>
      match skipSpace rest with
      | '\x7d' :: rest => some (.inlineTable [], rest)
      | rest => (fields? fuel [] rest).map (fun r => (.inlineTable r.1, r.2))
    | _ => integer? cs

/-- The items of an array up to its closing bracket; a comma may follow the last. -/
def items? : (fuel : Nat) → List Char → Option (List Toml × List Char)
  | 0, _ => none
  | fuel + 1, cs =>
    match skipLines cs.length cs with
    | ']' :: rest => some ([], rest)
    | cs =>
      match value? fuel cs with
      | none => none
      | some (item, rest) =>
        match skipLines rest.length rest with
        | ']' :: rest => some ([item], rest)
        | ',' :: rest => (items? fuel rest).map (fun r => (item :: r.1, r.2))
        | _ => none

/-- The fields of an inline table up to its closing brace. A dotted key makes a table in it. -/
def fields? : (fuel : Nat) → Entries → List Char → Option (Entries × List Char)
  | 0, _, _ => none
  | fuel + 1, entries, cs =>
    match key? fuel cs with
    | none => none
    | some (path, rest) =>
      match rest with
      | '=' :: rest =>
        match value? fuel (skipSpace rest) with
        | none => none
        | some (value, rest) =>
          match entries.assign none value path with
          | none => none
          | some entries =>
            match skipSpace rest with
            | '\x7d' :: rest => some (entries, rest)
            | ',' :: rest => fields? fuel entries rest
            | _ => none
      | _ => none

end

/-- The end of a line: blank space, a comment and a line break or the end of the text. -/
def lineEnd? (cs : List Char) : Option (List Char) :=
  match skipComment (skipSpace cs) with
  | [] => some []
  | cs => lineBreak? cs

/-- The lines of a document from a line on. `header` is the path of the last header. -/
def lines? : (fuel : Nat) → (header : List String) → Entries → List Char → Option Entries
  | 0, _, _, _ => none
  | fuel + 1, header, entries, cs =>
    match skipLines cs.length cs with
    | [] => some entries
    | '[' :: rest =>
      match key? rest.length rest with
      | some (path, ']' :: rest) =>
        match entries.openTable path, lineEnd? rest with
        | some entries, some rest => lines? fuel path entries rest
        | _, _ => none
      | _ => none
    | cs =>
      match key? cs.length cs with
      | some (path, '=' :: rest) =>
        match value? (rest.length + 1) (skipSpace rest) with
        | none => none
        | some (value, rest) =>
          match entries.assignUnder path value header, lineEnd? rest with
          | some entries, some rest => lines? fuel header entries rest
          | _, _ => none
      | _ => none

/-- The table that a text writes. A byte order mark at its head does not count. -/
def parse? (s : String) : Option Entries :=
  let cs := match s.toList with
    | '\uFEFF' :: rest => rest
    | cs => cs
  lines? (cs.length + 1) [] [] cs

end SymbolIndex.Toml
