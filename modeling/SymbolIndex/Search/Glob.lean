/-!
# Search.Glob — patterns over identifiers

A pattern is read character by character: `*` stands for any stretch, `?` for any one character,
a bracket class for one character of its ranges. A text is matched up to its first NUL, and so is
a pattern, and both are matched as they are read: two code points that are no characters are read as
the replacement character. `escapeGlob` writes a text as the pattern that matches what is read as that
text. A pattern of more bytes than `patternLimit` is compared with nothing.
-/

namespace SymbolIndex

/-- A text with every wildcard in a class of its own. -/
def escapeGlob (value : List Char) : List Char :=
  value.flatMap (fun c => if c = '*' ∨ c = '?' ∨ c = '[' then ['[', c, ']'] else [c])

/-- What one element of a pattern stands for. -/
inductive GlobItem where
  /-- Any stretch. -/
  | many
  /-- Any one character. -/
  | one
  /-- That character. -/
  | literal (c : Char)
  /-- A character in one of the ranges, or in none of them when inverted. -/
  | oneOf (inverted : Bool) (ranges : List (Char × Char))
  /-- Nothing at all: a class that is not closed. -/
  | nothing
  deriving DecidableEq

namespace GlobItem

/-- The ranges of a bracket class and what follows it. `before` is the character a range may start
at. A class that is not closed has no ranges. -/
def readRanges (before : Option Char) : List Char → Option (List (Char × Char) × List Char)
  | [] => none
  | ']' :: rest => some ([], rest)
  | '-' :: c :: rest =>
    match before with
    | some low =>
      if c = ']' then (readRanges (some '-') (c :: rest)).map (fun r => (('-', '-') :: r.1, r.2))
      else (readRanges none rest).map (fun r => ((low, c) :: r.1, r.2))
    | none => (readRanges (some '-') (c :: rest)).map (fun r => (('-', '-') :: r.1, r.2))
  | c :: rest => (readRanges (some c) rest).map (fun r => ((c, c) :: r.1, r.2))

/-- A bracket class after its bracket and its inversion mark. A bracket that comes first is one of
the characters. -/
def readClass (inverted : Bool) : List Char → Option (GlobItem × List Char)
  | ']' :: rest => (readRanges none rest).map (fun r => (.oneOf inverted ((']', ']') :: r.1), r.2))
  | rest => (readRanges none rest).map (fun r => (.oneOf inverted r.1, r.2))

/-- The elements of a pattern, read with as many steps as it has characters. -/
def readItems : Nat → List Char → List GlobItem
  | 0, _ => []
  | _, [] => []
  | n + 1, '*' :: rest => .many :: readItems n rest
  | n + 1, '?' :: rest => .one :: readItems n rest
  | n + 1, '[' :: '^' :: rest =>
    match readClass true rest with
    | some (item, rest) => item :: readItems n rest
    | none => [.nothing]
  | n + 1, '[' :: rest =>
    match readClass false rest with
    | some (item, rest) => item :: readItems n rest
    | none => [.nothing]
  | n + 1, c :: rest => .literal c :: readItems n rest

/-- Whether one character is what an element stands for. -/
def admits : GlobItem → Char → Bool
  | .many, _ => true
  | .one, _ => true
  | .literal c, d => c == d
  | .oneOf inverted ranges, d => inverted != ranges.any (fun r => r.1 ≤ d && d ≤ r.2)
  | .nothing, _ => false

/-- Whether a text is what a sequence of elements stands for. -/
def matchItems : List GlobItem → List Char → Bool
  | [], text => text.isEmpty
  | .many :: items, [] => matchItems items []
  | .many :: items, c :: text => matchItems items (c :: text) || matchItems (.many :: items) text
  | _ :: _, [] => false
  | item :: items, c :: text => item.admits c && matchItems items text
termination_by items text => (items.length, text.length)

end GlobItem

/-- The characters before the first NUL. -/
def beforeNul (text : List Char) : List Char := text.takeWhile (· ≠ '\x00')

/-- A character as it is read. -/
def readChar (c : Char) : Char := if c = '\ufffe' ∨ c = '\uffff' then '\ufffd' else c

/-- What is read of a pattern or of a text. -/
def readText (text : List Char) : List Char := (beforeNul text).map readChar

/-- The elements of a pattern. -/
def globItems (pattern : List Char) : List GlobItem :=
  GlobItem.readItems (readText pattern).length (readText pattern)

/-- Whether a text matches a pattern. -/
def globMatches (pattern text : List Char) : Bool :=
  GlobItem.matchItems (globItems pattern) (readText text)

/-- The number of bytes of a text. -/
def byteLength : List Char → Nat
  | [] => 0
  | c :: rest => c.utf8Size + byteLength rest

/-- The most bytes that a pattern may have. -/
def patternLimit : Nat := 50000

/-- Whether a text matches a pattern, unless the pattern is too long to be compared. -/
def glob? (pattern text : List Char) : Option Bool :=
  if byteLength pattern ≤ patternLimit then some (globMatches pattern text) else none

/-- What a pattern begins with before its first wildcard. -/
def literalStart (pattern : List Char) : List Char :=
  pattern.takeWhile (fun c => c ≠ '*' ∧ c ≠ '?' ∧ c ≠ '[' ∧ c ≠ '\x00')

end SymbolIndex
