import SymbolIndex.Path

/-!
# Candidate.Pattern — patterns over paths

A pattern says which paths below a root are meant. It is read character by character:

* `?` is any one byte but a slash, `*` any stretch without a slash;
* a bracket class is one byte of its characters and ranges, or of none of them after `!` or `^`;
* braces hold alternatives, parted by commas; an alternative that is empty counts for nothing;
* a backslash makes the next character stand for itself;
* two stars between slashes, or at an end and a slash, reach over any number of directories;
  elsewhere they are no more than one.

A path is matched as a whole, byte by byte. `rest` lists what a pattern may leave of a path, each
remainder once, so that the work grows with the pattern and not with the ways to match it.
-/

namespace SymbolIndex

open SymbolIndex.Text (Bytes encode)

/-- What a pattern, or a part of one, stands for. -/
inductive PathGlob where
  /-- Nothing. -/
  | empty
  /-- These bytes. -/
  | literal (bytes : Bytes)
  /-- A byte in one of the ranges, or in none of them when inverted. -/
  | oneOf (inverted : Bool) (ranges : List (UInt8 × UInt8))
  /-- A stretch without a slash. -/
  | segment
  /-- Nothing, or a stretch that ends in a slash. -/
  | start
  /-- A slash, or a stretch from a slash to a slash. -/
  | middle
  /-- A slash and all that follows. -/
  | finish
  | seq (first second : PathGlob)
  | either (first second : PathGlob)
  deriving DecidableEq

namespace PathGlob

/-! ## Matching -/

/-- Every suffix. -/
def suffixes : Bytes → List Bytes
  | [] => [[]]
  | b :: rest => (b :: rest) :: suffixes rest

/-- Every suffix that no slash stands before. -/
def segmentSuffixes : Bytes → List Bytes
  | [] => [[]]
  | b :: rest => (b :: rest) :: (if b = slash then [] else segmentSuffixes rest)

/-- Every suffix right after a slash. -/
def slashSuffixes : Bytes → List Bytes
  | [] => []
  | b :: rest => if b = slash then rest :: slashSuffixes rest else slashSuffixes rest

/-- Whether a byte is in one of the ranges. -/
def inRanges (ranges : List (UInt8 × UInt8)) (b : UInt8) : Bool :=
  ranges.any (fun r => r.1 ≤ b && b ≤ r.2)

/-- What a pattern may leave of a path. -/
def rest : PathGlob → Bytes → List Bytes
  | .empty, path => [path]
  | .literal bytes, path => if bytes.isPrefixOf path then [path.drop bytes.length] else []
  | .oneOf _ _, [] => []
  | .oneOf inverted ranges, b :: path => if inRanges ranges b != inverted then [path] else []
  | .segment, path => segmentSuffixes path
  | .start, path => path :: slashSuffixes path
  | .middle, [] | .finish, [] => []
  | .middle, b :: path => if b = slash then path :: slashSuffixes path else []
  | .finish, b :: path => if b = slash then suffixes path else []
  | .seq first second, path => ((first.rest path).flatMap second.rest).eraseDups
  | .either first second, path => (first.rest path ++ second.rest path).eraseDups

/-- Whether a pattern matches a whole path. -/
def accepts (pattern : PathGlob) (path : String) : Bool := (pattern.rest (encode path)).contains []

/-! ## Reading -/

/-- A pattern and another one after it. -/
def followedBy : PathGlob → PathGlob → PathGlob
  | .empty, second => second
  | first, .empty => first
  | first, second => .seq first second

/-- The patterns of a list one after the other, the last one first. -/
def ofReversed (items : List PathGlob) : PathGlob :=
  items.foldr (fun item before => before.followedBy item) .empty

/-- One of some alternatives. -/
def oneOfAll : List PathGlob → PathGlob
  | [] => .empty
  | [branch] => branch
  | branch :: more => .either branch (oneOfAll more)

/-- The bytes of a range of characters, byte by byte: only the last byte of the first character and
the first byte of the last one span a range. -/
def byteRanges (range : Char × Char) : List (UInt8 × UInt8) :=
  let low := encode (String.singleton range.1)
  let high := encode (String.singleton range.2)
  let single := fun (bytes : Bytes) => bytes.map (fun b => (b, b))
  if range.1 = range.2 then single low
  else
    match low.getLast?, high with
    | some a, b :: more => single low.dropLast ++ (a, b) :: single more
    | _, _ => []

/-- The ranges of a bracket class and what follows it. A closing bracket or a hyphen that comes first
stands for itself, as does a hyphen that comes last. A range goes on from where the last one began,
and not backwards. -/
def readRanges (isFirst inRange : Bool) (ranges : List (Char × Char)) :
    List Char → Option (List (Char × Char) × List Char)
  | [] => none
  | c :: rest =>
    if c = ']' ∧ !isFirst then some (if inRange then ('-', '-') :: ranges else ranges, rest)
    else if c = '-' ∧ !isFirst ∧ !inRange then readRanges false true ranges rest
    else if inRange then
      match ranges with
      | (low, _) :: more =>
        if c < low then none else readRanges false false ((low, c) :: more) rest
      | [] => none
    else readRanges false false ((c, c) :: ranges) rest

/-- A bracket class after its bracket, and what follows it. -/
def readClass (inverted : Bool) (cs : List Char) : Option (PathGlob × List Char) :=
  (readRanges true false [] cs).map
    (fun found => (.oneOf inverted (found.1.flatMap byteRanges), found.2))

/-- Braces that are open: what stands before them and their alternatives so far, both with the last
one first. -/
structure Braces where
  before : List PathGlob
  branches : List PathGlob

/-- What was read of a pattern: the items since the last brace or comma, the last one first, and
the open braces, the innermost one first. -/
structure Reading where
  items : List PathGlob
  braces : List Braces

namespace Reading

/-- One more item. -/
def push (r : Reading) (item : PathGlob) : Reading := { r with items := item :: r.items }

/-- Open braces. -/
def openBraces (r : Reading) : Reading := ⟨[], ⟨r.items, []⟩ :: r.braces⟩

/-- End an alternative. Outside of braces a comma stands for itself. -/
def comma (r : Reading) : Reading :=
  match r.braces with
  | [] => r.push (.literal (encode ","))
  | b :: more => ⟨[], { b with branches := ofReversed r.items :: b.branches } :: more⟩

/-- Close braces. -/
def closeBraces? (r : Reading) : Option Reading :=
  match r.braces with
  | [] => none
  | b :: more =>
    let branches := (ofReversed r.items :: b.branches).reverse.filter (· ≠ .empty)
    some ⟨oneOfAll branches :: b.before, more⟩

/-- Two stars that mean one. -/
def plainStars (r : Reading) : Reading := (r.push .segment).push .segment

/-- Two stars after a slash take the slash along, unless they go on from two stars at the start. -/
def absorbSlash (r : Reading) (item : PathGlob) : Reading :=
  match r.items with
  | .start :: _ => r
  | _ :: more => { r with items := item :: more }
  | [] => r

/-- Two stars after the character `before`, and what is left of the text that follows them. -/
def doubleStar (r : Reading) (before : Option Char) (text : List Char) : Reading × List Char :=
  if r.items.isEmpty then
    match text with
    | [] => (r.push .start, [])
    | '/' :: text => (r.push .start, text)
    | _ => (r.plainStars, text)
  else if before ≠ some '/' ∧
      (r.braces.isEmpty ∨ (before ≠ some ',' ∧ before ≠ some '\x7b')) then (r.plainStars, text)
  else
    match text with
    | [] => (r.absorbSlash .finish, [])
    | '/' :: text => (r.absorbSlash .middle, text)
    | c :: _ =>
      if (c = ',' ∨ c = '\x7d') ∧ !r.braces.isEmpty then (r.absorbSlash .finish, text)
      else (r.plainStars, text)

/-- The pattern that was read, if every brace was closed. -/
def result? (r : Reading) : Option PathGlob :=
  if r.braces.isEmpty then some (ofReversed r.items) else none

end Reading

/-- Any one byte but a slash. -/
def anyOne : PathGlob := .oneOf true [(slash, slash)]

/-- Read a pattern with as many steps as it has characters; `before` is the character that stands
before the text. -/
def read : Nat → Reading → Option Char → List Char → Option PathGlob
  | _, r, _, [] => r.result?
  | 0, _, _, _ => none
  | n + 1, r, _, '?' :: text => read n (r.push anyOne) (some '?') text
  | n + 1, r, before, '*' :: '*' :: text =>
    let after := r.doubleStar before text
    read n after.1 (some (if after.2.length < text.length then '/' else '*')) after.2
  | n + 1, r, _, '*' :: text => read n (r.push .segment) (some '*') text
  | n + 1, r, _, '[' :: text =>
    let found := match text with
      | '!' :: text | '^' :: text => readClass true text
      | text => readClass false text
    match found with
    | some (item, text) => read n (r.push item) (some ']') text
    | none => none
  | n + 1, r, _, '\x7b' :: text => read n r.openBraces (some '\x7b') text
  | n + 1, r, _, '\x7d' :: text =>
    match r.closeBraces? with
    | some r => read n r (some '\x7d') text
    | none => none
  | n + 1, r, _, ',' :: text => read n r.comma (some ',') text
  | n + 1, r, _, '\\' :: text =>
    match text with
    | c :: text => read n (r.push (.literal (encode (String.singleton c)))) (some c) text
    | [] => none
  | n + 1, r, _, c :: text =>
    read n (r.push (.literal (encode (String.singleton c)))) (some c) text

/-- The pattern that a text writes. It starts at the root, whether or not the text says so. -/
def ofText? (text : String) : Option PathGlob :=
  let cs := if text.toList.head? = some '/' then text.toList else '/' :: text.toList
  read cs.length ⟨[], []⟩ none cs

end PathGlob

end SymbolIndex
