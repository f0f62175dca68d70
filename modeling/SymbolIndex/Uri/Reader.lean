import SymbolIndex.Path
import SymbolIndex.Uri.Host

/-!
# Uri.Reader — the path a URI points at

A text is read as a URI by the rules of the web: blanks and controls at its ends and tabs and line
breaks inside it count for nothing, the scheme is case-insensitive, backslashes are slashes, `.`
and `..` are resolved also when they are percent-encoded, and a query or a fragment is no part of the
path. A file URI on this machine points at the path whose components are the decoded segments; any
other text is taken to be a path itself.

Two rules keep drive letters (a letter and `:` or `|`) apart: `..` does not leave such a segment,
and a path that ends in a letter and such a mark gets a slash. By a third rule of the standard a first
segment of a letter and `|` is written with `:`; not every reader keeps that one (`Bar`).
-/

namespace SymbolIndex.Uri

open SymbolIndex.Text (Bytes encode)

/-- Drop controls and spaces at both ends. -/
def trimControls (cs : List Char) : List Char :=
  let blank := fun (c : Char) => c.toNat ≤ 0x20
  ((cs.dropWhile blank).reverse.dropWhile blank).reverse

/-- Drop tabs and line breaks everywhere. -/
def dropBreaks (cs : List Char) : List Char :=
  cs.filter (fun c => c ≠ '\t' ∧ c ≠ '\n' ∧ c ≠ '\r')

/-- Whether a character may stand in a scheme after its first letter. -/
def isSchemeChar (c : Char) : Bool :=
  c.isAlphanum || c == '+' || c == '-' || c == '.'

/-- The lower-cased scheme and what follows its colon. -/
def scheme? (cs : List Char) : Option (List Char × List Char) :=
  match cs with
  | [] => none
  | c :: _ =>
    if c.isAlpha then
      match cs.dropWhile isSchemeChar with
      | ':' :: rest => some ((cs.takeWhile isSchemeChar).map Char.toLower, rest)
      | _ => none
    else none

/-- A slash of either kind. -/
def isSlash (c : Char) : Bool := c == '/' || c == '\\'

/-- Whether a character ends the path. -/
def endsPath (c : Char) : Bool := c == '?' || c == '#'

/-- A letter followed by a colon or a vertical bar. -/
def isDriveLetter : List Char → Bool
  | [a, b] => a.isAlpha && (b == ':' || b == '|')
  | _ => false

/-- What a reader makes of the vertical bar in a drive letter that begins a path. -/
inductive Bar where
  /-- It is kept as it is written. -/
  | kept
  /-- It is a colon, as the standard has it. -/
  | colon
  deriving DecidableEq

/-- A segment that comes after the segments in `done`. -/
def settle (bar : Bar) (done : List (List Char)) (segment : List Char) : List Char :=
  if bar = .colon ∧ done = [] ∧ isDriveLetter segment then segment.take 1 ++ [':'] else segment

/-- The segments of the path text after its leading slash, if it has one. -/
def segments : List Char → List (List Char)
  | [] => [[]]
  | c :: rest =>
    if isSlash c then [] :: segments rest
    else match segments rest with
      | [] => [[c]]
      | segment :: more => (c :: segment) :: more

/-- The spellings of `.` as a segment. -/
def isDot (segment : List Char) : Bool :=
  let s := segment.map Char.toLower
  s == ['.'] || s == ['%', '2', 'e']

/-- The spellings of `..` as a segment. -/
def isDotDot (segment : List Char) : Bool :=
  let s := segment.map Char.toLower
  s == ['.', '.'] || s == ['.', '%', '2', 'e'] || s == ['%', '2', 'e', '.'] ||
    s == ['%', '2', 'e', '%', '2', 'e']

/-- Go up one segment, but not out of a drive. -/
def goUp (done : List (List Char)) : List (List Char) :=
  match done.getLast? with
  | none => []
  | some last => if isDriveLetter last then done else done.dropLast

/-- Resolve `.` and `..` in the segments that follow `done`. -/
def resolveDots (bar : Bar) (done : List (List Char)) : List (List Char) → List (List Char)
  | [] => done
  | [segment] =>
    if isDotDot segment then goUp done ++ [[]]
    else if isDot segment then done ++ [[]]
    else done ++ [settle bar done segment]
  | segment :: rest =>
    if isDotDot segment then resolveDots bar (goUp done) rest
    else if isDot segment then resolveDots bar done rest
    else resolveDots bar (done ++ [settle bar done segment]) rest

/-- The segments of a file URI's path: dots resolved, no empty segments in front. -/
def pathSegments (bar : Bar) (text : List Char) : List (List Char) :=
  let path := text.takeWhile (fun c => !endsPath c)
  let relative := match path with
    | c :: rest => if isSlash c then rest else path
    | [] => []
  match (resolveDots bar [] (segments relative)).dropWhile List.isEmpty with
  | [] => [[]]
  | found => found

/-- Whether a byte is an ASCII letter. -/
def isLetterByte (b : UInt8) : Bool :=
  let n := b.toNat
  (65 ≤ n && n ≤ 90) || (97 ≤ n && n ≤ 122)

/-- A path that ends in a drive letter names the drive's root. -/
def closeDrive (bytes : Bytes) : Bytes :=
  match bytes.reverse with
  | b :: a :: _ :: _ =>
    if isLetterByte a && (b == 58 || b == 124) then bytes ++ [slash] else bytes
  | _ => bytes

/-- The path of decoded segments. -/
def pathOfSegments (found : List (List Char)) : Path :=
  ⟨closeDrive (found.flatMap (fun s => slash :: decodeBytes (encode (String.ofList s))))⟩

/-- The path text of what follows `file:`, when its host is this machine. -/
def localPath? (rest : List Char) : Option (List Char) :=
  match rest with
  | a :: b :: tail =>
    if isSlash a && isSlash b then
      let stops := fun (c : Char) => isSlash c || endsPath c
      let host := tail.takeWhile (fun c => !stops c)
      if isDriveLetter host then some tail
      else if isLocalHost host then some (tail.dropWhile (fun c => !stops c))
      else none
    else some rest
  | _ => some rest

/-- The path a file URI on this machine points at. -/
def filePath? (bar : Bar) (uri : String) : Option Path :=
  match scheme? (dropBreaks (trimControls uri.toList)) with
  | some (['f', 'i', 'l', 'e'], rest) =>
    (localPath? rest).map (fun text => pathOfSegments (pathSegments bar text))
  | _ => none

/-- The path a reader takes a URI to point at; a text that is no local file URI is taken as the path. -/
def readPath (bar : Bar) (uri : String) : Path :=
  (filePath? bar uri).getD (Path.ofString uri)

/-- The path a URI points at. The reader that is used keeps bars: `file:///C|/a` points at `/C|/a`. -/
def toPath (uri : String) : Path := readPath .kept uri

end SymbolIndex.Uri
