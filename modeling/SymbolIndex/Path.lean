import SymbolIndex.Text.Utf8

/-!
# Path — paths and names

A path is a sequence of bytes; a slash parts its components. Nothing here looks at a disk.
-/

namespace SymbolIndex

open SymbolIndex.Text (Bytes encode decodeLossy)

/-- A path as it is handed to the system. -/
structure Path where
  bytes : Bytes
  deriving DecidableEq

/-- The name of a directory entry. -/
abbrev Name := Bytes

/-- The byte that parts components. -/
def slash : UInt8 := 47

/-- The byte `.`. -/
def dot : UInt8 := 46

namespace Path

/-- The path a text spells. -/
def ofString (s : String) : Path := ⟨encode s⟩

/-- The path as text, U+FFFD where it is none. -/
def display (p : Path) : String := decodeLossy p.bytes

/-- Whether the path starts at the root. -/
def isAbsolute (p : Path) : Bool := p.bytes.head? == some slash

/-- The stretches between slashes. -/
def pieces : Bytes → List Name
  | [] => [[]]
  | b :: rest =>
    if b = slash then [] :: pieces rest
    else match pieces rest with
      | [] => [[b]]
      | piece :: more => (b :: piece) :: more

/-- The components of an absolute path: repeated slashes, slashes at the end and `.` count for
nothing, `..` is kept. -/
def components (p : Path) : List Name :=
  (pieces p.bytes).filter (fun name => name ≠ [] ∧ name ≠ [dot])

/-- `p` followed by a name or a relative path; an absolute path stands alone. -/
def join (p : Path) (name : Bytes) : Path :=
  if name.head? = some slash then ⟨name⟩
  else if p.bytes = [] ∨ p.bytes.getLast? = some slash then ⟨p.bytes ++ name⟩
  else ⟨p.bytes ++ slash :: name⟩

/-- `p` followed by a relative path given as text. -/
def child (p : Path) (name : String) : Path := p.join (encode name)

/-- What stands before the last slash. -/
def parent (p : Path) : Path := ⟨((p.bytes.reverse.dropWhile (· ≠ slash)).drop 1).reverse⟩

end Path

/-- The part of a name after its last dot, if anything stands before that dot. -/
def Name.extension? (name : Name) : Option Name :=
  match name.reverse.dropWhile (· ≠ dot) with
  | [] | [_] => none
  | _ :: _ :: _ =>
    if name = [dot, dot] then none
    else some (name.reverse.takeWhile (· ≠ dot)).reverse

end SymbolIndex
