import SymbolIndex.Candidate.Pattern
import SymbolIndex.System.Script

/-!
# Candidate.Selection — the files below a root that are to be indexed

A selection names a directory and says which of the files below it are meant: by patterns over the
path from the root, by extension and by size. The files are listed directory by directory, the
entries of each in the order of their bytes, and a directory where it stands among them.

Links are passed over unless they are to be followed. A link to a directory that it lies in is never
followed.
-/

namespace SymbolIndex

open SymbolIndex.Text (decode? decodeLossy)

/-- Which files below a root are meant. -/
structure Selection where
  root : Path
  included : List PathGlob
  excluded : List PathGlob
  extensions : List String
  followSymlinks : Bool
  maxFileSizeBytes : Nat

namespace Selection

/-- Whether a name has one of the extensions. The case of ASCII letters does not count. -/
def hasExtension (s : Selection) (name : Name) : Bool :=
  match (Name.extension? name).bind decode? with
  | some extension =>
    s.extensions.any (fun e => e.toList.map Char.toLower == extension.toList.map Char.toLower)
  | none => false

/-- The path below the root that patterns are matched with. -/
def anchored (names : List Name) : String :=
  String.join (names.map (fun name => "/" ++ decodeLossy name))

/-- Whether the patterns mean the path of some names below the root. -/
def covers (s : Selection) (names : List Name) : Bool :=
  let path := anchored names
  s.included.any (·.accepts path) && !s.excluded.any (·.accepts path)

/-- What an entry of a directory counts as. -/
inductive Met where
  | nothing
  /-- A file, and its size if it is known. -/
  | file (size : Option Nat)
  /-- A directory, and its address if a link leads there. -/
  | directory (linked : Option Address)

/-- What a link counts as when it is followed. -/
def metBehind (path : Path) : Script Met := do
  match ← Script.ask (.stat path) with
  | .ok ⟨_, .file, size, _⟩ => return .file (some size)
  | .ok ⟨address, .directory, _, _⟩ => return .directory (some address)
  | _ => return .nothing

/-- What the entry at a path counts as. -/
def met (s : Selection) (path : Path) : NodeKind → Script Met
  | .directory => return .directory none
  | .link => if s.followSymlinks then metBehind path else return .nothing
  | .file => do
    match ← Script.ask (.stat path) with
    | .ok found => return .file (some found.size)
    | .error _ => return .file none

/-- Whether a file is small enough. -/
def admitsSize (s : Selection) (size : Option Nat) : Bool := size.all (· ≤ s.maxFileSizeBytes)

/-- The addresses of a directory and of those it was reached through. -/
def addressed (path : Path) (above : List Address) : Script (List Address) := do
  match ← Script.ask (.stat path) with
  | .ok found => return found.address :: above
  | .error _ => return above

/-- The files below a directory that was reached through the directories `above` and by some names
below the root. -/
def below (s : Selection) : Nat → List Address → List Name → Path → Script (List Path)
  | 0, _, _, _ => return []
  | depth + 1, above, names, directory => do
    let above ← addressed directory above
    let entries ← Script.entries directory
    Script.collect (fun entry => do
      let path := directory.join entry.1
      let names := names ++ [entry.1]
      match ← s.met path entry.2 with
      | .nothing => return []
      | .file size =>
        return if s.hasExtension entry.1 && s.covers names && s.admitsSize size then [path] else []
      | .directory linked =>
        if linked.any (above.contains ·) then return [] else s.below depth above names path)
      entries

/-- The files of a selection, none if there is no root. A path that is longer than any path may be
cannot be read, so that no directory lies deeper than that. -/
def files (s : Selection) : Script (List Path) := s.below (Disk.maxPathLength + 1) [] [] s.root

end Selection

end SymbolIndex
