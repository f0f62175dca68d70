import SymbolIndex.System.Disk

/-!
# System.Outside — what others do to the disk

The files of a project change without the index: others write them, touch them, link them and remove
them, and may do the same to the files of the index. An index makes none of these calls. They are what
it is tried against, as the edits of rows in `Database.Edit` are.
-/

namespace SymbolIndex

open SymbolIndex.Text (Bytes)

namespace Disk

/-- Write a whole file, and create the directories that lead to it. -/
def writeFile (d : Disk) (now : Int) (p : Path) (content : Bytes) : Except DiskError Disk := do
  let (id, d) ← (← d.createDirectories now p.parent).openFile now true p
  return d.append now id content

/-- Remove whatever is at a path. -/
def removeAny (d : Disk) (p : Path) : Except DiskError Disk := do
  match ← d.find false p with
  | (_, .directory _) => d.removeTree p
  | _ => d.removeFile p

/-- The names that lead from a directory to each file below it. -/
def filesBelow (d : Disk) (base : Address) : List (List Name) :=
  (d.nodes.filter (fun e => e.2.kind == .file && isUnder e.1 base)).map
    (fun e => (e.1.take (e.1.length - base.length)).reverse)

/-- Create a link. -/
def createLink (d : Disk) (p target : Path) : Except DiskError Disk :=
  match d.locate false p with
  | .ok (.vacant here) => .ok (d.put here (.link target))
  | .ok (.found _ _) => .error .alreadyExists
  | .error e => .error e

/-- Set the time at which a file was last changed. -/
def setModified (d : Disk) (p : Path) (time : Int) : Except DiskError Disk :=
  match d.find true p with
  | .ok (here, .file id content _) => .ok (d.put here (.file id content time))
  | .ok (here, .directory _) => .ok (d.put here (.directory time))
  | .ok (_, .link _) => .ok d
  | .error e => .error e

end Disk

end SymbolIndex
