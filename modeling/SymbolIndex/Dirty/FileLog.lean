import SymbolIndex.Ordered.Set
import SymbolIndex.System.Script
import SymbolIndex.Text.Lines
import SymbolIndex.Uri.FileUri

/-!
# Dirty.FileLog — marks as lines of a file

Each mark is a line at the end of the log. A drain moves the log aside before it reads it, so that
marks made meanwhile start a new log; a log that was moved aside and is still there belongs to a
drain that did not finish, and is read first.

A URI and the line feed after it are written by one call, although the file may get them one after the
other. So it is assumed that a line is written as a whole or not at all, and that nobody else writes to
the log between the two.
-/

namespace SymbolIndex

open SymbolIndex.Text (Bytes encode)

/-- Why an operation of a dirty log fails. -/
inductive DirtyError where
  | io (cause : DiskError)
  | database (cause : DatabaseError)
  deriving DecidableEq

/-- Each text where it stands first. -/
def firstOccurrences (entries : List String) : List String := entries.eraseDups

/-- A dirty log in a file, and the URIs this handle has marked since it last drained the log. -/
structure FileLog where
  path : Path
  pending : SortedSet String

namespace FileLog

/-- The name of the log under an index root. -/
def fileName : String := "dirty"

/-- A new handle on the log under an index root. -/
def ofRoot (root : Path) : FileLog := ⟨root.child fileName, .empty⟩

/-- Where the log is moved to be drained. -/
def drainingPath (path : Path) : Path := ⟨path.bytes ++ encode ".draining"⟩

/-- The file that is written before it takes the place of the log. -/
def draftPath (path : Path) : Path := ⟨path.bytes ++ encode ".tmp"⟩

/-- The entries that a text holds: its lines, without blank space around them and without the
empty ones. -/
def entriesOf (text : String) : List String :=
  ((Text.lines text).map Text.trim).filter (· ≠ "")

/-- The text of some entries. -/
def contentOf (entries : List String) : Bytes := entries.flatMap (fun e => encode e ++ [10])

/-- The entries in a file. A file that is missing has none. -/
def readEntries (path : Path) : Script (Except DiskError (List String)) := do
  match ← Script.ask (.read path) with
  | .error .notFound => return .ok []
  | .error e => return .error e
  | .ok bytes =>
    match Text.decode? bytes with
    | some text => return .ok (entriesOf text)
    | none => return .error .invalidText

/-- The entries in a file, as a step of an action on a log. -/
def entriesAt (path : Path) : Action FileLog DirtyError (List String) :=
  Action.ofScript ((readEntries path).bind (fun r => .done (r.mapError .io)))

/-- Note that a file changed, unless this handle has it marked already. The line is written by one call. -/
def mark (path : String) : Action FileLog DirtyError Unit := do
  let uri := Uri.normalize path
  let log ← get
  if log.pending.contains uri then return ()
  let file ← Action.ask .io (.openAppend log.path)
  Action.ask .io (.append file (contentOf [uri]))
  modify fun log => { log with pending := log.pending.insert uri }

/-- Move the log aside; the answer is whether there was one. -/
def moveAside : Action FileLog DirtyError Bool := do
  let log ← get
  match ← Action.ofPlain (Script.ask (.rename log.path (drainingPath log.path))) with
  | .ok () => return true
  | .error .notFound => return false
  | .error e => throw (.io e)

/-- Remove the log that was moved aside, if there is one. -/
def removeDraining : Action FileLog DirtyError Unit := do
  let log ← get
  match ← Action.ofPlain (Script.ask (.removeFile (drainingPath log.path))) with
  | .ok () | .error .notFound => return ()
  | .error e => throw (.io e)

/-- Take every entry, in the order of the first marks. -/
def drain : Action FileLog DirtyError (List String) := do
  let log ← get
  let left ← entriesAt (drainingPath log.path)
  let moved ← moveAside
  let fresh ← if moved then entriesAt (drainingPath log.path) else pure []
  removeDraining
  modify fun log => { log with pending := .empty }
  return firstOccurrences (left ++ fresh)

/-- Forget a file. -/
def clear (path : String) : Action FileLog DirtyError Unit := do
  let uri := Uri.normalize path
  modify fun log => { log with pending := log.pending.erase uri }
  let log ← get
  let entries ← entriesAt log.path
  if !entries.contains uri then return ()
  let content := contentOf (entries.filter (· ≠ uri))
  let file ← Action.ask .io (.create (draftPath log.path))
  if content ≠ [] then Action.ask .io (.append file content)
  Action.ask .io (.rename (draftPath log.path) log.path)

end FileLog

end SymbolIndex
