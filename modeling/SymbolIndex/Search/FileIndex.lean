import SymbolIndex.Ordered.Map
import SymbolIndex.Search.Error
import SymbolIndex.Store.Files
import SymbolIndex.Text.Lines

/-!
# Search.FileIndex — the search index as a file of lines

The entries are in memory, by key, and in a file, a JSON text on each line. Writes and removals
wait in a queue; a flush applies them in order and writes the whole file anew beside the old one
before it takes its place. A line of the file that is no entry is passed over.
-/

namespace SymbolIndex

open SymbolIndex.Text (Bytes encode)

/-- A change that waits. -/
inductive PendingChange where
  | write (entry : SearchEntry)
  /-- Remove the entry of a key, if it has this class type. -/
  | remove (key : RecordKey) (classType : Option ClassType)
  deriving DecidableEq

/-- The entries of a search index by key. -/
abbrev Entries := SortedMap RecordKey SearchEntry

/-- A search index in a file. -/
structure FileIndex where
  path : Path
  entries : Entries
  pending : List PendingChange
  batchSize : Nat
  autoFlush : Bool

/-- The entries after a change. -/
def PendingChange.apply (entries : Entries) : PendingChange → Entries
  | .write entry => entries.insert entry.key entry
  | .remove key classType =>
    match entries.get? key with
    | some entry => if entry.classType = classType then entries.erase key else entries
    | none => entries

namespace FileIndex

/-- The name of the file under an index root. -/
def fileName : String := "search.jsonl"

/-- The file that is written before it takes the place of another. -/
def draftPath (path : Path) : Path := ⟨path.bytes ++ encode ".tmp"⟩

/-- The entries that lines hold; of two entries with one key the later stands. -/
def entriesOfLines (lines : List String) : Entries :=
  lines.foldl
    (fun entries line =>
      if Text.trimChars line.toList = [] then entries
      else match SearchEntry.decode? line with
        | some entry => entries.insert entry.key entry
        | none => entries)
    .empty

/-- The entries that the content of a file holds. It has to be text. -/
def entriesOf (content : Bytes) : Except DiskError Entries :=
  match Text.decode? content with
  | some text => .ok (entriesOfLines (Text.lines text))
  | none => .error .invalidText

/-- The content of the file of some entries. -/
def contentOf (entries : Entries) : Bytes :=
  entries.values.flatMap (fun e => encode e.encode ++ [10])

/-- Open the index under a root. A file that is missing holds no entries. -/
def «open» (root : Path) (batchSize : Nat) : ExceptT SearchError Script FileIndex := do
  let path := root.child fileName
  match ← ExceptT.lift (Script.ask (.createDirectories root)) with
  | .error e => throw (.io e)
  | .ok () =>
    match ← ExceptT.lift (Script.ask (.read path)) with
    | .error .notFound => return ⟨path, .empty, [], max batchSize 1, true⟩
    | .error e => throw (.io e)
    | .ok content =>
      match entriesOf content with
      | .error e => throw (.io e)
      | .ok entries => return ⟨path, entries, [], max batchSize 1, true⟩

/-- Turn the flush of a full queue on or off. -/
def setAutoFlush (i : FileIndex) (enabled : Bool) : FileIndex := { i with autoFlush := enabled }

/-- Whether a batch of changes waits. -/
def isFull (i : FileIndex) : Bool := i.batchSize ≤ i.pending.length

/-- The index with one more change waiting. -/
def enqueue (i : FileIndex) (change : PendingChange) : FileIndex :=
  { i with pending := i.pending ++ [change] }

/-- The index with its queue applied. -/
def settle (i : FileIndex) : FileIndex :=
  { i with entries := i.pending.foldl PendingChange.apply i.entries, pending := [] }

/-- Write every entry to the file. -/
def persist : Action FileIndex SearchError Unit := do
  let i ← get
  let file ← Action.ask .io (.create (draftPath i.path))
  if !i.entries.isEmpty then Action.ask .io (.append file (contentOf i.entries))
  Action.ask .io (.rename (draftPath i.path) i.path)

/-- Apply the queue and write the file, if there is anything to apply. -/
def flush : Action FileIndex SearchError Unit := do
  let i ← get
  if i.pending.isEmpty then return ()
  set i.settle
  persist

/-- Keep the entry of a record until the next flush, if the record has one. -/
def write (record : Record) : Action FileIndex SearchError Unit := do
  match SearchEntry.ofRecord? record with
  | none => return ()
  | some entry =>
    modify (·.enqueue (.write entry))
    let i ← get
    if i.autoFlush && i.isFull then flush

/-- Keep the removal of a record's entry until the next flush. -/
def remove (record : Record) : Action FileIndex SearchError Unit :=
  modify (·.enqueue (.remove record.key record.classType?))

/-- Remove the entries of classes. -/
def reset : Action FileIndex SearchError Unit := do
  flush
  modify fun i => { i with entries := i.entries.filter (fun _ e => e.recordType != .klass) }
  persist

/-- The entries that a criteria accepts, in the order of their keys. -/
def search (criteria : Criteria) : Action FileIndex SearchError (List (Hit SearchEntry)) := do
  flush
  let i ← get
  return (i.entries.values.filter (fun e => criteria.admits e && criteria.accepts e)).map .ok

end FileIndex

end SymbolIndex
