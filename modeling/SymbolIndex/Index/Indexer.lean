import SymbolIndex.Candidate.Source

/-!
# Index.Indexer — the parts that an indexing pass works with

An indexer is what stays the same from pass to pass: where the index lives, the record store, the
sources of candidate files and the extractor. Its state is what waits in memory: the writes in
front of the record store, the search index, and the handle on the dirty log. Neither of the two
buffers is ever handed over in the middle of a file, so that the records of a file do not reach one
of them without the other.
-/

namespace SymbolIndex

/-- A document and its text. -/
structure TextDocument where
  uri : String
  path : Path
  text : String

/-- The records that a document declares and references, or none if it cannot be read as one. The
record of the document itself may be among them. -/
abbrev Extractor := TextDocument → Option (List Record)

/-- What an indexing pass works with. -/
structure Indexer where
  root : Path
  store : RecordStore
  sources : List Source
  extract : Extractor
  /-- The number of files whose texts are read before the first of them is extracted. -/
  readWidth : Nat

/-- What an indexer keeps in memory. -/
structure IndexState where
  buffer : Buffer
  search : SearchIndex
  dirty : DirtyLog

/-- A computation of an indexer. -/
abbrev Indexed := Action IndexState IndexError

/-- What a pass did. -/
structure IndexStats where
  /-- The paths that the sources listed, with repetitions. -/
  candidates : Nat := 0
  /-- The files that were extracted and written. -/
  indexed : Nat := 0
  /-- The files that had not changed. -/
  skippedFresh : Nat := 0
  /-- The paths that were listed before. -/
  duplicates : Nat := 0
  /-- The records that were written, those of the files among them. -/
  records : Nat := 0
  /-- The files that could not be read or extracted. -/
  errors : Nat := 0
  deriving DecidableEq

namespace Indexer

/-- An operation on the buffer. -/
def onBuffer {α : Type} (a : Buffered α) : Indexed α :=
  Action.within IndexState.buffer (fun s b => { s with buffer := b }) .store a

/-- An operation on the search index. -/
def onSearch {α : Type} (a : Searched α) : Indexed α :=
  Action.within IndexState.search (fun s i => { s with search := i }) .search a

/-- An operation on the dirty log. -/
def onDirty {α : Type} (a : Marked α) : Indexed α :=
  Action.within IndexState.dirty (fun s d => { s with dirty := d }) .ofDirty a

/-- An operation on the store. -/
def onStore {α : Type} (s : Stored α) : Indexed α :=
  Action.ofScript (s.run.bind (fun r => .done (r.mapError .store)))

/-- The record of a key, as it is once everything that waits is written. -/
def find? (x : Indexer) (key : RecordKey) : Indexed (Option Record) := do
  onStore ((← get).buffer.find? x.store key)

/-- Write a record. -/
def write (x : Indexer) (record : Record) : Indexed Unit := onBuffer (Buffer.write x.store record)

/-- Hand over what waits, the records before the entries. -/
def flush (x : Indexer) : Indexed Unit := do
  onBuffer (Buffer.flush x.store)
  onSearch SearchIndex.flush

/-- Hand over what waits once a batch of either has arrived. -/
def flushIfFull (x : Indexer) : Indexed Unit := do
  let s ← get
  if s.buffer.isFull || s.search.isFull then x.flush

/-- The name of the file that locks an index. -/
def lockName : String := "index.lock"

/-- The file that locks the index under a root. -/
def lockPath (root : Path) : Path := root.child lockName

/-- Take the lock of the index. -/
def lock (x : Indexer) : Indexed Unit := do
  Action.ask .io (.createDirectories x.root)
  let _ ← Action.ask .lock (.openAppend (lockPath x.root))

end Indexer

end SymbolIndex
