import SymbolIndex.Store.Basic

/-!
# Store.Buffer — writes that wait

A buffer stands in front of a store. Writes wait in it, by key, and are handed over together; what
is read through the buffer is what would be read had they been handed over at once. The buffer is
full when as many writes arrived since the last flush as make a batch.
-/

namespace SymbolIndex

/-- The writes that wait, and when they are handed over. -/
structure Buffer where
  pending : SortedMap RecordKey Record
  batchSize : Nat
  counter : Nat
  autoFlush : Bool

/-- A computation that changes a buffer. -/
abbrev Buffered := Action Buffer StoreError

namespace Buffer

/-- The number of writes that make a batch, unless another is asked for. -/
def defaultBatchSize : Nat := 10000

/-- An empty buffer. A batch is at least one write. -/
def ofBatchSize (batchSize : Nat) : Buffer := ⟨.empty, max batchSize 1, 0, true⟩

/-- Turn the flush of a full buffer on or off. -/
def setAutoFlush (b : Buffer) (enabled : Bool) : Buffer := { b with autoFlush := enabled }

/-- Whether a batch of writes arrived since the last flush. -/
def isFull (b : Buffer) : Bool := b.batchSize ≤ b.counter

/-- The buffer with one more write. -/
def insert (b : Buffer) (record : Record) : Buffer :=
  { b with pending := b.pending.insert record.key record, counter := b.counter + 1 }

/-- The buffer without writes. -/
def clear (b : Buffer) : Buffer := { b with pending := .empty, counter := 0 }

/-- The buffer without a write to a key. -/
def erase (b : Buffer) (key : RecordKey) : Buffer := { b with pending := b.pending.erase key }

/-- The record of a key, in the buffer or else in the store. -/
def find? (b : Buffer) (inner : RecordStore) (key : RecordKey) : Stored (Option Record) :=
  match b.pending.get? key with
  | some record => return some record
  | none => inner.get key

/-- Whether the file at a path was indexed at the given time or later. -/
def isFresh (b : Buffer) (inner : RecordStore) (path : String) (mtime : Int64) : Stored Bool :=
  match b.pending.get? (.ofFile path) with
  | some (.file file) => return file.isFreshAt mtime
  | _ => inner.isFresh path mtime

/-- Hand over every write, in the order of the keys. The writes leave the buffer whether or not
the store takes them. -/
def flush (inner : RecordStore) : Buffered Unit := do
  let b ← get
  set b.clear
  if !b.pending.isEmpty then Action.ofScript (inner.writeBatch b.pending.values)
  Action.ofScript inner.flush

/-- Keep a write until the next flush. A class without a type is dropped. -/
def write (inner : RecordStore) (record : Record) : Buffered Unit := do
  if record.isSpeculative then return ()
  modify (·.insert record)
  let b ← get
  if b.autoFlush && b.isFull then flush inner

/-- Keep several writes. -/
def writeBatch (inner : RecordStore) : List Record → Buffered Unit
  | [] => return ()
  | record :: rest => do
    write inner record
    writeBatch inner rest

/-- Remove the record of a key. -/
def remove (inner : RecordStore) (key : RecordKey) : Buffered Unit := do
  modify (·.erase key)
  Action.ofScript (inner.remove key)

/-- Remove every record and the time of the last build. -/
def reset (inner : RecordStore) : Buffered Unit := do
  modify (·.clear)
  Action.ofScript inner.reset

/-- Remove the files whose URI is not to be kept, and the symbols that are defined in one. -/
def sweep (inner : RecordStore) (keep : String → Script Bool) : Buffered SweepReport := do
  flush inner
  Action.ofScript (inner.sweep keep)

end Buffer

end SymbolIndex
