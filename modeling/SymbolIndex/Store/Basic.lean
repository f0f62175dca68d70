import SymbolIndex.Ordered.Map
import SymbolIndex.Record.Basic
import SymbolIndex.System.Script

/-!
# Store.Basic — what a record store does

A record store keeps records by key and the time of the last build. Writing a record puts it in
place of the record of its key, except that a class without a type is never stored. Whoever uses a
store sees no more of it than the operations below.
-/

namespace SymbolIndex

/-- Why an operation of a store fails. -/
inductive StoreError where
  | io (cause : DiskError)
  | database (cause : DatabaseError)
  deriving DecidableEq

/-- A computation of a store. -/
abbrev Stored := ExceptT StoreError Script

namespace Stored

variable {α : Type}

/-- Make a call that the disk answers. -/
def disk (request : Call (Except DiskError α)) : Stored α :=
  ExceptT.mk ((Script.ask request).bind (fun answer => .done (answer.mapError .io)))

/-- Make a call that the database answers. -/
def database (request : Call (Except DatabaseError α)) : Stored α :=
  ExceptT.mk ((Script.ask request).bind (fun answer => .done (answer.mapError .database)))

/-- Run a transaction. -/
def transact (action : Transaction α) : Stored α := database (.transact action)

end Stored

/-- What a sweep removed, and what it decided about each URI it met. -/
structure SweepReport where
  removed : List Record
  verdicts : SortedMap String Bool

/-- The operations of a record store. -/
structure RecordStore where
  /-- The record of a key. An entry that cannot be read counts as none. -/
  get : RecordKey → Stored (Option Record)
  /-- Put a record in its place. -/
  write : Record → Stored Unit
  /-- Put several records in their places. -/
  writeBatch : List Record → Stored Unit
  /-- Remove the record of a key. -/
  remove : RecordKey → Stored Unit
  /-- Remove every record and the time of the last build. -/
  reset : Stored Unit
  /-- Whether the file at a path was indexed at the given time or later. -/
  isFresh : String → Int64 → Stored Bool
  /-- The time of the last build in seconds, zero if there was none. -/
  lastUpdate : Stored Int64
  /-- Set the time of the last build. -/
  markUpdated : Int64 → Stored Unit
  /-- Make sure that what was written is kept. -/
  flush : Stored Unit
  /-- Remove the files whose URI is not to be kept, and the symbols that are defined in one. -/
  sweep : (String → Script Bool) → Stored SweepReport

namespace RecordStore

/-- Whether there is a record of a key. -/
def has (s : RecordStore) (key : RecordKey) : Stored Bool := do
  return (← s.get key).isSome

/-- Whether there was a build. -/
def «exists» (s : RecordStore) : Stored Bool := do
  return 0 < (← s.lastUpdate)

end RecordStore

/-- Decide about a URI, once for each URI. -/
def verdict (keep : String → Script Bool) (verdicts : SortedMap String Bool) (uri : String) :
    Script (Bool × SortedMap String Bool) :=
  match verdicts.get? uri with
  | some kept => return (kept, verdicts)
  | none => do
    let kept ← keep uri
    return (kept, verdicts.insert uri kept)

end SymbolIndex
