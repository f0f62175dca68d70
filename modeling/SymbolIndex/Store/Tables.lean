import SymbolIndex.Database.Records
import SymbolIndex.Store.Basic

/-!
# Store.Tables — records as rows of a database

Each operation of the store is one transaction, so that it happens whole or not at all; only a
sweep asks about the URIs between two transactions.
-/

namespace SymbolIndex.TableStore

/-- Create the tables of the store as far as they are missing. -/
def ensureTables : Transaction Unit := do
  Table.classes.ensure
  Table.functions.ensure
  Table.constants.ensure
  Table.members.ensure
  Table.memberReferences.ensure
  Table.files.ensure
  Table.fileReferences.ensure
  Table.properties.ensure

/-- Drop the tables of the store and create them again. -/
def recreateTables : Transaction Unit := do
  Table.properties.drop
  Table.fileReferences.drop
  Table.files.drop
  Table.memberReferences.drop
  Table.members.drop
  Table.constants.drop
  Table.functions.drop
  Table.classes.drop
  ensureTables

/-- The name of the time of the last build. -/
def lastUpdateName : String := "last_update"

/-- The time of the last build. -/
def lastUpdate : Transaction Int64 := do
  let rows ← Table.properties.rows
  match rows.find? (fun r => r.name == lastUpdateName) with
  | some row => return row.value
  | none => return 0

/-- Set the time of the last build. -/
def markUpdated (timestamp : Int64) : Transaction Unit :=
  Table.properties.modify fun rows =>
    upsert (fun r => r.name == lastUpdateName) (fun r => { r with value := timestamp })
      ⟨lastUpdateName, timestamp⟩ rows

/-- Whether the file at a path was indexed at the given time or later. -/
def isFresh (path : String) (mtime : Int64) : Transaction Bool := do
  let rows ← Table.files.rows
  match rows.find? (fun r => r.filePath == Uri.normalize path) with
  | some row =>
    match row.updatedAt with
    | some stamp => return mtime ≤ stamp
    | none => return false
  | none => return false

/-- Decide about each candidate; the answer is the keys that are not to be kept. -/
def orphans (keep : String → Script Bool) (verdicts : SortedMap String Bool) :
    List (RecordKey × String) → Script (List RecordKey × SortedMap String Bool)
  | [] => return ([], verdicts)
  | (key, uri) :: rest => do
    let (kept, verdicts) ← verdict keep verdicts uri
    let (found, verdicts) ← orphans keep verdicts rest
    return (if kept then found else key :: found, verdicts)

/-- Remove the records whose URI is not to be kept. -/
def sweep (keep : String → Script Bool) : Stored SweepReport := do
  let candidates ← Stored.transact Records.sweepCandidates
  let (keys, verdicts) ← ExceptT.lift (orphans keep .empty candidates)
  let removed ← Stored.transact (Records.removeAll keys)
  return ⟨removed, verdicts⟩

/-- The operations of the store. -/
def toStore : RecordStore where
  get key := Stored.transact (Records.get key)
  write record := Stored.transact (Records.write record)
  writeBatch records := Stored.transact (Records.writeAll records)
  remove key := Stored.transact (Records.remove key)
  reset := Stored.transact recreateTables
  isFresh path mtime := Stored.transact (isFresh path mtime)
  lastUpdate := Stored.transact lastUpdate
  markUpdated timestamp := Stored.transact (markUpdated timestamp)
  flush := return ()
  sweep := sweep

/-- Open the database at a path and create what the store needs, as far as it is missing. -/
def «open» (directory path : Path) : Stored Unit := do
  Stored.disk (.createDirectories directory)
  Stored.database (.connect path)
  Stored.transact ensureTables

end SymbolIndex.TableStore
