import SymbolIndex.Search.Error
import SymbolIndex.Search.Scan

/-!
# Search.TableIndex — the search index as a table

An entry is a row, one for each key, and keeps its id when it is written again. Writes wait in a
queue and are written in one transaction; they leave the queue only once that has succeeded. A
removal flushes the queue first, so that it sees every write before it.
-/

namespace SymbolIndex

/-- The writes of a search table that wait. -/
structure TableIndex where
  pending : List SearchEntry
  batchSize : Nat
  autoFlush : Bool

namespace TableIndex

/-- Write an entry: in the row of its key, or in a new row whose id was never used. -/
def writeEntry (e : SearchEntry) : Transaction Unit := do
  let rows ← Table.search.rows
  let db ← get
  let id := max (nextId (rows.map (·.id))) (db.lastSearchId + 1)
  Table.search.modify fun rows =>
    upsert (fun r => r.recordType == e.recordType.name && r.identifier == e.identifier)
      (fun r => { r with classType := e.typeColumn, flags := .ofUInt32 e.flags })
      ⟨id, e.recordType.name, e.identifier, e.typeColumn, .ofUInt32 e.flags⟩
      rows
  modify fun db => { db with lastSearchId := id }

/-- Write several entries. -/
def writeEntries : List SearchEntry → Transaction Unit
  | [] => return ()
  | e :: rest => do
    writeEntry e
    writeEntries rest

/-- Remove the entry of a key, if it has this class type. -/
def removeEntry (key : RecordKey) (classType : Option ClassType) : Transaction Unit :=
  Table.search.delete fun r =>
    r.recordType == key.recordType.name && r.identifier == key.identifier &&
      r.classType == SearchEntry.typeName classType

/-- Remove the entries of classes. -/
def removeClasses : Transaction Unit :=
  Table.search.delete (fun r => r.recordType == RecordType.klass.name)

/-- Open the index in the database under a root. -/
def «open» (directory path : Path) (batchSize : Nat) : ExceptT SearchError Script TableIndex := do
  match ← ExceptT.lift (Script.ask (.createDirectories directory)) with
  | .error e => throw (.io e)
  | .ok () =>
    match ← ExceptT.lift (Script.ask (.connect path)) with
    | .error e => throw (.database e)
    | .ok () =>
      match ← ExceptT.lift (Script.ask (.transact Table.search.ensure)) with
      | .error e => throw (.database e)
      | .ok () => return ⟨[], max batchSize 1, true⟩

/-- Turn the flush of a full queue on or off. -/
def setAutoFlush (i : TableIndex) (enabled : Bool) : TableIndex := { i with autoFlush := enabled }

/-- Whether a batch of writes waits. -/
def isFull (i : TableIndex) : Bool := i.batchSize ≤ i.pending.length

/-- Write the queue, if there is anything in it. -/
def flush : Action TableIndex SearchError Unit := do
  let i ← get
  if i.pending.isEmpty then return ()
  Action.ask .database (.transact (writeEntries i.pending))
  set { i with pending := [] }

/-- Keep the entry of a record until the next flush, if the record has one. -/
def write (record : Record) : Action TableIndex SearchError Unit := do
  match SearchEntry.ofRecord? record with
  | none => return ()
  | some entry =>
    modify fun i => { i with pending := i.pending ++ [entry] }
    let i ← get
    if i.autoFlush && i.isFull then flush

/-- Remove the entry of a record. -/
def remove (record : Record) : Action TableIndex SearchError Unit := do
  flush
  Action.ask .database (.transact (removeEntry record.key record.classType?))

/-- Remove the entries of classes, those that wait too. -/
def reset : Action TableIndex SearchError Unit := do
  modify fun i => { i with pending := i.pending.filter (fun e => e.recordType != .klass) }
  Action.ask .database (.transact removeClasses)

/-- Every answer of a scan of the table; a table that is not there is an error in place of the
answers. -/
def scan (s : Scan) : Transaction (List (Except DatabaseError SearchEntry)) := fun db =>
  match db.search with
  | some rows => .ok (s.answers rows, db)
  | none => .ok ([.error .statement], db)

/-- The entries that a criteria accepts, in the order of the ids of their rows. -/
def search (criteria : Criteria) : Action TableIndex SearchError (List (Hit SearchEntry)) := do
  match criteria.condition with
  | .error e => throw (.unsupported e)
  | .ok condition =>
    flush
    let found ← Action.ask .database (.transact (scan (.start condition criteria)))
    return found.map (fun hit => hit.mapError .database)

end TableIndex

end SymbolIndex
