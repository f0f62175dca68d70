import SymbolIndex.Dirty.FileLog

/-!
# Dirty.TableLog — marks as rows of a table

Each mark is a row, and the ids of the rows are the order of the marks. Draining is one
transaction. Clearing is two steps, `forget` on the handle and `deleteMarks` on the table, between
which another user of the handle may come.
-/

namespace SymbolIndex

/-- A handle on the table of marks: the URIs it has marked since it last drained the table. -/
structure TableLog where
  pending : SortedSet String

namespace TableLog

/-- A new handle. -/
def fresh : TableLog := ⟨.empty⟩

/-- Add a mark, with an id that was never used. -/
def insertMark (uri : String) : Transaction Unit := do
  let rows ← Table.dirty.rows
  let db ← get
  let id := max (nextId (rows.map (·.id))) (db.lastDirtyId + 1)
  Table.dirty.modify (· ++ [⟨id, uri⟩])
  modify fun db => { db with lastDirtyId := id }

/-- Take every mark. -/
def takeMarks : Transaction (List String) := do
  let rows ← Table.dirty.rows
  Table.dirty.modify (fun _ => [])
  return rows.map (·.filePath)

/-- Remove the marks of a URI. -/
def deleteMarks (uri : String) : Transaction Unit := Table.dirty.delete (fun r => r.filePath == uri)

/-- The handle without a URI. -/
def forget (log : TableLog) (uri : String) : TableLog := ⟨log.pending.erase uri⟩

/-- Note that a file changed, unless this handle has it marked already. -/
def mark (path : String) : Action TableLog DirtyError Unit := do
  let uri := Uri.normalize path
  if (← get).pending.contains uri then return ()
  Action.ask .database (.transact (insertMark uri))
  modify fun log => ⟨log.pending.insert uri⟩

/-- Take every mark, in the order of the first marks. A table without marks leaves the handle as
it is. -/
def drain : Action TableLog DirtyError (List String) := do
  let entries ← Action.ask .database (.transact takeMarks)
  if entries ≠ [] then set fresh
  return firstOccurrences entries

/-- Forget a file. -/
def clear (path : String) : Action TableLog DirtyError Unit := do
  let uri := Uri.normalize path
  modify (·.forget uri)
  Action.ask .database (.transact (deleteMarks uri))

end TableLog

end SymbolIndex
