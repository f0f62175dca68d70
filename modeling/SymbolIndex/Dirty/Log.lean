import SymbolIndex.Dirty.TableLog
import SymbolIndex.Store.Backend

/-!
# Dirty.Log — the dirty log of either kind

The log of the files that changed since they were last indexed: an ordered set of URIs that is
marked, cleared one by one, and drained as a whole.
-/

namespace SymbolIndex

/-- A handle on a dirty log. -/
inductive DirtyLog where
  | file (log : FileLog)
  | table (log : TableLog)

/-- A computation that uses a handle on a dirty log. -/
abbrev Marked := Action DirtyLog DirtyError

namespace DirtyLog

/-- Open the log under an index root. -/
def «open» (backend : Backend) (root : Path) : ExceptT DirtyError Script DirtyLog := do
  match ← ExceptT.lift (Script.ask (.createDirectories root)) with
  | .error e => throw (.io e)
  | .ok () =>
    match backend with
    | .file => return .file (.ofRoot root)
    | .sqlite =>
      match ← ExceptT.lift (Script.ask (.connect (databasePath root))) with
      | .error e => throw (.database e)
      | .ok () =>
        match ← ExceptT.lift (Script.ask (.transact Table.dirty.ensure)) with
        | .error e => throw (.database e)
        | .ok () => return .table .fresh

/-- Do what the kind of log asks for. -/
def onEither {α : Type} (onFile : Action FileLog DirtyError α)
    (onTable : Action TableLog DirtyError α) : Marked α := fun log =>
  match log with
  | .file l => (onFile l).bind (fun r => .done (r.1, .file r.2))
  | .table l => (onTable l).bind (fun r => .done (r.1, .table r.2))

/-- Note that a file changed. -/
def mark (path : String) : Marked Unit := onEither (FileLog.mark path) (TableLog.mark path)

/-- Take every URI, in the order of the first marks. -/
def drain : Marked (List String) := onEither FileLog.drain TableLog.drain

/-- Forget a file. -/
def clear (path : String) : Marked Unit := onEither (FileLog.clear path) (TableLog.clear path)

end DirtyLog

end SymbolIndex
