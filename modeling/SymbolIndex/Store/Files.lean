import SymbolIndex.Digest.Sha256
import SymbolIndex.Record.Codec
import SymbolIndex.Store.Basic
import SymbolIndex.Text.Lines

/-!
# Store.Files — records as files

Each record is a file of its own, named by the digest of its identifier, under a directory for the
kind and the first digit and another for the second digit. The file holds the JSON text of the
record. A file that does not hold a record of the key it stands for is removed when it is met, so
that the store heals from anything that is written over it.
-/

namespace SymbolIndex

open SymbolIndex.Text (Bytes encode decode?)

/-- A record store in a directory. -/
structure FileStore where
  root : Path

namespace FileStore

/-- The version of the layout. -/
def schemaVersion : Nat := 1

/-- The extension of the files of records. -/
def extension : Name := encode "cache"

/-- The names that lead from the root to the file of a key. -/
def recordNames (key : RecordKey) : String × String × String :=
  let digest := (Sha256.hexDigest (encode key.identifier)).toList
  let digit (n : Nat) : String := String.ofList ((digest.drop n).take 1)
  (key.recordType.name ++ "_" ++ digit 0, digit 1, String.ofList digest ++ ".cache")

/-- The directory of the file of a key. -/
def recordDirectory (s : FileStore) (key : RecordKey) : Path :=
  let names := recordNames key
  (s.root.child names.1).child names.2.1

/-- The file of a key. -/
def recordPath (s : FileStore) (key : RecordKey) : Path :=
  (s.recordDirectory key).child (recordNames key).2.2

/-- The file that is written before it takes the place of the file of a key. -/
def draftPath (s : FileStore) (key : RecordKey) : Path :=
  (s.recordDirectory key).child ((recordNames key).2.2 ++ ".tmp")

/-- The file of the time of the last build. -/
def timestampPath (s : FileStore) : Path := s.root.child ("timestamp.v" ++ toString schemaVersion)

/-- The file that is written before it takes the place of the time of the last build. -/
def timestampDraft (s : FileStore) : Path := s.root.child "timestamp.tmp"

/-- Remove a file if that is possible. -/
def discard (path : Path) : Script Unit := do
  let _ ← Script.ask (.removeFile path)

/-- The record in a file. A file that holds no record is removed. -/
def readEntry (path : Path) : Script (Option Record) := do
  match ← Script.ask (.read path) with
  | .error _ => return none
  | .ok bytes =>
    match (decode? bytes).bind Record.decode? with
    | some record => return some record
    | none => do
      discard path
      return none

/-- The record of a key. A file that holds the record of another key is removed. -/
def get (s : FileStore) (key : RecordKey) : Script (Option Record) := do
  match ← readEntry (s.recordPath key) with
  | none => return none
  | some record =>
    if record.key = key then return some record
    else do
      discard (s.recordPath key)
      return none

/-- Write a whole file. -/
def writeFile (path : Path) (bytes : Bytes) : Script (Except DiskError Unit) := do
  match ← Script.ask (.create path) with
  | .error e => return .error e
  | .ok file => Script.ask (.append file bytes)

/-- Write the file of a record. A failure leaves the store without it, and is no failure of the
store. -/
def write (s : FileStore) (record : Record) : Script Unit :=
  if record.isSpeculative then return ()
  else do
    match ← Script.ask (.createDirectories (s.recordDirectory record.key)) with
    | .error _ => return ()
    | .ok () =>
      match ← writeFile (s.draftPath record.key) (encode record.encode) with
      | .error _ => return ()
      | .ok () =>
        match ← Script.ask (.rename (s.draftPath record.key) (s.recordPath record.key)) with
        | .error _ => discard (s.draftPath record.key)
        | .ok () => return ()

/-- Write the files of several records. -/
def writeAll (s : FileStore) : List Record → Script Unit
  | [] => return ()
  | record :: rest => do
    s.write record
    s.writeAll rest

/-- Remove everything and start with an empty directory. -/
def reset (s : FileStore) : Stored Unit := do
  match ← ExceptT.lift (Script.ask (.removeTree s.root)) with
  | .error .notFound | .ok () => Stored.disk (.createDirectories s.root)
  | .error e => throw (.io e)

/-- The number a text of decimal digits writes, with or without a sign. -/
def parseInt64? (s : String) : Option Int64 :=
  let number (negative : Bool) (digits : List Char) : Option Int64 :=
    if digits = [] ∨ !digits.all Char.isDigit then none
    else
      let value : Int := Json.digitsValue digits
      int64OfInt? (if negative then -value else value)
  match s.toList with
  | '-' :: digits => number true digits
  | '+' :: digits => number false digits
  | digits => number false digits

/-- The time of the last build. A file that cannot be read as one counts as none. -/
def lastUpdate (s : FileStore) : Script Int64 := do
  match ← Script.ask (.read s.timestampPath) with
  | .error _ => return 0
  | .ok bytes => return ((decode? bytes).bind (fun t => parseInt64? (Text.trim t))).getD 0

/-- Set the time of the last build. -/
def markUpdated (s : FileStore) (timestamp : Int64) : Stored Unit := do
  let file ← Stored.disk (.create s.timestampDraft)
  Stored.disk (.append file (encode (toString timestamp.toInt)))
  Stored.disk (.rename s.timestampDraft s.timestampPath)

/-- The directories of a directory. -/
def directories (path : Path) : Script (List Path) := do
  return ((← Script.entries path).filter (fun e => e.2 = .directory)).map (fun e => path.join e.1)

/-- The files of records in a directory. -/
def recordFiles (path : Path) : Script (List Path) := do
  let found ← Script.entries path
  return (found.filter (fun e => e.2 = .file ∧ Name.extension? e.1 = some extension)).map
    (fun e => path.join e.1)

/-- Every file of a record. -/
def allRecordFiles (s : FileStore) : Script (List Path) := do
  let shards ← Script.collect directories (← directories s.root)
  Script.collect recordFiles shards

/-- Remove the records among some files whose URI is not to be kept. -/
def sweepFiles (keep : String → Script Bool) (report : SweepReport) :
    List Path → Script SweepReport
  | [] => return report
  | path :: rest => do
    match ← readEntry path with
    | none => sweepFiles keep report rest
    | some record =>
      match record.sourceUri? with
      | none => sweepFiles keep report rest
      | some uri => do
        let (kept, verdicts) ← verdict keep report.verdicts uri
        if kept then sweepFiles keep { report with verdicts := verdicts } rest
        else do
          discard path
          sweepFiles keep ⟨report.removed ++ [record], verdicts⟩ rest

/-- Remove the records whose URI is not to be kept. -/
def sweep (s : FileStore) (keep : String → Script Bool) : Script SweepReport := do
  sweepFiles keep ⟨[], .empty⟩ (← s.allRecordFiles)

/-- Whether the file at a path was indexed at the given time or later. -/
def isFresh (s : FileStore) (path : String) (mtime : Int64) : Script Bool := do
  match ← s.get (.ofFile path) with
  | some (.file file) => return file.isFreshAt mtime
  | _ => return false

/-- The operations of the store. -/
def toStore (s : FileStore) : RecordStore where
  get key := ExceptT.lift (s.get key)
  write record := ExceptT.lift (s.write record)
  writeBatch records := ExceptT.lift (s.writeAll records)
  remove key := ExceptT.lift (discard (s.recordPath key))
  reset := s.reset
  isFresh path mtime := ExceptT.lift (s.isFresh path mtime)
  lastUpdate := ExceptT.lift s.lastUpdate
  markUpdated := s.markUpdated
  flush := return ()
  sweep keep := ExceptT.lift (s.sweep keep)

/-- Create the directory of the store unless it is there. -/
def «open» (s : FileStore) : Stored Unit := Stored.disk (.createDirectories s.root)

end FileStore

end SymbolIndex
