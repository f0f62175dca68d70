import SymbolIndex.Index.Document

/-!
# Index.Pass — indexing passes

A pass takes the candidates that its sources list, each once. Unless it is forced, it leaves out the
files that have not changed and those that are gone. It reads what is left chunk by chunk, extracts
and applies document after document, and hands over what waits at the end. A file that cannot be
read or extracted is marked in the dirty log, and the pass goes on.
-/

namespace SymbolIndex

open SymbolIndex.Text (decode?)

/-- A file to be indexed. -/
structure Candidate where
  path : Path
  uri : String

namespace Candidate

/-- The candidate at a path. -/
def ofPath (path : Path) : Candidate := ⟨path, Uri.normalize path.display⟩

/-- The document of a candidate. -/
def read (c : Candidate) : Script (Except DiskError TextDocument) := do
  match ← Script.ask (.read c.path) with
  | .error e => return .error e
  | .ok bytes =>
    match decode? bytes with
    | some text => return .ok ⟨c.uri, c.path, text⟩
    | none => return .error .invalidText

end Candidate

/-- What a pass found out about its candidates so far: the URIs it met, the files to be indexed, the
last one first, and its statistics. -/
structure Choice where
  seen : SortedSet String := .empty
  due : List Candidate := []
  stats : IndexStats := {}

/-- What is to be done about a candidate. -/
inductive Verdict where
  /-- It is to be indexed. -/
  | due
  /-- It has not changed. -/
  | fresh
  /-- It is gone. -/
  | vanished
  /-- It cannot be told. -/
  | failed
  deriving DecidableEq

namespace Choice

/-- Take in the verdict about a candidate. -/
def decide (choice : Choice) (c : Candidate) : Verdict → Choice
  | .due => { choice with due := c :: choice.due }
  | .fresh =>
    { choice with stats := { choice.stats with skippedFresh := choice.stats.skippedFresh + 1 } }
  | .vanished => choice
  | .failed => { choice with stats := { choice.stats with errors := choice.stats.errors + 1 } }

/-- Take in a candidate that was met before. -/
def repeated (choice : Choice) : Choice :=
  { choice with stats := { choice.stats with duplicates := choice.stats.duplicates + 1 } }

end Choice

/-- A list in pieces of a width. -/
def chunks {α : Type} (width : Nat) : List α → List (List α)
  | [] => []
  | a :: rest => (a :: rest.take (width - 1)) :: chunks width (rest.drop (width - 1))
termination_by l => l.length
decreasing_by simp only [List.length_drop, List.length_cons]; omega

namespace Indexer

/-! ## Choosing -/

/-- Whether a candidate is to be indexed by a pass that is not forced. -/
def judge (x : Indexer) (c : Candidate) : Indexed Verdict := do
  match ← Action.ofPlain (Freshness.mtime c.path) with
  | .error .notFound => return .vanished
  | .error _ => return .failed
  | .ok mtime =>
    if ← onStore ((← get).buffer.isFresh x.store c.uri mtime) then return .fresh else return .due

/-- Decide about one path. -/
def consider (x : Indexer) (force : Bool) (choice : Choice) (path : Path) : Indexed Choice := do
  let c := Candidate.ofPath path
  if choice.seen.contains c.uri then return choice.repeated
  let choice := { choice with seen := choice.seen.insert c.uri }
  if force then return choice.decide c .due
  return choice.decide c (← x.judge c)

/-! ## Indexing -/

/-- Mark a file that could not be indexed. -/
def fail (stats : IndexStats) (uri : String) : Indexed IndexStats := do
  onDirty (DirtyLog.mark uri)
  return { stats with errors := stats.errors + 1 }

/-- Extract and apply one document. -/
def indexDocument (x : Indexer) (stats : IndexStats) (document : TextDocument) :
    Indexed IndexStats := do
  match x.extract document with
  | none => fail stats document.uri
  | some records =>
    let written ← x.apply document.uri records
    onDirty (DirtyLog.clear document.uri)
    x.flushIfFull
    return { stats with indexed := stats.indexed + 1, records := stats.records + written }

/-- Index a file that was read. -/
def indexRead (x : Indexer) (stats : IndexStats)
    (found : Candidate × Except DiskError TextDocument) : Indexed IndexStats :=
  match found.2 with
  | .ok document => x.indexDocument stats document
  | .error _ => fail stats found.1.uri

/-- Read some files, and index them. -/
def indexChunk (x : Indexer) (stats : IndexStats) (chunk : List Candidate) :
    Indexed IndexStats := do
  let found ← Action.ofPlain (chunk.mapM (fun c => do return (c, ← c.read)))
  found.foldlM x.indexRead stats

/-- Index some candidates. -/
def indexCandidates (x : Indexer) (force : Bool) (candidates : List Path) :
    Indexed IndexStats := do
  let choice ← candidates.foldlM (x.consider force)
    { stats := { candidates := candidates.length } }
  let stats ← (chunks x.readWidth choice.due.reverse).foldlM x.indexChunk choice.stats
  x.flush
  return stats

/-! ## Operations -/

/-- The candidates of a pass. -/
def provide (x : Indexer) : Indexed (List Path) :=
  Action.within IndexState.dirty (fun s d => { s with dirty := d }) id (Source.provideAll x.sources)

/-- Index the files that the sources list, and note the time of the build. -/
def run (x : Indexer) (force : Bool) : Indexed IndexStats := do
  x.lock
  let stats ← x.indexCandidates force (← x.provide)
  let now ← Action.ofPlain Freshness.nowSeconds
  onStore (x.store.markUpdated now)
  return stats

/-- Index one file, whether or not it has changed. -/
def indexFile (x : Indexer) (path : Path) : Indexed IndexStats := do
  x.lock
  x.indexCandidates true [path]

/-- Whether the file of a URI is still there. What is no file URI cannot be told to be gone. -/
def isThere (uri : String) : Script Bool :=
  if "file://".toList.isPrefixOf uri.toList then do
    match ← Script.ask (.stat (Uri.toPath uri)) with
    | .ok _ => return true
    | .error _ => return false
  else return true

/-- Remove the records of files that are gone; the answer is how many there were. -/
def sweep (x : Indexer) : Indexed Nat := do
  x.lock
  let report ← onBuffer (Buffer.sweep x.store isThere)
  report.removed.forM (fun record => onSearch (SearchIndex.remove record))
  onSearch SearchIndex.flush
  onBuffer (Buffer.flush x.store)
  return report.removed.length

/-- Remove every record from the store, and the entries of classes from the search index. -/
def reset (x : Indexer) : Indexed Unit := do
  onBuffer (Buffer.reset x.store)
  onSearch SearchIndex.reset
  onSearch SearchIndex.flush

end Indexer

end SymbolIndex
