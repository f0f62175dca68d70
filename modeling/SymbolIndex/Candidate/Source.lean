import SymbolIndex.Candidate.Selection
import SymbolIndex.Dirty.Log
import SymbolIndex.Index.Config
import SymbolIndex.Uri.Reader

/-!
# Candidate.Source — where the files of a pass come from

A pass asks its sources in order and takes all that they list, repetitions included. The sources of
an index are the files of the project, the files of each stub, and last the dirty log, which is
empty afterwards.
-/

namespace SymbolIndex

/-- The cause of an error of a dirty log. -/
def IndexError.ofDirty : DirtyError → IndexError
  | .io cause => .io cause
  | .database cause => .database cause

namespace Selection

/-- The selection that patterns write. -/
def ofPatterns (root : Path) (included excluded extensions : List String) (followSymlinks : Bool)
    (maxFileSizeBytes : Nat) : Except IndexError Selection :=
  match included.mapM PathGlob.ofText?, excluded.mapM PathGlob.ofText? with
  | some included, some excluded =>
    .ok ⟨root, included, excluded, extensions, followSymlinks, maxFileSizeBytes⟩
  | _, _ => .error .pattern

/-- The files of a project. -/
def ofConfig (c : IndexConfig) : Except IndexError Selection :=
  ofPatterns c.projectRoot c.includePatterns c.excludePatterns c.supportedExtensions
    c.followSymlinks c.maxFileSizeBytes

/-- The files of a stub that is a directory: those a project has unless it says otherwise. -/
def ofStub (path : Path) (followSymlinks : Bool) : Except IndexError Selection :=
  ofConfig { projectRoot := path, followSymlinks := followSymlinks }

end Selection

/-- A list of candidate files. -/
abbrev Listing := Script (Except IndexError (List Path))

namespace Listing

/-- The files of a project. -/
def project (s : Selection) : Listing := do return .ok (← s.files)

/-- A stub that is a file, or the files of one that is a directory. -/
def stub (followSymlinks : Bool) (path : Path) : Listing := do
  match ← Script.ask (.stat path) with
  | .ok ⟨_, .file, _, _⟩ => return .ok [path]
  | _ =>
    match Selection.ofStub path followSymlinks with
    | .error e => return .error e
    | .ok s => project s

end Listing

/-- A source of candidate files. -/
inductive Source where
  /-- Files that are listed anew each time. -/
  | listing (list : Listing)
  /-- The files marked in the dirty log, which loses its marks. -/
  | dirtyLog

namespace Source

/-- The sources of an index. -/
def ofConfig (c : IndexConfig) : Except IndexError (List Source) :=
  (Selection.ofConfig c).map fun s =>
    .listing (.project s) :: c.stubPaths.map (fun path => .listing (.stub c.followSymlinks path)) ++
      [.dirtyLog]

/-- The files of a source. -/
def provide : Source → Action DirtyLog IndexError (List Path)
  | .listing list => Action.ofScript list
  | .dirtyLog => do
    let uris ← Action.within id (fun _ log => log) .ofDirty DirtyLog.drain
    return uris.map Uri.toPath

/-- The files of several sources. -/
def provideAll : List Source → Action DirtyLog IndexError (List Path)
  | [] => return []
  | source :: rest => do
    let found ← source.provide
    return found ++ (← provideAll rest)

end Source

end SymbolIndex
