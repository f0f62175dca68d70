import SymbolIndex.Search.Index
import SymbolIndex.Toml.Parser

/-!
# Index.Config — the settings of an index

A configuration says where an index lives, what it covers and how it is kept. Settings that are not
given have values of their own; a setting that is not known, or is given twice or with a value of
another type, makes the whole text no configuration.
-/

namespace SymbolIndex

/-- The settings of an index. -/
structure IndexConfig where
  indexRoot : Path := ⟨[]⟩
  projectRoot : Path := ⟨[]⟩
  backend : Backend := .file
  includePatterns : List String := ["/**/*.php", "/**/*.phar"]
  excludePatterns : List String := []
  supportedExtensions : List String := ["php", "phar"]
  stubPaths : List Path := []
  followSymlinks : Bool := false
  maxFileSizeBytes : Nat := 1048576
  storeBatchSize : Nat := Buffer.defaultBatchSize
  searchBatchSize : Nat := SearchIndex.defaultBatchSize

/-- Why settings do not fit together. -/
inductive ConfigError where
  | noIndexRoot
  | noProjectRoot
  | relativeProjectRoot (path : Path)
  | relativeStub (path : Path)
  | noIncludePatterns
  | badExtension
  | zeroFileSize
  | zeroBatchSize
  deriving DecidableEq

/-- What is wrong with the settings. -/
def ConfigError.message : ConfigError → String
  | .noIndexRoot => "index_root is required"
  | .noProjectRoot => "project_root is required"
  | .relativeProjectRoot path => "project_root must be absolute, got " ++ path.display
  | .relativeStub path => "stub_paths must be absolute, got " ++ path.display
  | .noIncludePatterns => "include_patterns must not be empty"
  | .badExtension => "supported_extensions must be bare extensions such as \"php\""
  | .zeroFileSize => "max_file_size_bytes must be > 0"
  | .zeroBatchSize => "batch sizes must be > 0"

namespace IndexConfig

/-- Whether an extension is empty or comes with its dot. -/
def isBadExtension (extension : String) : Bool :=
  extension.toList.head?.all (· == '.')

/-- The first fault of the settings, if there is one. -/
def fault? (c : IndexConfig) : Option ConfigError :=
  if c.indexRoot.bytes = [] then some .noIndexRoot
  else if c.projectRoot.bytes = [] then some .noProjectRoot
  else if !c.projectRoot.isAbsolute then some (.relativeProjectRoot c.projectRoot)
  else
    match c.stubPaths.find? (fun stub => !stub.isAbsolute) with
    | some stub => some (.relativeStub stub)
    | none =>
      if c.includePatterns = [] then some .noIncludePatterns
      else if c.supportedExtensions.any isBadExtension then some .badExtension
      else if c.maxFileSizeBytes = 0 then some .zeroFileSize
      else if c.storeBatchSize = 0 ∨ c.searchBatchSize = 0 then some .zeroBatchSize
      else none

/-! ## Reading -/

/-- The text of a string. -/
def text? : Toml → Option String
  | .string s => some s
  | _ => none

/-- The texts of an array of strings. -/
def texts? : Toml → Option (List String)
  | .array items => items.mapM text?
  | _ => none

/-- A number that is not negative. -/
def size? : Toml → Option Nat
  | .integer i => if 0 ≤ i then some i.toNat else none
  | _ => none

/-- A truth value. -/
def flag? : Toml → Option Bool
  | .boolean b => some b
  | _ => none

/-- The entries of a table, however it is written. -/
def entries? : Toml → Option Toml.Entries
  | .inlineTable entries => some entries
  | .table _ _ entries => some entries
  | _ => none

/-- Whether a value is a table or an array with nothing in it. -/
def isNothing : Toml → Bool
  | .array items => items.isEmpty
  | .inlineTable entries => entries.isEmpty
  | .table _ _ entries => entries.isEmpty
  | _ => false

/-- A backend: its name, or a table whose only key is its name with nothing under it. -/
def backend? (t : Toml) : Option Backend :=
  match t with
  | .string s => Backend.ofName? s
  | _ =>
    match entries? t with
    | some [(name, value)] => if isNothing value then Backend.ofName? name else none
    | _ => none

/-- The settings with one more setting given. -/
def assign (c : IndexConfig) (setting : String × Toml) : Option IndexConfig :=
  let value := setting.2
  match setting.1 with
  | "index_root" => (text? value).map (fun s => { c with indexRoot := .ofString s })
  | "project_root" => (text? value).map (fun s => { c with projectRoot := .ofString s })
  | "backend" => (backend? value).map (fun b => { c with backend := b })
  | "include_patterns" => (texts? value).map (fun l => { c with includePatterns := l })
  | "exclude_patterns" => (texts? value).map (fun l => { c with excludePatterns := l })
  | "supported_extensions" => (texts? value).map (fun l => { c with supportedExtensions := l })
  | "stub_paths" => (texts? value).map (fun l => { c with stubPaths := l.map .ofString })
  | "follow_symlinks" => (flag? value).map (fun b => { c with followSymlinks := b })
  | "max_file_size_bytes" => (size? value).map (fun n => { c with maxFileSizeBytes := n })
  | "store_batch_size" => (size? value).map (fun n => { c with storeBatchSize := n })
  | "search_batch_size" => (size? value).map (fun n => { c with searchBatchSize := n })
  | _ => none

/-- The settings that a text gives, whether or not they fit together. -/
def ofToml? (source : String) : Option IndexConfig := do
  (← Toml.parse? source).foldlM assign {}

end IndexConfig

/-- Why an operation of an index fails. -/
inductive IndexError where
  | io (cause : DiskError)
  | database (cause : DatabaseError)
  | store (cause : StoreError)
  | search (cause : SearchError)
  | config (cause : ConfigError)
  | toml
  | pattern
  /-- The lock of the index could not be taken. -/
  | lock (cause : DiskError)
  deriving DecidableEq

namespace IndexConfig

/-- The settings that a text gives. -/
def parse (source : String) : Except IndexError IndexConfig :=
  match ofToml? source with
  | none => .error .toml
  | some c =>
    match c.fault? with
    | some e => .error (.config e)
    | none => .ok c

/-- The settings that a file gives. -/
def load (path : Path) : Script (Except IndexError IndexConfig) := do
  match ← Script.ask (.read path) with
  | .error e => return .error (.io e)
  | .ok bytes =>
    match Text.decode? bytes with
    | some source => return parse source
    | none => return .error (.io .invalidText)

end IndexConfig

end SymbolIndex
