import SymbolIndex.Path

/-!
# System.Disk — files, directories and links

A disk is a list of nodes by address. An address lists names from the leaf to the root, so that
the address of the parent is the tail. Each file has a number of its own that it keeps when it is
renamed: an open file is that number, and a write to it lands in the file wherever it is by then,
or nowhere once the file is gone.

An operation that fails changes nothing.
-/

namespace SymbolIndex

open SymbolIndex.Text (Bytes)

/-- The names from a node up to the root. -/
abbrev Address := List Name

/-- Why an operation on a disk fails. -/
inductive DiskError where
  | notFound
  | notDirectory
  | isDirectory
  | alreadyExists
  | notEmpty
  | tooManyLinks
  | nameTooLong
  | invalidPath
  /-- A file was read as text and is none. -/
  | invalidText
  deriving DecidableEq

/-- What stands at an address. Times are in milliseconds since the epoch. -/
inductive Node where
  | file (id : Nat) (content : Bytes) (modified : Int)
  | directory (modified : Int)
  | link (target : Path)
  deriving DecidableEq

/-- The kind of a node. -/
inductive NodeKind where
  | file
  | directory
  | link
  deriving DecidableEq

/-- The kind of a node. -/
def Node.kind : Node → NodeKind
  | .file .. => .file
  | .directory .. => .directory
  | .link .. => .link

/-- What is known of a path without reading it. -/
structure Metadata where
  address : Address
  kind : NodeKind
  size : Nat
  modified : Int
  deriving DecidableEq

/-- The nodes of a disk, the address of the working directory and the number of the next new
file. -/
structure Disk where
  nodes : List (Address × Node)
  workingDirectory : Address
  nextId : Nat

namespace Disk

/-- A disk with the root alone. -/
def empty : Disk := ⟨[], [], 0⟩

/-- The node at an address. The root is always a directory. -/
def node? (d : Disk) (here : Address) : Option Node :=
  match here with
  | [] => some (.directory 0)
  | _ => (d.nodes.find? (fun e => e.1 == here)).map (·.2)

/-- The disk with a node at an address. -/
def put (d : Disk) (here : Address) (node : Node) : Disk :=
  { d with nodes := (here, node) :: d.nodes.filter (fun e => e.1 != here) }

/-- Whether an address is another one or lies under it. -/
def isUnder (here base : Address) : Bool := base.isSuffixOf here

/-- The disk without an address and all that lies under it. -/
def drop (d : Disk) (here : Address) : Disk :=
  { d with nodes := d.nodes.filter (fun e => !isUnder e.1 here) }

/-! ## From paths to addresses -/

/-- The most bytes a name may have. -/
def maxNameLength : Nat := 255

/-- The most bytes a path may have. -/
def maxPathLength : Nat := 4095

/-- The most links a path may lead through. -/
def maxLinks : Nat := 40

/-- The name of the parent directory. -/
def dotDot : Name := [dot, dot]

/-- Whether a path can only name a directory. -/
def endsInSlash (p : Path) : Bool :=
  match (Path.pieces p.bytes).getLast? with
  | some name => name == [] || name == [dot]
  | none => false

/-- Where a path leads. -/
inductive Place where
  /-- A node is there. -/
  | found (here : Address) (node : Node)
  /-- Nothing is there, but its directory is. -/
  | vacant (here : Address)
  deriving DecidableEq

/-- Follow names from a directory. A link in last place is followed only if `follow` holds or the
path can only name a directory. -/
def walk (d : Disk) (follow mustBeDirectory : Bool) (links : Nat) (here : Address) :
    List Name → Except DiskError Place
  | [] =>
    match d.node? here with
    | some node => .ok (.found here node)
    | none => .error .notFound
  | name :: rest =>
    if name = dotDot then walk d follow mustBeDirectory links here.tail rest
    else if maxNameLength < name.length then .error .nameTooLong
    else
      match d.node? (name :: here) with
      | none => if rest = [] then .ok (.vacant (name :: here)) else .error .notFound
      | some (.directory _) => walk d follow mustBeDirectory links (name :: here) rest
      | some (.file id content modified) =>
        if rest = [] ∧ !mustBeDirectory then .ok (.found (name :: here) (.file id content modified))
        else .error .notDirectory
      | some (.link target) =>
        if rest = [] ∧ !follow ∧ !mustBeDirectory then .ok (.found (name :: here) (.link target))
        else
          match links with
          | 0 => .error .tooManyLinks
          | links + 1 =>
            walk d follow (mustBeDirectory || (rest = [] && endsInSlash target)) links
              (if target.isAbsolute then [] else here) (target.components ++ rest)
termination_by names => (links, names.length)

/-- Where a path leads. -/
def locate (d : Disk) (follow : Bool) (p : Path) : Except DiskError Place :=
  if p.bytes = [] then .error .notFound
  else if p.bytes.contains 0 then .error .invalidPath
  else if maxPathLength < p.bytes.length then .error .nameTooLong
  else
    walk d follow (endsInSlash p) maxLinks (if p.isAbsolute then [] else d.workingDirectory)
      p.components

/-- The node a path leads to. -/
def find (d : Disk) (follow : Bool) (p : Path) : Except DiskError (Address × Node) :=
  match d.locate follow p with
  | .ok (.found here node) => .ok (here, node)
  | .ok (.vacant _) => .error .notFound
  | .error e => .error e

/-! ## Operations -/

/-- What is known of the node a path leads to. -/
def stat (d : Disk) (p : Path) : Except DiskError Metadata :=
  match d.find true p with
  | .ok (here, .file _ content modified) => .ok ⟨here, .file, content.length, modified⟩
  | .ok (here, .directory modified) => .ok ⟨here, .directory, 0, modified⟩
  | .ok (here, .link _) => .ok ⟨here, .link, 0, 0⟩
  | .error e => .error e

/-- The content of a file. -/
def read (d : Disk) (p : Path) : Except DiskError Bytes :=
  match d.find true p with
  | .ok (_, .file _ content _) => .ok content
  | .ok _ => .error .isDirectory
  | .error e => .error e

/-- Put a name in its place among names in the order of their bytes. -/
def insertName (entry : Name × NodeKind) : List (Name × NodeKind) → List (Name × NodeKind)
  | [] => [entry]
  | e :: rest => if entry.1 < e.1 then entry :: e :: rest else e :: insertName entry rest

/-- The entries of a directory in the order of their bytes. -/
def readDirectory (d : Disk) (p : Path) : Except DiskError (List (Name × NodeKind)) :=
  match d.find true p with
  | .ok (here, .directory _) =>
    .ok (d.nodes.foldr
      (fun e found =>
        match e.1 with
        | name :: parent => if parent = here then insertName (name, e.2.kind) found else found
        | [] => found)
      [])
  | .ok _ => .error .notDirectory
  | .error e => .error e

/-- Open the file at a path, a new one if there is none; `truncate` says whether its content is
dropped. -/
def openFile (d : Disk) (now : Int) (truncate : Bool) (p : Path) : Except DiskError (Nat × Disk) :=
  match d.locate true p with
  | .ok (.found here (.file id _ _)) =>
    .ok (id, if truncate then d.put here (.file id [] now) else d)
  | .ok (.found _ _) => .error .isDirectory
  | .ok (.vacant here) =>
    if endsInSlash p then .error .isDirectory
    else .ok (d.nextId, { d.put here (.file d.nextId [] now) with nextId := d.nextId + 1 })
  | .error e => .error e

/-- A node after bytes were written at the end of the file of a number. -/
def Node.append (id : Nat) (bytes : Bytes) (now : Int) : Node → Node
  | .file id' content modified =>
    if id' = id then .file id' (content ++ bytes) now else .file id' content modified
  | node => node

/-- Write bytes at the end of an open file. -/
def append (d : Disk) (now : Int) (id : Nat) (bytes : Bytes) : Disk :=
  { d with nodes := d.nodes.map (fun e => (e.1, Node.append id bytes now e.2)) }

/-- Remove a file or a link. -/
def removeFile (d : Disk) (p : Path) : Except DiskError Disk :=
  match d.find false p with
  | .ok (_, .directory _) => .error .isDirectory
  | .ok (here, _) => .ok (d.drop here)
  | .error e => .error e

/-- Remove a directory with all that lies under it, or a link. -/
def removeTree (d : Disk) (p : Path) : Except DiskError Disk :=
  match d.find false p with
  | .ok (_, .file ..) => .error .notDirectory
  | .ok (here, _) => .ok (d.drop here)
  | .error e => .error e

/-- Whether a directory has no entries. -/
def isVacant (d : Disk) (here : Address) : Bool :=
  d.nodes.all (fun e => e.1 == here || !isUnder e.1 here)

/-- The disk with a node and all that lies under it moved. -/
def move (d : Disk) (source target : Address) : Disk :=
  let moved := (d.nodes.filter (fun e => isUnder e.1 source)).map
    (fun e => (e.1.take (e.1.length - source.length) ++ target, e.2))
  let rest := (d.drop source).drop target
  { rest with nodes := moved ++ rest.nodes }

/-- Move a node to a path, in place of what is there. -/
def rename (d : Disk) (source target : Path) : Except DiskError Disk :=
  match d.find false source, d.locate false target with
  | .error e, _ => .error e
  | _, .error e => .error e
  | .ok (here, node), .ok (.vacant there) =>
    if node.kind ≠ .directory ∧ endsInSlash target then .error .notDirectory
    else if isUnder there here then .error .invalidPath
    else .ok (d.move here there)
  | .ok (here, node), .ok (.found there node') =>
    if there = here then .ok d
    else if isUnder there here then .error .invalidPath
    else
      match decide (node.kind = .directory), decide (node'.kind = .directory) with
      | false, true => .error .isDirectory
      | true, false => .error .notDirectory
      | true, true => if d.isVacant there then .ok (d.move here there) else .error .notEmpty
      | false, false => .ok (d.move here there)

/-- Create the missing directories on the way along some names. `passed` are the names that were
followed so far. -/
def createAlong (now : Int) (start : Address) (d : Disk) (passed : List Name) :
    List Name → Except DiskError Disk
  | [] => .ok d
  | name :: rest =>
    let names := passed ++ [name]
    match d.walk true false maxLinks start names with
    | .ok (.found _ (.directory _)) => createAlong now start d names rest
    | .ok (.found _ _) => .error .alreadyExists
    | .ok (.vacant here) =>
      match d.walk false false maxLinks start names with
      | .ok (.vacant _) => createAlong now start (d.put here (.directory now)) names rest
      | _ => .error .alreadyExists
    | .error e => .error e

/-- Create a directory and every directory that leads to it, as far as they are missing. -/
def createDirectories (d : Disk) (now : Int) (p : Path) : Except DiskError Disk :=
  if p.bytes.contains 0 then .error .invalidPath
  else if maxPathLength < p.bytes.length then .error .nameTooLong
  else createAlong now (if p.isAbsolute then [] else d.workingDirectory) d [] p.components

end Disk

end SymbolIndex
