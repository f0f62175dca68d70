import SymbolIndex.Database.Basic
import SymbolIndex.System.Disk

/-!
# System.Script — what a component asks of the system

A component reaches files, the clock and the database through calls, one at a time. A script is a
computation that makes calls: it is done, or it makes a call and goes on with the answer. Running
a script in a world performs its calls in order. Because the calls stand in the script one by one,
so do the points at which a process can die, another process can come in between, or a call can
fail.
-/

namespace SymbolIndex

open SymbolIndex.Text (Bytes)

/-- One request to the system, by the type of its answer. -/
inductive Call : Type → Type 1 where
  /-- The content of a file. -/
  | read (path : Path) : Call (Except DiskError Bytes)
  /-- Open a file for writing, a new one if there is none; its content is dropped. -/
  | create (path : Path) : Call (Except DiskError Nat)
  /-- Open a file for writing at its end, a new one if there is none. -/
  | openAppend (path : Path) : Call (Except DiskError Nat)
  /-- Write bytes at the end of an open file. -/
  | append (file : Nat) (bytes : Bytes) : Call (Except DiskError Unit)
  /-- Move a node to another path, in place of what is there. -/
  | rename (source target : Path) : Call (Except DiskError Unit)
  /-- Remove a file or a link. -/
  | removeFile (path : Path) : Call (Except DiskError Unit)
  /-- Remove a directory with all that lies under it. -/
  | removeTree (path : Path) : Call (Except DiskError Unit)
  /-- Create a directory and those that lead to it. -/
  | createDirectories (path : Path) : Call (Except DiskError Unit)
  /-- What is known of the node a path leads to. -/
  | stat (path : Path) : Call (Except DiskError Metadata)
  /-- The entries of a directory, in the order of their bytes. -/
  | readDirectory (path : Path) : Call (Except DiskError (List (Name × NodeKind)))
  /-- The clock, in milliseconds since the epoch. -/
  | now : Call Int64
  /-- Open the database at a path, a new one if there is none. -/
  | connect (path : Path) : Call (Except DatabaseError Unit)
  /-- Run a transaction. -/
  | transact {β : Type} (action : Transaction β) : Call (Except DatabaseError β)

/-- A computation that makes calls. -/
inductive Script (α : Type) : Type 1 where
  | done (result : α)
  | call {β : Type} (request : Call β) (next : β → Script α)

namespace Script

variable {α β γ : Type}

/-- Go on with the result. -/
def bind (s : Script α) (f : α → Script β) : Script β :=
  match s with
  | .done a => f a
  | .call request next => .call request (fun b => (next b).bind f)

instance : Monad Script where
  pure := .done
  bind := bind

theorem bind_done (s : Script α) : s.bind .done = s := by
  induction s with
  | done a => rfl
  | call request next ih => exact congrArg (Script.call request) (funext ih)

theorem bind_bind (s : Script α) (f : α → Script β) (g : β → Script γ) :
    (s.bind f).bind g = s.bind (fun a => (f a).bind g) := by
  induction s with
  | done a => rfl
  | call request next ih => exact congrArg (Script.call request) (funext ih)

instance : LawfulMonad Script := LawfulMonad.mk' Script
  bind_done
  (fun _ _ => rfl)
  bind_bind

/-- The script of one call. -/
def ask (request : Call α) : Script α := .call request .done

/-- The entries of a directory, none if it cannot be read. -/
def entries (path : Path) : Script (List (Name × NodeKind)) := do
  match ← ask (.readDirectory path) with
  | .error _ => return []
  | .ok found => return found

/-- What a script gives for each element of a list, in order. -/
def collect (f : α → Script (List β)) : List α → Script (List β)
  | [] => return []
  | a :: rest => do
    let found ← f a
    return found ++ (← collect f rest)

end Script

/-- Everything outside of a process: a disk, a database and a clock. -/
structure World where
  disk : Disk
  database : Database
  clock : Int64

namespace World

/-- Change the disk, or fail. -/
def onDisk (w : World) {α : Type} (result : Except DiskError (α × Disk)) :
    Except DiskError α × World :=
  match result with
  | .ok (a, disk) => (.ok a, { w with disk := disk })
  | .error e => (.error e, w)

/-- Change the disk without a result, or fail. -/
def withDisk (w : World) (result : Except DiskError Disk) : Except DiskError Unit × World :=
  w.onDisk (result.map (fun disk => ((), disk)))

/-- The clock as a time of the disk. -/
def time (w : World) : Int := w.clock.toInt

end World

/-- Perform a call. The clock goes on by one with each reading. -/
def Call.perform {β : Type} (request : Call β) (w : World) : β × World :=
  match request with
  | .read path => (w.disk.read path, w)
  | .create path => w.onDisk (w.disk.openFile w.time true path)
  | .openAppend path => w.onDisk (w.disk.openFile w.time false path)
  | .append file bytes => w.withDisk (.ok (w.disk.append w.time file bytes))
  | .rename source target => w.withDisk (w.disk.rename source target)
  | .removeFile path => w.withDisk (w.disk.removeFile path)
  | .removeTree path => w.withDisk (w.disk.removeTree path)
  | .createDirectories path => w.withDisk (w.disk.createDirectories w.time path)
  | .stat path => (w.disk.stat path, w)
  | .readDirectory path => (w.disk.readDirectory path, w)
  | .now => (w.clock, { w with clock := w.clock + 1 })
  | .connect path =>
    match w.disk.stat path, w.disk.openFile w.time false path with
    | .ok _, .ok _ => (.ok (), w)
    | .error _, .ok (_, disk) => (.ok (), { w with disk := disk, database := {} })
    | _, .error _ => (.error .statement, w)
  | .transact action =>
    match action w.database with
    | .ok (b, database) => (.ok b, { w with database := database })
    | .error e => (.error e, w)

/-- Run a script to its end. -/
def Script.run {α : Type} : Script α → World → α × World
  | .done a, w => (a, w)
  | .call request next, w =>
    let answer := request.perform w
    (next answer.1).run answer.2

/-- A computation of a component with a state of its own. The state stands also when it fails. -/
abbrev Action (σ ε α : Type) := ExceptT ε (StateT σ Script) α

namespace Action

variable {σ ε α : Type}

/-- The action of a script that may fail. -/
def ofScript (s : Script (Except ε α)) : Action σ ε α := fun state => s.bind (fun a => .done (a, state))

/-- The action of a script that cannot fail. -/
def ofPlain (s : Script α) : Action σ ε α := ofScript (s.bind (fun a => .done (.ok a)))

/-- An action on a part of the state. -/
def within {τ δ : Type} (view : σ → τ) (update : σ → τ → σ) (wrap : δ → ε) (a : Action τ δ α) :
    Action σ ε α := fun state =>
  (a (view state)).bind (fun r => .done (r.1.mapError wrap, update state r.2))

/-- The action of one call. -/
def ask {δ : Type} (wrap : δ → ε) (request : Call (Except δ α)) : Action σ ε α :=
  ofScript ((Script.ask request).bind (fun answer => .done (answer.mapError wrap)))

end Action

end SymbolIndex
