import Mathlib.Logic.Function.Basic
import SymbolIndex.Proofs.Dirty.Log
import SymbolIndex.Proofs.Store.Opening

/-!
# Proofs.Dirty.Handles — handles that share one log

Each handle remembers for itself what it has marked, and the log is kept once for all of them. `Shared` is
such a log with its handles, and `Shared.serve` lets one of them do what it is asked.

* A log that lists nothing, or is not there yet, is opened without an error (`outcome_open_blank`), and opened
  anew it is left as it is (`outcome_open_kept`).
* What a command answers and leaves hangs on the entries of the log and on what its handle remembers
  (`Command.answers`, `Command.leaves`, `Command.recalls`), and nothing else (`Kept.act_outcome`).
* So requests are answered as a board answers them: a list of entries, and a set for each handle
  (`Board`, `Board.Shows.serveAll`). No request fails.
-/

namespace SymbolIndex

open Action (outcome)

set_option autoImplicit false

namespace DirtyLog

/-- What is asked of a handle. A handle that is opened anew takes the place of the one before. -/
inductive Command where
  | reopen
  | mark (path : String)
  | clear (path : String)
  | drain

/-- A command, and the handle that it is given to. -/
structure Request where
  handle : Nat
  command : Command

/-- What a command gives: the URIs of a drain, and none for the others. -/
abbrev Answer := Except DirtyError (List String)

/-- A command as an action of its handle. -/
def Command.act (backend : Backend) (root : Path) : Command → Marked (List String)
  | .reopen => do
    let log ← Action.ofScript (DirtyLog.open backend root)
    set log
    return []
  | .mark path => do
    DirtyLog.mark path
    return []
  | .clear path => do
    DirtyLog.clear path
    return []
  | .drain => DirtyLog.drain

/-- Handles on one log, and the world that keeps it. -/
structure Shared where
  held : Nat → DirtyLog
  world : World

namespace Shared

variable (backend : Backend) (root : Path)

/-- A request is served by its handle. -/
def serve (s : Shared) (r : Request) : Answer × Shared :=
  let (answer, log, w) := outcome (r.command.act backend root) (s.held r.handle) s.world
  (answer, ⟨Function.update s.held r.handle log, w⟩)

/-- Request after request. -/
def serveAll (s : Shared) : List Request → List Answer × Shared
  | [] => ([], s)
  | r :: later =>
    let (answer, s') := s.serve backend root r
    let (answers, s'') := serveAll s' later
    (answer :: answers, s'')

/-- What the requests are answered, one by one. -/
def answers (s : Shared) (requests : List Request) : List Answer :=
  (s.serveAll backend root requests).1

end Shared

/-! ## Logs that can be opened -/

variable {backend : Backend} {root : Path} {base : Address} {marks : List String} {w : World}

/-- A log of a kind is there and lists some entries. -/
inductive Kept (root : Path) (base : Address) (marks : List String) (w : World) : Backend → Prop where
  | file (logged : FileLog.Logged root base marks w.disk) : Kept root base marks w .file
  | table (hosts : w.disk.Hosts root base)
      (there : ∃ id c m, w.disk.node? (databasePart :: base) = some (.file id c m))
      (holds : TableLog.Holds w.database marks) : Kept root base marks w .sqlite

/-- A log of a kind is not there yet, or lists nothing. -/
inductive Blank (root : Path) (base : Address) (w : World) : Backend → Prop where
  | fresh {backend : Backend} (fresh : w.Fresh root base) : Blank root base w backend
  | unmade (hosts : w.disk.Hosts root base)
      (there : ∃ id c m, w.disk.node? (databasePart :: base) = some (.file id c m))
      (missing : w.database.dirty = none) : Blank root base w .sqlite
  | kept {backend : Backend} (kept : Kept root base [] w backend) : Blank root base w backend

/-- A handle that remembers some URIs. -/
def remembering (backend : Backend) (root : Path) (known : SortedSet String) : DirtyLog :=
  match backend with
  | .file => .file ⟨root.child FileLog.fileName, known⟩
  | .sqlite => .table ⟨known⟩

theorem path_remembering (root : Path) (known : SortedSet String) :
    (⟨root.child FileLog.fileName, known⟩ : FileLog).path = root.below ([] ++ [FileLog.logPart]) := rfl

theorem outcome_open_file (hosts : w.disk.Hosts root base) :
    Script.outcome (DirtyLog.open .file root) w = (.ok (remembering .file root .empty), w) := by
  have made : Script.outcome (ExceptT.lift (Script.ask (.createDirectories root)) :
      ExceptT DirtyError Script _) w = (.ok (.ok ()), w) := by
    rw [Script.outcome_lift, Script.run_createDirectories hosts.createDirectories_self]
  rw [DirtyLog.open, Script.outcome_bind_ok made]
  rfl

theorem outcome_open_table {d : Disk} {db db' : Database} (hosts : w.disk.Hosts root base)
    (connected : (Script.ask (.connect (databasePath root))).run w =
      (.ok (), { w with disk := d, database := db }))
    (ensured : Table.dirty.ensure db = .ok ((), db')) :
    Script.outcome (DirtyLog.open .sqlite root) w =
      (.ok (remembering .sqlite root .empty), { w with disk := d, database := db' }) := by
  have made : Script.outcome (ExceptT.lift (Script.ask (.createDirectories root)) :
      ExceptT DirtyError Script _) w = (.ok (.ok ()), w) := by
    rw [Script.outcome_lift, Script.run_createDirectories hosts.createDirectories_self]
  have joined : Script.outcome (ExceptT.lift (Script.ask (.connect (databasePath root))) :
      ExceptT DirtyError Script _) w = (.ok (.ok ()), { w with disk := d, database := db }) := by
    rw [Script.outcome_lift, connected]
  have marked : Script.outcome (ExceptT.lift (Script.ask (.transact Table.dirty.ensure)) :
      ExceptT DirtyError Script _) { w with disk := d, database := db } =
        (.ok (.ok ()), { w with disk := d, database := db' }) := by
    rw [Script.outcome_lift, Script.run_ask]
    simp only [Call.perform, ensured]
  rw [DirtyLog.open, Script.outcome_bind_ok made]
  simp only
  rw [Script.outcome_bind_ok joined]
  simp only
  rw [Script.outcome_bind_ok marked]
  rfl

/-- Opening a log that is there changes nothing. -/
theorem outcome_open_kept (kept : Kept root base marks w backend) :
    Script.outcome (DirtyLog.open backend root) w = (.ok (remembering backend root .empty), w) := by
  cases kept with
  | file logged => exact outcome_open_file logged.hosts
  | table hosts there holds =>
      obtain ⟨id, c, m, file⟩ := there
      obtain ⟨rows, dirty, -⟩ := holds
      exact outcome_open_table hosts (connect_again hosts file) (Table.ensure_there dirty)

/-- **A log that lists nothing, or is not there yet, is opened without an error.** -/
theorem outcome_open_blank (blank : Blank root base w backend) :
    ∃ w', Script.outcome (DirtyLog.open backend root) w =
        (.ok (remembering backend root .empty), w') ∧ Kept root base [] w' backend := by
  have created : ∀ {w' : World} {d : Disk} {db : Database}, w'.disk.Hosts root base → d.Hosts root base →
      (Script.ask (.connect (databasePath root))).run w' = (.ok (), { w' with disk := d, database := db }) →
      (∃ id c m, d.node? (databasePart :: base) = some (.file id c m)) → db.dirty = none →
      ∃ w'', Script.outcome (DirtyLog.open .sqlite root) w' =
        (.ok (remembering .sqlite root .empty), w'') ∧ Kept root base [] w'' .sqlite :=
    fun hosts hosts' connected there missing =>
      ⟨_, outcome_open_table hosts connected (Table.ensure_missing missing),
        .table hosts' there ⟨[], rfl, rfl⟩⟩
  cases blank with
  | kept kept => exact ⟨w, outcome_open_kept kept, kept⟩
  | unmade hosts there missing =>
      obtain ⟨id, c, m, file⟩ := there
      exact created hosts hosts (connect_again hosts file) ⟨id, c, m, file⟩ missing
  | fresh fresh =>
      cases backend with
      | file =>
          have bare : ∀ name : Name, w.disk.node? (name :: base) = none := fun name =>
            fresh.bare (Disk.below_cons name base)
          refine ⟨w, outcome_open_file fresh.hosts, .file ⟨fresh.hosts, ?_, ?_, bare _, [], ?_, rfl⟩⟩
          · simp [bare]
          · simp [bare]
          · rw [Disk.contentAt, bare]
            rfl
      | sqlite =>
          obtain ⟨d, connected, hosts, -, there⟩ := fresh.connect
          exact created fresh.hosts hosts connected there rfl

/-! ## One command -/

namespace Command

/-- What a command answers when the log lists some entries. -/
def answers (marks : List String) : Command → List String
  | .drain => firstOccurrences marks
  | _ => []

/-- The entries that a command leaves, when its handle remembers some URIs. -/
def leaves (backend : Backend) (known : SortedSet String) (marks : List String) : Command → List String
  | .reopen => marks
  | .mark path =>
    if known.contains (Uri.normalize path) then marks else marks ++ added backend (Uri.normalize path)
  | .clear path => marks.filter (· ≠ Uri.normalize path)
  | .drain => []

/-- What its handle remembers after a command. A drain of a table without entries leaves its handle as it
is. -/
def recalls (backend : Backend) (known : SortedSet String) (marks : List String) :
    Command → SortedSet String
  | .reopen => .empty
  | .mark path =>
    if known.contains (Uri.normalize path) then known else known.insert (Uri.normalize path)
  | .clear path => known.erase (Uri.normalize path)
  | .drain => if backend = .sqlite ∧ marks = [] then known else .empty

end Command

namespace Kept

/-- A mark, exactly. -/
theorem mark_outcome (kept : Kept root base marks w backend) (known : SortedSet String) (path : String) :
    ∃ w', outcome (DirtyLog.mark path) (remembering backend root known) w =
        (.ok (), remembering backend root ((Command.mark path).recalls backend known marks), w') ∧
      Kept root base ((Command.mark path).leaves backend known marks) w' backend := by
  by_cases remembered : known.contains (Uri.normalize path) = true
  · rw [Command.recalls, Command.leaves, if_pos remembered, if_pos remembered]
    cases kept with
    | file logged => exact ⟨w, outcome_file (FileLog.mark_known remembered), .file logged⟩
    | table hosts there holds =>
        exact ⟨w, outcome_table (TableLog.mark_known remembered), .table hosts there holds⟩
  · rw [Command.recalls, Command.leaves, if_neg remembered, if_neg remembered]
    cases kept with
    | file logged =>
        obtain ⟨d, done, logged', -⟩ := logged.mark_new (path_remembering root known) remembered
        exact ⟨_, outcome_file done, .file logged'⟩
    | table hosts there holds =>
        obtain ⟨db, done, holds', -⟩ := holds.mark_new ⟨known⟩ remembered
        exact ⟨_, outcome_table done, .table hosts there holds'⟩

/-- A clear, exactly. -/
theorem clear_outcome (kept : Kept root base marks w backend) (known : SortedSet String) (path : String) :
    ∃ w', outcome (DirtyLog.clear path) (remembering backend root known) w =
        (.ok (), remembering backend root ((Command.clear path).recalls backend known marks), w') ∧
      Kept root base ((Command.clear path).leaves backend known marks) w' backend := by
  cases kept with
  | file logged =>
      obtain ⟨d, done, logged', -⟩ := logged.clear (path_remembering root known) path
      exact ⟨_, outcome_file done, .file logged'⟩
  | table hosts there holds =>
      obtain ⟨db, done, holds', -⟩ := holds.clear ⟨known⟩ path
      exact ⟨_, outcome_table done, .table hosts there holds'⟩

/-- A drain, exactly. -/
theorem drain_outcome (kept : Kept root base marks w backend) (known : SortedSet String) :
    ∃ w', outcome DirtyLog.drain (remembering backend root known) w =
        (.ok (firstOccurrences marks),
          remembering backend root (Command.drain.recalls backend known marks), w') ∧
      Kept root base [] w' backend := by
  cases kept with
  | file logged =>
      obtain ⟨d, done, logged', -⟩ := logged.drain (path_remembering root known)
      exact ⟨_, outcome_file done, .file logged'⟩
  | table hosts there holds =>
      obtain ⟨db, done, holds', -⟩ := holds.drain ⟨known⟩
      refine ⟨{ w with database := db }, ?_, .table hosts there holds'⟩
      rw [DirtyLog.drain, remembering, outcome_table done, Command.recalls]
      by_cases nothing : marks = []
      · rw [if_pos nothing, if_pos ⟨rfl, nothing⟩]
        rfl
      · rw [if_neg nothing, if_neg fun both => nothing both.2]
        rfl

/-- **One command, exactly.** -/
theorem act_outcome (kept : Kept root base marks w backend) (known : SortedSet String) (c : Command) :
    ∃ w', outcome (c.act backend root) (remembering backend root known) w =
        (.ok (c.answers marks), remembering backend root (c.recalls backend known marks), w') ∧
      Kept root base (c.leaves backend known marks) w' backend := by
  cases c with
  | reopen =>
      have opened : outcome (Action.ofScript (DirtyLog.open backend root) : Marked DirtyLog)
          (remembering backend root known) w =
          (.ok (remembering backend root .empty), remembering backend root known, w) := by
        have run := outcome_open_kept kept
        rw [Script.outcome] at run
        rw [Action.outcome_ofScript, show Script.run (DirtyLog.open backend root) w = _ from run]
      refine ⟨w, ?_, kept⟩
      rw [Command.act, Action.outcome_bind_ok opened, Action.outcome_bind_ok (Action.outcome_set _ _ _)]
      rfl
  | mark path =>
      obtain ⟨w', done, kept'⟩ := kept.mark_outcome known path
      exact ⟨w', Action.outcome_bind_ok done, kept'⟩
  | clear path =>
      obtain ⟨w', done, kept'⟩ := kept.clear_outcome known path
      exact ⟨w', Action.outcome_bind_ok done, kept'⟩
  | drain => exact kept.drain_outcome known

end Kept

/-! ## Many handles -/

/-- The entries of a log, and what each of its handles remembers. -/
structure Board where
  entries : List String
  known : Nat → SortedSet String

namespace Board

/-- What a request leaves on the board. -/
def after (backend : Backend) (b : Board) (r : Request) : Board :=
  ⟨r.command.leaves backend (b.known r.handle) b.entries,
    Function.update b.known r.handle (r.command.recalls backend (b.known r.handle) b.entries)⟩

/-- What the requests are answered by the board. -/
def answers (backend : Backend) (b : Board) : List Request → List (List String)
  | [] => []
  | r :: later => r.command.answers b.entries :: answers backend (b.after backend r) later

/-- A log and its handles are as the board shows them. -/
structure Shows (backend : Backend) (root : Path) (base : Address) (b : Board) (s : Shared) : Prop where
  held : ∀ i, s.held i = remembering backend root (b.known i)
  kept : Kept root base b.entries s.world backend

namespace Shows

variable {b : Board} {s : Shared}

/-- A request is served as the board says. -/
theorem serve (shows_ : Shows backend root base b s) (r : Request) :
    ∃ s', s.serve backend root r = (.ok (r.command.answers b.entries), s') ∧
      Shows backend root base (b.after backend r) s' := by
  obtain ⟨w', done, kept⟩ := shows_.kept.act_outcome (b.known r.handle) r.command
  refine ⟨⟨Function.update s.held r.handle
    (remembering backend root (r.command.recalls backend (b.known r.handle) b.entries)), w'⟩, ?_,
    fun i => ?_, kept⟩
  · rw [Shared.serve, shows_.held, done]
  · show Function.update s.held _ _ i = remembering backend root (Function.update b.known _ _ i)
    by_cases own : i = r.handle
    · subst own
      rw [Function.update_self, Function.update_self]
    · rw [Function.update_of_ne own, Function.update_of_ne own, shows_.held]

/-- **Requests are answered as the board says**, and none of them fails. -/
theorem serveAll (shows_ : Shows backend root base b s) (requests : List Request) :
    s.answers backend root requests = (b.answers backend requests).map .ok := by
  induction requests generalizing b s with
  | nil => rfl
  | cons r later ih =>
      obtain ⟨s', served, shows'⟩ := shows_.serve r
      have rest := ih shows'
      rw [Shared.answers] at rest ⊢
      rw [Shared.serveAll, served, Board.answers, List.map_cons, ← rest]

end Shows

end Board

end DirtyLog

end SymbolIndex
