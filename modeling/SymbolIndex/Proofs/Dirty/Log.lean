import SymbolIndex.Dirty.Log
import SymbolIndex.Proofs.Database.Rows
import SymbolIndex.Proofs.Dirty.FileLog

/-!
# Proofs.Dirty.Log — a dirty log of either kind stands for its entries

A table of marks stands for the URIs in its rows (`TableLog.Stands`), as a file does for its lines. So each
operation on a log of either kind is one on a list (`DirtyLog.Stands.mark`, `Stands.clear`,
`Stands.drain`), and it changes the world in the place of the log alone (`DirtyLog.Apart`).
-/

namespace SymbolIndex

open Action (outcome)

set_option autoImplicit false

namespace TableLog

/-- Two databases agree apart from the table of marks and its ids. -/
def Apart (db db' : Database) : Prop :=
  db' = { db with dirty := db'.dirty, lastDirtyId := db'.lastDirtyId }

theorem Apart.refl (db : Database) : Apart db db := rfl

/-- The table lists some URIs. -/
def Holds (db : Database) (marks : List String) : Prop :=
  ∃ rows, db.dirty = some rows ∧ marks = rows.map (·.filePath)

/-- The table has a row of a URI. -/
def HasRow (db : Database) (uri : String) : Prop := ∃ rows, db.dirty = some rows ∧ ∃ row ∈ rows, row.filePath = uri

theorem Holds.hasRow_iff {db : Database} {marks : List String} {uri : String} (holds : Holds db marks) :
    HasRow db uri ↔ uri ∈ marks := by
  obtain ⟨rows, there, rfl⟩ := holds
  constructor
  · rintro ⟨rows', there', row, member, same⟩
    obtain rfl := Option.some.inj (there.symm.trans there')
    exact List.mem_map.2 ⟨row, member, same⟩
  · exact fun listed => ⟨rows, there, List.mem_map.1 listed⟩

variable {marks : List String} {log : TableLog} {w : World}

/-- A handle does not make a mark again that it remembers. -/
theorem mark_known {path : String} (known : log.pending.contains (Uri.normalize path) = true) :
    outcome (TableLog.mark path) log w = (.ok (), log, w) := by
  rw [TableLog.mark, Action.outcome_bind_ok (Action.outcome_get _ _), if_pos known]
  rfl

namespace Holds

variable {db : Database}

/-- A row is added at the end. -/
theorem insertMark (holds : Holds db marks) (uri : String) :
    ∃ db', TableLog.insertMark uri db = .ok ((), db') ∧ Holds db' (marks ++ [uri]) ∧ Apart db db' := by
  obtain ⟨rows, there, rfl⟩ := holds
  have read : (get : Transaction Database) db = .ok (db, db) := rfl
  let id := max (nextId (rows.map (·.id))) (db.lastDirtyId + 1)
  refine ⟨{ db with dirty := some (rows ++ [⟨id, uri⟩]), lastDirtyId := id }, ?_, ⟨_, rfl, by simp⟩, rfl⟩
  rw [TableLog.insertMark, Transaction.bind_ok (Table.rows_ok there), Transaction.bind_ok read,
    Transaction.bind_ok (Table.modify_ok there _)]
  rfl

/-- The rows of a URI are removed. -/
theorem deleteMarks (holds : Holds db marks) (uri : String) :
    ∃ db', TableLog.deleteMarks uri db = .ok ((), db') ∧ Holds db' (marks.filter (· ≠ uri)) ∧ Apart db db' := by
  obtain ⟨rows, there, rfl⟩ := holds
  refine ⟨{ db with dirty := some (rows.filter fun r => !(r.filePath == uri)) }, Table.delete_ok there _,
    ⟨_, rfl, ?_⟩, rfl⟩
  rw [List.filter_map]
  congr 1
  exact List.filter_congr fun r _ => by simp [beq_eq_decide]

/-- Every row is taken. -/
theorem takeMarks (holds : Holds db marks) :
    ∃ db', TableLog.takeMarks db = .ok (marks, db') ∧ Holds db' [] ∧ Apart db db' := by
  obtain ⟨rows, there, rfl⟩ := holds
  refine ⟨{ db with dirty := some [] }, ?_, ⟨[], rfl, rfl⟩, rfl⟩
  rw [TableLog.takeMarks, Transaction.bind_ok (Table.rows_ok there), Transaction.bind_ok (Table.modify_ok there _)]
  rfl

/-- A mark that the handle does not remember adds its URI. -/
theorem mark_new (log : TableLog) (holds : Holds w.database marks) {path : String}
    (unknown : ¬ log.pending.contains (Uri.normalize path) = true) :
    ∃ db, outcome (TableLog.mark path) log w = (.ok (),
        ⟨log.pending.insert (Uri.normalize path)⟩, { w with database := db }) ∧
      Holds db (marks ++ [Uri.normalize path]) ∧ Apart w.database db := by
  obtain ⟨db, inserted, holds', apart⟩ := holds.insertMark (Uri.normalize path)
  refine ⟨db, ?_, holds', apart⟩
  rw [TableLog.mark, Action.outcome_bind_ok (Action.outcome_get _ _), if_neg unknown,
    Action.outcome_bind_ok (Action.outcome_transact_ok DirtyError.database inserted),
    Action.outcome_modify]

/-- Clearing a URI takes it out of the entries, and the handle forgets it. -/
theorem clear (log : TableLog) (holds : Holds w.database marks) (path : String) :
    ∃ db, outcome (TableLog.clear path) log w = (.ok (),
        log.forget (Uri.normalize path), { w with database := db }) ∧
      Holds db (marks.filter (· ≠ Uri.normalize path)) ∧ Apart w.database db := by
  obtain ⟨db, deleted, holds', apart⟩ := holds.deleteMarks (Uri.normalize path)
  refine ⟨db, ?_, holds', apart⟩
  rw [TableLog.clear, Action.outcome_bind_ok (Action.outcome_modify _ _ _),
    Action.outcome_transact_ok DirtyError.database deleted]

/-- A drain answers every entry where it stands first, and leaves none. The handle forgets what it
marked if there was an entry. -/
theorem drain (log : TableLog) (holds : Holds w.database marks) :
    ∃ db, outcome TableLog.drain log w = (.ok (firstOccurrences marks),
        if marks = [] then log else fresh, { w with database := db }) ∧
      Holds db [] ∧ Apart w.database db := by
  obtain ⟨db, taken, holds', apart⟩ := holds.takeMarks
  refine ⟨db, ?_, holds', apart⟩
  rw [TableLog.drain, Action.outcome_bind_ok (Action.outcome_transact_ok DirtyError.database taken)]
  by_cases nothing : marks = []
  · simp only [nothing, ne_eq, not_true_eq_false, if_false, if_true]
    rfl
  · simp only [nothing, ne_eq, not_false_eq_true, if_true, if_false]
    rw [Action.outcome_bind_ok (Action.outcome_set _ _ _)]
    rfl

end Holds

/-- A log stands for the URIs that its table lists. What its handle remembers to have marked is among
them. -/
structure Stands (marks : List String) (log : TableLog) (db : Database) : Prop where
  holds : Holds db marks
  pending : ∀ uri ∈ log.pending, uri ∈ marks

namespace Stands

/-- A mark adds its URI, unless this handle has made it already. -/
theorem mark (stands : Stands marks log w.database) (path : String) :
    ∃ marks' log' db, outcome (TableLog.mark path) log w = (.ok (), log', { w with database := db }) ∧
      Stands marks' log' db ∧ Apart w.database db ∧
      (marks' = marks ∨ marks' = marks ++ [Uri.normalize path]) ∧ Uri.normalize path ∈ marks' := by
  obtain ⟨holds, pending⟩ := stands
  by_cases known : log.pending.contains (Uri.normalize path) = true
  · exact ⟨_, log, w.database, mark_known known, ⟨holds, pending⟩, .refl _, .inl rfl,
      pending _ (FileLog.contains_iff.1 known)⟩
  · obtain ⟨db, done, holds', apart⟩ := holds.mark_new log known
    refine ⟨_, _, db, done, ⟨holds', fun uri member => ?_⟩, apart, .inr rfl, by simp⟩
    rcases SortedSet.mem_insert.1 member with rfl | member
    · simp
    · exact List.mem_append_left _ (pending uri member)

/-- Clearing a URI takes it out of the entries. -/
theorem clear (stands : Stands marks log w.database) (path : String) :
    ∃ log' db, outcome (TableLog.clear path) log w = (.ok (), log', { w with database := db }) ∧
      Stands (marks.filter (· ≠ Uri.normalize path)) log' db ∧ Apart w.database db := by
  obtain ⟨holds, pending⟩ := stands
  obtain ⟨db, done, holds', apart⟩ := holds.clear log path
  refine ⟨_, db, done, ⟨holds', fun uri member => ?_⟩, apart⟩
  obtain ⟨member, other⟩ := SortedSet.mem_erase.1 member
  exact List.mem_filter.2 ⟨pending uri member, by simpa using other⟩

/-- A drain answers every entry where it stands first, and leaves none. -/
theorem drain (stands : Stands marks log w.database) :
    ∃ log' db, outcome TableLog.drain log w =
        (.ok (firstOccurrences marks), log', { w with database := db }) ∧
      Stands [] log' db ∧ Apart w.database db := by
  obtain ⟨holds, pending⟩ := stands
  obtain ⟨db, done, holds', apart⟩ := holds.drain log
  refine ⟨_, db, done, ⟨holds', fun uri member => ?_⟩, apart⟩
  split at member
  next nothing => exact nothing ▸ pending uri member
  next => exact absurd member (by simp [fresh])

end Stands

end TableLog

namespace DirtyLog

variable {root : Path} {base : Address} {marks : List String} {backend : Backend} {log : DirtyLog}
  {w : World}

theorem outcome_onEither_file {α : Type} (f : Action FileLog DirtyError α)
    (t : Action TableLog DirtyError α) (l : FileLog) (w : World) :
    outcome (onEither f t) (.file l) w =
      ((outcome f l w).1, .file (outcome f l w).2.1, (outcome f l w).2.2) := by
  have run := Script.run_bind (f l) (fun r => .done (r.1, DirtyLog.file r.2)) w
  unfold outcome
  rw [show onEither f t (.file l) = (f l >>= fun r => .done (r.1, DirtyLog.file r.2)) from rfl, run]
  rfl

theorem outcome_onEither_table {α : Type} (f : Action FileLog DirtyError α)
    (t : Action TableLog DirtyError α) (l : TableLog) (w : World) :
    outcome (onEither f t) (.table l) w =
      ((outcome t l w).1, .table (outcome t l w).2.1, (outcome t l w).2.2) := by
  have run := Script.run_bind (t l) (fun r => .done (r.1, DirtyLog.table r.2)) w
  unfold outcome
  rw [show onEither f t (.table l) = (t l >>= fun r => .done (r.1, DirtyLog.table r.2)) from rfl, run]
  rfl

theorem outcome_file {α : Type} {f : Action FileLog DirtyError α} {t : Action TableLog DirtyError α}
    {l l' : FileLog} {w' : World} {r : Except DirtyError α} (done : outcome f l w = (r, l', w')) :
    outcome (onEither f t) (.file l) w = (r, .file l', w') := by
  rw [outcome_onEither_file, done]

theorem outcome_table {α : Type} {f : Action FileLog DirtyError α} {t : Action TableLog DirtyError α}
    {l l' : TableLog} {w' : World} {r : Except DirtyError α} (done : outcome t l w = (r, l', w')) :
    outcome (onEither f t) (.table l) w = (r, .table l', w') := by
  rw [outcome_onEither_table, done]

/-- A log of a kind stands for some entries. -/
inductive Stands (root : Path) (base : Address) (marks : List String) (w : World) :
    Backend → DirtyLog → Prop where
  | file {l : FileLog} (stands : FileLog.Stands root base marks l w) :
      Stands root base marks w .file (.file l)
  | table {l : TableLog} (stands : TableLog.Stands marks l w.database) :
      Stands root base marks w .sqlite (.table l)

/-- Two worlds agree apart from what a log of a kind keeps in them. -/
inductive Apart (base : Address) (w : World) : Backend → World → Prop where
  | file {d : Disk} (apart : FileLog.Apart base w.disk d) : Apart base w .file { w with disk := d }
  | table {db : Database} (apart : TableLog.Apart w.database db) :
      Apart base w .sqlite { w with database := db }

/-- The entries that a mark adds. A table takes any URI as it is. -/
def added : Backend → String → List String
  | .file, uri => FileLog.linesOf uri
  | .sqlite, uri => [uri]

namespace Stands

/-- A mark adds its entries, unless they are there already. -/
theorem mark (stands : Stands root base marks w backend log) (path : String) :
    ∃ marks' log' w', outcome (DirtyLog.mark path) log w = (.ok (), log', w') ∧
      Stands root base marks' w' backend log' ∧ Apart base w backend w' ∧
      (marks' = marks ∨ marks' = marks ++ added backend (Uri.normalize path)) ∧
      (added backend (Uri.normalize path) = [Uri.normalize path] → Uri.normalize path ∈ marks') := by
  cases stands with
  | file stands =>
      obtain ⟨marks', l', d, done, stands', apart, grown, listed⟩ := stands.mark path
      exact ⟨marks', _, _, outcome_file done, .file stands', .file apart, grown, listed⟩
  | table stands =>
      obtain ⟨marks', l', db, done, stands', apart, grown, listed⟩ := stands.mark path
      exact ⟨marks', _, _, outcome_table done, .table stands', .table apart, grown, fun _ => listed⟩

/-- Clearing a URI takes it out of the entries. -/
theorem clear (stands : Stands root base marks w backend log) (path : String) :
    ∃ log' w', outcome (DirtyLog.clear path) log w = (.ok (), log', w') ∧
      Stands root base (marks.filter (· ≠ Uri.normalize path)) w' backend log' ∧
      Apart base w backend w' := by
  cases stands with
  | file stands =>
      obtain ⟨l', d, done, stands', apart⟩ := stands.clear path
      exact ⟨_, _, outcome_file done, .file stands', .file apart⟩
  | table stands =>
      obtain ⟨l', db, done, stands', apart⟩ := stands.clear path
      exact ⟨_, _, outcome_table done, .table stands', .table apart⟩

/-- A drain answers every entry where it stands first, and leaves none. -/
theorem drain (stands : Stands root base marks w backend log) :
    ∃ log' w', outcome DirtyLog.drain log w = (.ok (firstOccurrences marks), log', w') ∧
      Stands root base [] w' backend log' ∧ Apart base w backend w' := by
  cases stands with
  | file stands =>
      obtain ⟨l', d, done, stands', apart⟩ := stands.drain
      exact ⟨_, _, outcome_file done, .file stands', .file apart⟩
  | table stands =>
      obtain ⟨l', db, done, stands', apart⟩ := stands.drain
      exact ⟨_, _, outcome_table done, .table stands', .table apart⟩

end Stands

end DirtyLog

end SymbolIndex
