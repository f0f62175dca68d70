import Mathlib.Data.List.Forall2
import SymbolIndex.Proofs.Database.Symbols
import SymbolIndex.Proofs.Record.RoundTrip
import SymbolIndex.Proofs.Search.Catalog
import SymbolIndex.Proofs.Search.Scan
import SymbolIndex.Search.TableIndex

/-!
# Proofs.Search.TableIndex — a table stands for a catalog

The rows of the search table show the entries of a catalog one for one, in the order in which their
keys came: an upsert keeps a row in its place, and a new row has an id that was never used
(`TableIndex.Holds`). A table index stands for that catalog with the writes that wait put in
(`TableIndex.Stands`), so it is no matter when they are written. Each operation on the index is the
same operation on the catalog, and a search answers the entries that the criteria accepts, in the
order of the catalog, as far as the engine takes it (`TableIndex.Answers`, `Stands.search`).

What an operation changes outside of the index is the search table and its ids
(`TableIndex.Apart`).
-/

namespace SymbolIndex

open Action (outcome)
open Relator

set_option autoImplicit false

namespace TableIndex

/-! ## Rows -/

/-- A row shows an entry. -/
structure Shows (row : SearchRow) (e : SearchEntry) : Prop where
  recordType : row.recordType = e.recordType.name
  identifier : row.identifier = e.identifier
  classType : row.classType = e.typeColumn
  flags : row.flags = .ofUInt32 e.flags

theorem name_inj {s t : RecordType} : s.name = t.name ↔ s = t := by
  constructor
  · intro same
    have read := RecordType.ofName?_name s
    rw [same, RecordType.ofName?_name] at read
    exact (Option.some.inj read).symm
  · exact congrArg _

theorem name_ne_empty (t : ClassType) : t.name ≠ "" := by
  cases t <;> decide

theorem typeName_inj {s t : Option ClassType} :
    SearchEntry.typeName s = SearchEntry.typeName t ↔ s = t := by
  constructor
  · intro same
    cases s with
    | none =>
        cases t with
        | none => rfl
        | some t => exact absurd same.symm (name_ne_empty t)
    | some s =>
        cases t with
        | none => exact absurd same (name_ne_empty s)
        | some t =>
            have read := ClassType.ofName?_name s
            rw [show s.name = t.name from same, ClassType.ofName?_name] at read
            exact read.symm
  · exact congrArg _

namespace Shows

variable {row : SearchRow} {e : SearchEntry}

theorem column (shows_ : Shows row e) : row.column = e.column := by
  funext column
  cases column with
  | recordType => exact shows_.recordType
  | identifier => exact shows_.identifier
  | classType => exact shows_.classType

/-- A row that shows an entry is read as that entry. -/
theorem entry (shows_ : Shows row e) : row.entry = .ok e := by
  obtain ⟨kind, identifier, classType, flags⟩ := e
  obtain ⟨same_kind, same_identifier, same_type, same_flags⟩ := shows_
  have kind_read : corruptUnless (RecordType.parse kind.name) = .ok kind := by
    rw [RecordType.parse, RecordType.ofName?_name]
    rfl
  have flags_read : (Cell.ofUInt32 flags).uint32 = .ok flags := Records.uint32_ofUInt32 flags
  rw [SearchRow.entry, same_kind, same_identifier, same_type, same_flags, kind_read, flags_read]
  cases classType with
  | none => rfl
  | some t =>
      have type_read : corruptUnless (ClassType.parse t.name) = .ok t := by
        rw [Records.classType_parse]
        rfl
      have typed : (t.name = "") = False := eq_false (name_ne_empty t)
      simp only [SearchEntry.typeColumn, SearchEntry.typeName, typed, if_false, type_read]
      rfl

/-- A row is found by kind and identifier if its entry is found by key. -/
theorem hit (shows_ : Shows row e) (kind : RecordType) (identifier : String) :
    (row.recordType == kind.name && row.identifier == identifier) =
      decide (e.key = ⟨kind, identifier⟩) := by
  rw [shows_.recordType, shows_.identifier, Bool.eq_iff_iff, Bool.and_eq_true, beq_iff_eq,
    beq_iff_eq, name_inj, decide_eq_true_eq, SearchEntry.key, RecordKey.mk.injEq]

end Shows

/-- The rows of a table show some entries, in the order of their ids. -/
structure Shown (rows : List SearchRow) (last : Nat) (entries : List SearchEntry) : Prop where
  shown : List.Forall₂ Shows rows entries
  ascending : (rows.map (·.id)).Pairwise (· < ·)
  bounded : ∀ id ∈ rows.map (·.id), 0 < id ∧ id ≤ last

/-- The search table holds a catalog. -/
def Holds (db : Database) (c : Catalog) : Prop :=
  ∃ rows, db.search = some rows ∧ Shown rows db.lastSearchId c.entries

/-- Two databases agree apart from the search table and its ids. -/
def Apart (db db' : Database) : Prop :=
  db' = { db with search := db'.search, lastSearchId := db'.lastSearchId }

theorem Apart.refl (db : Database) : Apart db db := rfl

theorem Apart.trans {db₁ db₂ db₃ : Database} (first : Apart db₁ db₂) (second : Apart db₂ db₃) :
    Apart db₁ db₃ := by
  unfold Apart at first second ⊢
  rw [second, first]

/-! ## Transactions -/

section Transactions

variable {db : Database} {c : Catalog} {rows : List SearchRow} {last : Nat}
  {entries : List SearchEntry}

/-- An upsert of a key puts its entry: the row stays where it is, or a new row comes last. -/
theorem forall₂_upsert (shown : List.Forall₂ Shows rows entries) (e : SearchEntry) (id : Nat) :
    List.Forall₂ Shows
      (upsert (fun r => r.recordType == e.recordType.name && r.identifier == e.identifier)
        (fun r => { r with classType := e.typeColumn, flags := .ofUInt32 e.flags })
        ⟨id, e.recordType.name, e.identifier, e.typeColumn, .ofUInt32 e.flags⟩ rows)
      (Catalog.place e entries) := by
  induction shown with
  | nil => exact .cons ⟨rfl, rfl, rfl, rfl⟩ .nil
  | @cons row f rows entries here rest ih =>
      have hit : (row.recordType == e.recordType.name && row.identifier == e.identifier) =
          decide (f.key = e.key) := here.hit e.recordType e.identifier
      rw [upsert, Catalog.place]
      by_cases same : f.key = e.key
      · have kind : f.recordType = e.recordType := congrArg RecordKey.recordType same
        have identifier : f.identifier = e.identifier := congrArg RecordKey.identifier same
        rw [if_pos same, hit, decide_eq_true same, if_pos rfl]
        refine .cons ⟨?_, ?_, rfl, rfl⟩ rest
        · rw [← kind]
          exact here.recordType
        · rw [← identifier]
          exact here.identifier
      · rw [if_neg same, hit, decide_eq_false same, if_neg Bool.false_ne_true]
        exact .cons here ih

theorem Shown.upsert (shown : Shown rows last entries) (e : SearchEntry) {id : Nat} (new : last < id) :
    Shown (upsert (fun r => r.recordType == e.recordType.name && r.identifier == e.identifier)
        (fun r => { r with classType := e.typeColumn, flags := .ofUInt32 e.flags })
        ⟨id, e.recordType.name, e.identifier, e.typeColumn, .ofUInt32 e.flags⟩ rows)
      id (Catalog.place e entries) := by
  obtain ⟨same, ascending, bounded⟩ := shown
  have older : ∀ id' ∈ rows.map (·.id), 0 < id' ∧ id' ≤ id := fun id' member =>
    ⟨(bounded id' member).1, Nat.le_trans (bounded id' member).2 (Nat.le_of_lt new)⟩
  rcases @map_upsert _ _ SearchRow.id
      (fun r => r.recordType == e.recordType.name && r.identifier == e.identifier)
      (fun r => { r with classType := e.typeColumn, flags := .ofUInt32 e.flags })
      ⟨id, e.recordType.name, e.identifier, e.typeColumn, .ofUInt32 e.flags⟩ rows
      (fun _ => rfl) with ids | ids
  · refine ⟨forall₂_upsert same e id, ?_, ?_⟩
    · rw [ids]
      exact ascending
    · rw [ids]
      exact older
  · refine ⟨forall₂_upsert same e id, ?_, ?_⟩
    · rw [ids]
      refine List.pairwise_append.2 ⟨ascending, List.pairwise_singleton _ _, ?_⟩
      intro id' member final last_
      rw [List.mem_singleton.1 last_]
      exact Nat.lt_of_le_of_lt (bounded id' member).2 new
    · rw [ids]
      intro id' member
      rcases List.mem_append.1 member with old | final
      · exact older id' old
      · rw [List.mem_singleton.1 final]
        exact ⟨Nat.lt_of_le_of_lt (Nat.zero_le _) new, Nat.le_refl _⟩

theorem Shown.filter (shown : Shown rows last entries) {p : SearchRow → Bool} {q : SearchEntry → Bool}
    (agree : ∀ r e, Shows r e → p r = q e) : Shown (rows.filter p) last (entries.filter q) := by
  obtain ⟨same, ascending, bounded⟩ := shown
  have fewer : ((rows.filter p).map (·.id)).Sublist (rows.map (·.id)) := List.filter_sublist.map _
  have alike : (Shows ⇒ Iff) (fun r => p r = true) (fun e => q e = true) := by
    intro r e here
    show p r = true ↔ q e = true
    rw [agree r e here]
  exact ⟨List.rel_filter alike same, ascending.sublist fewer,
    fun id member => bounded id (fewer.subset member)⟩

theorem writeEntry_ok (holds : Holds db c) (e : SearchEntry) :
    ∃ db', writeEntry e db = .ok ((), db') ∧ Holds db' (c.put e) ∧ Apart db db' := by
  obtain ⟨rows, there, shown⟩ := holds
  let id := max (nextId (rows.map (·.id))) (db.lastSearchId + 1)
  have new : db.lastSearchId < id := Nat.lt_of_lt_of_le (Nat.lt_succ_self _) (Nat.le_max_right _ _)
  let rows' := upsert (fun r => r.recordType == e.recordType.name && r.identifier == e.identifier)
    (fun r => { r with classType := e.typeColumn, flags := .ofUInt32 e.flags })
    ⟨id, e.recordType.name, e.identifier, e.typeColumn, .ofUInt32 e.flags⟩ rows
  have shown' : Shown rows' id (c.put e).entries := shown.upsert e new
  refine ⟨{ db with search := some rows', lastSearchId := id }, ?_, ⟨rows', rfl, shown'⟩, rfl⟩
  have got : (get : Transaction Database) db = .ok (db, db) := rfl
  rw [writeEntry, Transaction.bind_ok (Table.rows_ok there), Transaction.bind_ok got]
  exact Transaction.bind_ok (Table.modify_ok there _)

theorem writeEntries_ok (holds : Holds db c) (l : List SearchEntry) :
    ∃ db', writeEntries l db = .ok ((), db') ∧ Holds db' (l.foldl Catalog.put c) ∧ Apart db db' := by
  induction l generalizing db c with
  | nil => exact ⟨db, rfl, holds, .refl db⟩
  | cons e l ih =>
      obtain ⟨db₁, written, holds₁, apart₁⟩ := writeEntry_ok holds e
      obtain ⟨db₂, rest, holds₂, apart₂⟩ := ih holds₁
      exact ⟨db₂, (Transaction.bind_ok written).trans rest, holds₂, apart₁.trans apart₂⟩

/-- Rows are deleted as entries are filtered out. -/
theorem delete_ok (holds : Holds db c) {p : SearchRow → Bool} {q : SearchEntry → Bool}
    (agree : ∀ r e, Shows r e → (!p r) = q e) :
    ∃ db', Table.search.delete p db = .ok ((), db') ∧ Holds db' (c.filter q) ∧ Apart db db' := by
  obtain ⟨rows, there, shown⟩ := holds
  exact ⟨_, Table.delete_ok there p, ⟨_, rfl, shown.filter agree⟩, rfl⟩

theorem removeEntry_ok (holds : Holds db c) (key : RecordKey) (classType : Option ClassType) :
    ∃ db', removeEntry key classType db = .ok ((), db') ∧ Holds db' (c.drop key classType) ∧
      Apart db db' := by
  refine delete_ok holds fun r e shows_ => ?_
  have typed : (r.classType == SearchEntry.typeName classType) = decide (e.classType = classType) := by
    rw [Bool.eq_iff_iff, beq_iff_eq, decide_eq_true_eq, shows_.classType]
    exact typeName_inj
  obtain ⟨kind, identifier⟩ := key
  rw [shows_.hit kind identifier, typed]

theorem removeClasses_ok (holds : Holds db c) :
    ∃ db', removeClasses db = .ok ((), db') ∧ Holds db' c.reset ∧ Apart db db' := by
  refine delete_ok holds fun r e shows_ => ?_
  have same : (r.recordType == RecordType.klass.name) = (e.recordType == .klass) := by
    rw [Bool.eq_iff_iff, beq_iff_eq, beq_iff_eq, shows_.recordType]
    exact name_inj
  rw [same]
  rfl

/-- The entry of a row; of a row that cannot be read, any. -/
def read (row : SearchRow) : SearchEntry :=
  match row.entry with
  | .ok e => e
  | .error _ => ⟨.klass, "", none, 0⟩

theorem read_of_shows {row : SearchRow} {e : SearchEntry} (shows_ : Shows row e) : read row = e := by
  rw [read, shows_.entry]

/-- What a scan picks out of the rows is what the criteria picks out of the entries. -/
theorem pick (shown : List.Forall₂ Shows rows entries) {condition : Condition} {criteria : Criteria}
    (covers : Criteria.Covers condition criteria.accepts)
    (readable : ∀ e ∈ entries, '\x00' ∉ e.identifier.toList) :
    ((rows.filter fun r => condition.holds r.column).map read).filter criteria.accepts =
      entries.filter criteria.accepts := by
  induction shown with
  | nil => rfl
  | @cons row e rows entries here rest ih =>
      have later := ih fun f member => readable f (List.mem_cons_of_mem e member)
      rw [List.filter_cons, here.column]
      by_cases accepted : criteria.accepts e = true
      · rw [if_pos (covers e (readable e List.mem_cons_self) accepted), List.map_cons,
          read_of_shows here, List.filter_cons_of_pos accepted, List.filter_cons_of_pos accepted,
          later]
      · rw [List.filter_cons_of_neg accepted]
        split
        · rw [List.map_cons, read_of_shows here, List.filter_cons_of_neg accepted, later]
        · exact later

/-- What is answered to a search of some entries: all that the criteria accepts, or the beginning of it and an
error. Within the limits of the engine it is all, and if the engine does not take the statement, it is nothing
but an error. -/
structure Answers {ε : Type} (failed : DatabaseError → ε) (c : Catalog) (criteria : Criteria)
    (answers : List (Except ε SearchEntry)) : Prop where
  begins : Scan.AllOrFailed (c.entries.filter criteria.accepts) answers
  within : criteria.fits = true → answers = (c.entries.filter criteria.accepts).map .ok
  refused : criteria.isTaken = false → answers = [.error (failed .statement)]

theorem Answers.mapError {ε : Type} {criteria : Criteria} {answers : List (Except DatabaseError SearchEntry)}
    (told : Answers id c criteria answers) (failed : DatabaseError → ε) :
    Answers failed c criteria (answers.map fun hit => hit.mapError failed) where
  begins := by
    rcases told.begins with rfl | ⟨seen, e, begins, rfl⟩
    · exact .inl (List.map_map ..)
    · refine .inr ⟨seen, failed e, begins, ?_⟩
      rw [List.map_append, List.map_map]
      rfl
  within fits := by
    rw [told.within fits, List.map_map]
    rfl
  refused refused := by
    rw [told.refused refused]
    rfl

theorem scan_ok (holds : Holds db c) (readable : c.Readable) {condition : Condition}
    {criteria : Criteria} (written : criteria.condition = .ok condition)
    (covers : Criteria.Covers condition criteria.accepts) :
    ∃ answers, scan (.start condition criteria) db = .ok (answers, db) ∧ Answers id c criteria answers := by
  obtain ⟨rows, there, shown⟩ := holds
  have readable_rows : ∀ r ∈ rows, r.entry = .ok (read r) := by
    intro r member
    obtain ⟨e, here⟩ : ∃ e, Shows r e := by
      obtain ⟨n, bound, rfl⟩ := List.getElem_of_mem member
      have same := shown.shown.length_eq
      exact ⟨_, shown.shown.get bound (same ▸ bound)⟩
    rw [read_of_shows here]
    exact here.entry
  have ascending : Scan.Ascending rows := List.pairwise_map.1 shown.ascending
  have positive : ∀ r ∈ rows, 0 < r.id := fun r member =>
    (shown.bounded r.id (List.mem_map_of_mem member)).1
  have picked := pick shown.shown covers readable
  refine ⟨(Scan.start condition criteria).answers rows, by rw [scan, there], ?_, fun fits => ?_, fun refused => ?_⟩
  · rw [← picked]
    exact Scan.answers_begin ascending positive readable_rows condition criteria
  · rw [Criteria.fits, written] at fits
    rw [← picked, Scan.answers_start ascending positive readable_rows fits]
  · rw [Criteria.isTaken, written] at refused
    exact Scan.answers_refused ascending refused criteria

end Transactions

/-! ## Operations -/

/-- An index stands for the catalog that the search table holds with the writes that wait put in. -/
def Stands (c : Catalog) (i : TableIndex) (w : World) : Prop :=
  ∃ c₀, Holds w.database c₀ ∧ c = i.pending.foldl Catalog.put c₀

namespace Stands

variable {c : Catalog} {i : TableIndex} {w : World}

theorem flush (stands : Stands c i w) :
    ∃ db, outcome TableIndex.flush i w = (.ok (), { i with pending := [] }, { w with database := db }) ∧
      Holds db c ∧ Apart w.database db := by
  obtain ⟨c₀, holds, same⟩ := stands
  rw [TableIndex.flush, Action.outcome_bind_ok (Action.outcome_get i w)]
  by_cases nothing : i.pending.isEmpty = true
  · obtain ⟨pending, batchSize, autoFlush⟩ := i
    obtain rfl : pending = [] := List.isEmpty_iff.1 nothing
    obtain rfl : c = c₀ := same
    exact ⟨w.database, rfl, holds, .refl _⟩
  · obtain ⟨db, written, holds', apart⟩ := writeEntries_ok holds i.pending
    rw [← same] at holds'
    refine ⟨db, ?_, holds', apart⟩
    rw [if_neg nothing]
    exact (Action.outcome_bind_ok (Action.outcome_transact_ok SearchError.database written)).trans
      (Action.outcome_set _ _ _)

/-- An index from which nothing waits stands for what the table holds. -/
theorem of_holds {db : Database} (holds : Holds db c) (i : TableIndex) :
    Stands c { i with pending := [] } { w with database := db } := ⟨c, holds, rfl⟩

theorem write (stands : Stands c i w) (r : Record) :
    ∃ i' db, outcome (TableIndex.write r) i w = (.ok (), i', { w with database := db }) ∧
      Stands (c.write r) i' { w with database := db } ∧ Apart w.database db := by
  rw [TableIndex.write, Catalog.write]
  cases SearchEntry.ofRecord? r with
  | none => exact ⟨i, w.database, rfl, stands, .refl _⟩
  | some e =>
      let i' : TableIndex := { i with pending := i.pending ++ [e] }
      have queued : Stands (c.put e) i' w := by
        obtain ⟨c₀, holds, same⟩ := stands
        refine ⟨c₀, holds, ?_⟩
        show c.put e = (i.pending ++ [e]).foldl Catalog.put c₀
        rw [List.foldl_append, ← same]
        rfl
      show ∃ i' db, outcome (do
        modify fun i => { i with pending := i.pending ++ [e] }
        let i ← get
        if i.autoFlush && i.isFull then TableIndex.flush) i w = _ ∧ _
      rw [Action.outcome_bind_ok (Action.outcome_modify _ _ _),
        Action.outcome_bind_ok (Action.outcome_get _ _)]
      by_cases full : (i'.autoFlush && i'.isFull) = true
      · obtain ⟨db, flushed, holds, apart⟩ := queued.flush
        refine ⟨_, db, ?_, of_holds holds i', apart⟩
        rw [if_pos full]
        exact flushed
      · refine ⟨i', w.database, ?_, queued, .refl _⟩
        rw [if_neg full]
        rfl

theorem remove (stands : Stands c i w) (r : Record) :
    ∃ db, outcome (TableIndex.remove r) i w = (.ok (), { i with pending := [] }, { w with database := db }) ∧
      Stands (c.remove r) { i with pending := [] } { w with database := db } ∧ Apart w.database db := by
  obtain ⟨db₁, flushed, holds₁, apart₁⟩ := stands.flush
  obtain ⟨db₂, removed, holds₂, apart₂⟩ := removeEntry_ok holds₁ r.key r.classType?
  refine ⟨db₂, ?_, of_holds holds₂ i, apart₁.trans apart₂⟩
  rw [TableIndex.remove, Action.outcome_bind_ok flushed]
  exact Action.outcome_transact_ok SearchError.database removed

/-- The writes of classes that wait are dropped with the rows of classes; the others go on waiting. -/
theorem reset (stands : Stands c i w) :
    ∃ db, outcome TableIndex.reset i w =
        (.ok (), { i with pending := i.pending.filter (fun e => e.recordType != .klass) }, { w with database := db }) ∧
      Stands c.reset { i with pending := i.pending.filter (fun e => e.recordType != .klass) }
        { w with database := db } ∧ Apart w.database db := by
  obtain ⟨c₀, holds, rfl⟩ := stands
  obtain ⟨db, removed, holds', apart⟩ := removeClasses_ok holds
  refine ⟨db, ?_, ⟨c₀.reset, holds', ?_⟩, apart⟩
  · rw [TableIndex.reset, Action.outcome_bind_ok (Action.outcome_modify _ _ _)]
    exact Action.outcome_transact_ok SearchError.database removed
  · refine Catalog.filter_foldl_put i.pending c₀ fun f g same => ?_
    rw [show f.recordType = g.recordType from congrArg RecordKey.recordType same]

theorem setAutoFlush (stands : Stands c i w) (enabled : Bool) :
    Stands c (i.setAutoFlush enabled) w := stands

/-- A search answers the entries of the catalog that the criteria accepts, in its order, as far as the engine
takes it. -/
theorem search (stands : Stands c i w) (readable : c.Readable) {criteria : Criteria}
    (clean : criteria.Clean) :
    ∃ hits db, outcome (TableIndex.search criteria) i w =
        (.ok hits, { i with pending := [] }, { w with database := db }) ∧
      Answers SearchError.database c criteria hits ∧ Holds db c ∧ Apart w.database db := by
  obtain ⟨condition, written, covers⟩ := Criteria.condition_holds criteria clean
  obtain ⟨db, flushed, holds, apart⟩ := stands.flush
  obtain ⟨answers, scanned, told⟩ := scan_ok holds readable written covers
  refine ⟨_, db, ?_, told.mapError SearchError.database, holds, apart⟩
  have asked := Action.outcome_transact_ok SearchError.database
    (s := ({ i with pending := [] } : TableIndex)) (w := { w with database := db }) scanned
  simp only [TableIndex.search, written]
  rw [Action.outcome_bind_ok flushed, Action.outcome_bind_ok asked, Action.outcome_pure]

end Stands

/-- A new index, in a database without a search table. -/
theorem open_outcome {w w' : World} {directory path : Path}
    (created : (Script.ask (.createDirectories directory)).run w = (.ok (), w))
    (connected : (Script.ask (.connect path)).run w = (.ok (), w'))
    (missing : w'.database.search = none) (batchSize : Nat) :
    ∃ db, Script.outcome (TableIndex.open directory path batchSize) w =
        (.ok ⟨[], max batchSize 1, true⟩, { w' with database := db }) ∧
      Stands .empty ⟨[], max batchSize 1, true⟩ { w' with database := db } ∧
      Apart w'.database db := by
  let db : Database := { w'.database with search := some [] }
  have ensured : Table.search.ensure w'.database = .ok ((), db) := Table.ensure_missing missing
  have made : Script.outcome (ExceptT.lift (Script.ask (.createDirectories directory)) :
      ExceptT SearchError Script _) w = (.ok (.ok ()), w) := by
    rw [Script.outcome_lift, created]
  have joined : Script.outcome (ExceptT.lift (Script.ask (.connect path)) :
      ExceptT SearchError Script _) w = (.ok (.ok ()), w') := by
    rw [Script.outcome_lift, connected]
  have settled : Script.outcome (ExceptT.lift (Script.ask (.transact Table.search.ensure)) :
      ExceptT SearchError Script _) w' = (.ok (.ok ()), { w' with database := db }) := by
    rw [Script.outcome_lift, Script.run_ask, Call.perform, ensured]
  refine ⟨db, ?_, ⟨.empty, ⟨[], rfl, .nil, .nil, fun _ member => absurd member List.not_mem_nil⟩, rfl⟩,
    rfl⟩
  rw [TableIndex.open, Script.outcome_bind_ok made]
  show Script.outcome (ExceptT.lift (Script.ask (.connect path)) >>= _) w = _
  rw [Script.outcome_bind_ok joined]
  show Script.outcome (ExceptT.lift (Script.ask (.transact Table.search.ensure)) >>= _) w' = _
  rw [Script.outcome_bind_ok settled]
  rfl

end TableIndex

end SymbolIndex
