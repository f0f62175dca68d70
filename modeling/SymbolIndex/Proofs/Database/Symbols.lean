import SymbolIndex.Database.Records
import SymbolIndex.Proofs.Database.Rows
import SymbolIndex.Proofs.Record.Keys
import SymbolIndex.Proofs.Store.Ledger

/-!
# Proofs.Database.Symbols — classes, functions and constants as rows

The tables of classes, functions and constants list the classes, functions and constants of a ledger
(`ClassesHold`, `LocatedHold`): one row for each, and the columns of the row are the fields of the
record. Reading, writing and removing on one of these tables is reading, writing and removing in the
ledger. A class has one row although rows are told apart by type and name, because a write removes the
rows of other types.
-/

namespace SymbolIndex.Records

set_option autoImplicit false

variable {db : Database} {l l' : Ledger}

/-! ## Columns -/

@[simp] theorem liftExcept_ok {α : Type} (a : α) (db : Database) :
    liftExcept (.ok a) db = .ok (a, db) := rfl

@[simp] theorem uint32_ofUInt32 (n : UInt32) : (Cell.ofUInt32 n).uint32 = .ok n := by
  rw [Cell.ofUInt32, Cell.uint32, uint32OfInt?_toNat]

/-- The columns of a location are read as that location. -/
theorem locationColumns_read {location : Option SymbolIndex.Location} {start stop : Cell}
    {filePath : Option String} (columns : (start, stop, filePath) = locationColumns location) :
    ∃ s e, start.uint32? = .ok s ∧ stop.uint32? = .ok e ∧ locationOf s e filePath = location := by
  cases location with
  | none =>
      obtain ⟨rfl, rfl, rfl⟩ : start = .null ∧ stop = .null ∧ filePath = none := by
        simpa [locationColumns] using columns
      exact ⟨none, none, rfl, rfl, rfl⟩
  | some place =>
      obtain ⟨rfl, rfl, rfl⟩ : start = .ofUInt32 place.start ∧ stop = .ofUInt32 place.stop ∧
          filePath = some place.uri := by simpa [locationColumns] using columns
      refine ⟨some place.start, some place.stop, ?_, ?_, rfl⟩
      · show (Cell.ofUInt32 place.start).uint32.map some = .ok (some place.start)
        rw [uint32_ofUInt32]
        rfl
      · show (Cell.ofUInt32 place.stop).uint32.map some = .ok (some place.stop)
        rw [uint32_ofUInt32]
        rfl

theorem filePath_of_columns {location : Option SymbolIndex.Location} {start stop : Cell}
    {filePath : Option String} (columns : (start, stop, filePath) = locationColumns location) :
    filePath = location.map (·.uri) := by
  cases location with
  | none => exact congrArg (·.2.2) columns
  | some place => exact congrArg (·.2.2) columns

theorem classType_parse (t : ClassType) : ClassType.parse t.name = .ok t := by
  rw [ClassType.parse, ClassType.ofName?_name]

/-! ## Classes -/

/-- The row of a class. -/
def ClassShape (row : ClassRow) (r : Record) : Prop :=
  ∃ c t, r = .klass c ∧ c.classType = some t ∧ row.fqn = c.fqn ∧ row.classType = t.name ∧
    row.flags = .ofUInt32 c.flags ∧ (row.start, row.stop, row.filePath) = locationColumns c.location

/-- The row that is added for a class. -/
def classRow (id : Nat) (t : ClassType) (c : ClassRecord) : ClassRow :=
  let (start, stop, filePath) := locationColumns c.location
  ⟨id, t.name, c.fqn, start, stop, filePath, .ofUInt32 c.flags⟩

/-- A row after its class was written again. -/
def updatedClass (c : ClassRecord) (r : ClassRow) : ClassRow :=
  let (start, stop, filePath) := locationColumns c.location
  { r with start := start, stop := stop, filePath := filePath, flags := .ofUInt32 c.flags }

/-- A table lists the classes of a ledger. -/
def ClassesHold (table : Option (List ClassRow)) (l : Ledger) : Prop :=
  ∃ rows, table = some rows ∧ Lists rows (·.fqn) ClassShape (fun fqn => l.get? (.ofClass fqn))

theorem ClassesHold.congr {table : Option (List ClassRow)} (hold : ClassesHold table l)
    (same : ∀ fqn, l'.get? (.ofClass fqn) = l.get? (.ofClass fqn)) : ClassesHold table l' := by
  obtain ⟨rows, there, lists⟩ := hold
  exact ⟨rows, there, lists.congr same⟩

theorem getClass_ok (hold : ClassesHold db.classes l) (fqn : String) :
    getClass fqn db = .ok (l.get? (.ofClass fqn), db) := by
  obtain ⟨rows, there, lists⟩ := hold
  have test : ∀ row ∈ rows, (row.fqn == fqn) = true ↔ row.fqn = fqn := fun _ _ => beq_iff_eq
  rw [getClass, Transaction.bind_ok (Table.rows_ok there)]
  cases found : l.get? (.ofClass fqn) with
  | none =>
      rw [lists.filter_none found test]
      rfl
  | some r =>
      obtain ⟨row, -, only, key, c, t, rfl, type, name, typeName, flags, columns⟩ :=
        lists.filter_some found test
      obtain ⟨s, e, start, stop, location⟩ := locationColumns_read columns
      rw [only]
      simp only [List.getLast?_singleton, start, stop, flags, typeName, uint32_ofUInt32,
        classType_parse, corruptUnless, Except.mapError]
      simp only [Transaction.bind_ok (liftExcept_ok _ _), Transaction.pure_apply, location, ← type,
        ← key, name]

/-- What stands at the keys of one kind does not change when a record of another kind is written. -/
theorem get?_write_other {r : Record} {key : RecordKey} (other : r.recordType ≠ key.recordType) :
    (l.write r).get? key = l.get? key := by
  cases firm : r.isSpeculative with
  | true => rw [Ledger.write_speculative firm]
  | false =>
      rw [Ledger.get?_write firm, if_neg]
      rintro rfl
      exact other rfl

theorem get?_remove_other {key key' : RecordKey} (other : key.recordType ≠ key'.recordType) :
    (l.remove key).get? key' = l.get? key' := by
  rw [Ledger.get?_remove, if_neg]
  rintro rfl
  exact other rfl

theorem ofClass_inj {fqn fqn' : String} : RecordKey.ofClass fqn = .ofClass fqn' ↔ fqn = fqn' := by
  simp [RecordKey.ofClass]

theorem writeClass_ok (hold : ClassesHold db.classes l) (c : ClassRecord) :
    ∃ rows, writeClass c db = .ok ((), { db with classes := rows }) ∧
      ClassesHold rows (l.write (.klass c)) := by
  obtain ⟨rows, there, lists⟩ := hold
  cases type : c.classType with
  | none =>
      refine ⟨some rows, ?_, rows, rfl, ?_⟩
      · rw [writeClass, type]
        simp only [Transaction.pure_apply, ← there]
      · rw [Ledger.write_speculative (by simp [Record.isSpeculative, type])]
        exact lists
  | some t =>
      have firm : (Record.klass c).isSpeculative = false := by simp [Record.isSpeculative, type]
      -- The rows of other types are removed first, so that a row of the name is one of the type.
      generalize kept : rows.filter (fun r => !(r.fqn == c.fqn && r.classType != t.name)) = left
      have ofKept : ∀ row, row ∈ left ↔ row ∈ rows ∧ (row.fqn = c.fqn → row.classType = t.name) := by
        intro row
        rw [← kept, List.mem_filter]
        by_cases same : row.fqn = c.fqn <;> simp [same]
      have distinct : (left.map (·.fqn)).Nodup := by
        rw [← kept]
        exact lists.distinct.sublist (List.filter_sublist.map _)
      have complete : ∀ fqn r, fqn ≠ c.fqn → l.get? (.ofClass fqn) = some r →
          ∃ row ∈ left, row.fqn = fqn := by
        intro fqn r other found
        obtain ⟨row, member, key⟩ := lists.complete fqn r found
        exact ⟨row, (ofKept row).2 ⟨member, fun same => absurd (key.symm.trans same) other⟩, key⟩
      have effect : ∀ fqn, (l.write (.klass c)).get? (.ofClass fqn) =
          if c.fqn = fqn then some (.klass c) else l.get? (.ofClass fqn) := by
        intro fqn
        rw [Ledger.get?_write firm]
        exact if_congr ofClass_inj rfl rfl
      have test : ∀ row ∈ left,
          (row.fqn == c.fqn && row.classType == t.name) = true ↔ row.fqn = c.fqn := by
        intro row member
        have typed := ((ofKept row).1 member).2
        by_cases same : row.fqn = c.fqn
        · simp [same, typed same]
        · simp [same]
      have lists' : Lists (upsert (fun r => r.fqn == c.fqn && r.classType == t.name)
          (updatedClass c) (classRow (nextId (left.map (·.id))) t c) left) (·.fqn) ClassShape
            (fun fqn => (l.write (.klass c)).get? (.ofClass fqn)) :=
        Lists.of_upsert distinct (fun row member _ => lists.listed row ((ofKept row).1 member).1)
          complete effect test (fun _ => rfl)
          (fun row member same => ⟨c, t, rfl, type, same, ((ofKept row).1 member).2 same, rfl, rfl⟩)
          rfl fun _ => ⟨c, t, rfl, type, rfl, rfl, rfl, rfl⟩
      refine ⟨some _, ?_, _, rfl, lists'⟩
      rw [writeClass, type]
      simp only
      rw [Transaction.bind_ok (Table.delete_ok there _), kept]
      exact Table.modify_ok rfl _

theorem removeClass_ok (hold : ClassesHold db.classes l) (fqn : String) :
    ∃ rows, Records.remove (.ofClass fqn) db = .ok ((), { db with classes := rows }) ∧
      ClassesHold rows (l.remove (.ofClass fqn)) := by
  obtain ⟨rows, there, lists⟩ := hold
  have effect : ∀ fqn', (l.remove (.ofClass fqn)).get? (.ofClass fqn') =
      if fqn = fqn' then none else l.get? (.ofClass fqn') := by
    intro fqn'
    rw [Ledger.get?_remove]
    exact if_congr ofClass_inj rfl rfl
  have test : ∀ row ∈ rows, (row.fqn == fqn) = true ↔ row.fqn = fqn := fun _ _ => beq_iff_eq
  exact ⟨some _, Table.delete_ok there _, _, rfl, lists.delete effect test fun _ _ _ _ shape => shape⟩

/-! ## Functions and constants

Both are written alike; `table` is one of their tables and `wrap` makes the record. -/

/-- The row of a function or of a constant. -/
def LocatedShape (wrap : String → Option SymbolIndex.Location → Record) (row : LocatedRow) (r : Record) :
    Prop :=
  ∃ location, r = wrap row.fqn location ∧
    (row.start, row.stop, row.filePath) = locationColumns location

/-- The row that is added for a function or a constant. -/
def locatedRow (id : Nat) (fqn : String) (location : Option SymbolIndex.Location) : LocatedRow :=
  let (start, stop, filePath) := locationColumns location
  ⟨id, fqn, start, stop, filePath⟩

/-- A row after its function or constant was written again. -/
def updatedLocated (location : Option SymbolIndex.Location) (r : LocatedRow) : LocatedRow :=
  let (start, stop, filePath) := locationColumns location
  { r with start := start, stop := stop, filePath := filePath }

/-- A table lists the functions or the constants of a ledger. -/
def LocatedHold (wrap : String → Option SymbolIndex.Location → Record) (keyOf : String → RecordKey)
    (table : Option (List LocatedRow)) (l : Ledger) : Prop :=
  ∃ rows, table = some rows ∧ Lists rows (·.fqn) (LocatedShape wrap) (fun fqn => l.get? (keyOf fqn))

section Located

variable {wrap : String → Option SymbolIndex.Location → Record} {keyOf : String → RecordKey}

theorem LocatedHold.congr {rows : Option (List LocatedRow)} (hold : LocatedHold wrap keyOf rows l)
    (same : ∀ fqn, l'.get? (keyOf fqn) = l.get? (keyOf fqn)) : LocatedHold wrap keyOf rows l' := by
  obtain ⟨rows, there, lists⟩ := hold
  exact ⟨rows, there, lists.congr same⟩

theorem getLocated_ok (table : Table LocatedRow) (db : Database)
    (hold : LocatedHold wrap keyOf (table.rows? db) l) (fqn : String) :
    ∃ found, getLocated table fqn db = .ok (found, db) ∧
      found.map (wrap fqn) = l.get? (keyOf fqn) := by
  obtain ⟨rows, there, lists⟩ := hold
  have test : ∀ row ∈ rows, (row.fqn == fqn) = true ↔ row.fqn = fqn := fun _ _ => beq_iff_eq
  rw [getLocated, Transaction.bind_ok (Table.rows_ok there)]
  cases found : l.get? (keyOf fqn) with
  | none =>
      rw [lists.find?_none found test]
      exact ⟨none, rfl, rfl⟩
  | some r =>
      obtain ⟨row, -, hit, key, location, rfl, columns⟩ := lists.find?_some found test
      obtain ⟨s, e, start, stop, place⟩ := locationColumns_read columns
      refine ⟨some location, ?_, by rw [← key]; rfl⟩
      rw [hit]
      simp only [start, stop]
      simp only [Transaction.bind_ok (liftExcept_ok _ _), Transaction.pure_apply, place]

theorem writeLocated_ok (table : Table LocatedRow) (db : Database)
    (hold : LocatedHold wrap keyOf (table.rows? db) l) (fqn : String)
    (location : Option SymbolIndex.Location)
    (effect : ∀ fqn', l'.get? (keyOf fqn') =
      if fqn = fqn' then some (wrap fqn location) else l.get? (keyOf fqn')) :
    ∃ rows, writeLocated table fqn location db = .ok ((), table.replace db rows) ∧
      LocatedHold wrap keyOf rows l' := by
  obtain ⟨rows, there, lists⟩ := hold
  have test : ∀ row ∈ rows, (row.fqn == fqn) = true ↔ row.fqn = fqn := fun _ _ => beq_iff_eq
  have lists' : Lists (upsert (fun r => r.fqn == fqn) (updatedLocated location)
      (locatedRow (nextId (rows.map (·.id))) fqn location) rows) (·.fqn) (LocatedShape wrap)
        (fun fqn => l'.get? (keyOf fqn)) :=
    lists.upsert effect test (fun _ => rfl) (fun row _ same => ⟨location, by rw [← same]; rfl, rfl⟩)
      rfl ⟨location, rfl, rfl⟩
  exact ⟨some _, Table.modify_ok there _, _, rfl, lists'⟩

theorem removeLocated_ok (table : Table LocatedRow) (db : Database)
    (hold : LocatedHold wrap keyOf (table.rows? db) l) (fqn : String)
    (effect : ∀ fqn', l'.get? (keyOf fqn') = if fqn = fqn' then none else l.get? (keyOf fqn')) :
    ∃ rows, table.delete (fun r => r.fqn == fqn) db = .ok ((), table.replace db rows) ∧
      LocatedHold wrap keyOf rows l' := by
  obtain ⟨rows, there, lists⟩ := hold
  have test : ∀ row ∈ rows, (row.fqn == fqn) = true ↔ row.fqn = fqn := fun _ _ => beq_iff_eq
  exact ⟨some _, Table.delete_ok there _, _, rfl, lists.delete effect test fun _ _ _ _ shape => shape⟩

end Located

end SymbolIndex.Records
