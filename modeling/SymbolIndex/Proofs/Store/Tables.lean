import SymbolIndex.Proofs.Database.Families
import SymbolIndex.Proofs.Database.Spares
import SymbolIndex.Proofs.Store.Verdicts

/-!
# Proofs.Store.Tables — the database keeps a ledger

A database carries a ledger when each of its tables lists the records of its kind
(`TableStore.Carries`). Every operation of the store is one transaction that succeeds on such a database
and leaves one that carries the ledger after the operation.

A record that was written under a key that no lookup reads, such as a member without a name, is in the
tables all the same. Where there is none (`Ledger.Proper`) the database holds the ledger
(`TableStore.Holds`): then lookups under every key answer as the ledger does, so the store keeps a ledger
(`TableStore.keeps`).

A sweep is the one operation of several transactions: its candidates are the records with a URI, each
once, and removing them one after the other takes exactly the orphans.
-/

namespace SymbolIndex

open Script (outcome)
open Records (ClassesHold LocatedHold MembersHold FilesHold)

set_option autoImplicit false

namespace TableStore

/-- A function of a name and a location. -/
def functionOf (fqn : String) (location : Option Location) : Record := .function ⟨fqn, location⟩

/-- A constant of a name and a location. -/
def constantOf (fqn : String) (location : Option Location) : Record := .constant ⟨fqn, location⟩

/-- The tables of symbols list the symbols of a ledger. -/
structure HoldsSymbols (db : Database) (l : Ledger) : Prop where
  classes : ClassesHold db.classes l
  functions : LocatedHold functionOf .ofFunction db.functions l
  constants : LocatedHold constantOf .ofConstant db.constants l

/-- The table of named numbers has the time of the last build. -/
def BuiltHold (properties : Option (List PropertyRow)) (l : Ledger) : Prop :=
  ∃ rows, properties = some rows ∧
    ((rows.find? (fun r => r.name == lastUpdateName)).map (·.value)).getD 0 = l.builtAt

/-- The tables of a database list the records of a ledger and the time of its last build. -/
structure Carries (db : Database) (l : Ledger) : Prop extends HoldsSymbols db l where
  members : MembersHold db.members db.memberReferences l
  files : FilesHold db.files db.fileReferences l
  built : BuiltHold db.properties l
  keyed : l.Keyed

variable {db : Database} {l : Ledger}

/-! ## Reading -/

theorem HoldsSymbols.get_ok (holds : HoldsSymbols db l) {key : RecordKey}
    (searchable : key.recordType.isSearchable = true) :
    Records.get key db = .ok (l.get? key, db) := by
  obtain ⟨type, identifier⟩ := key
  cases type with
  | klass => exact Records.getClass_ok holds.classes identifier
  | function =>
      obtain ⟨found, read, same⟩ := Records.getLocated_ok .functions db holds.functions identifier
      show (Records.getLocated Table.functions identifier >>= _) db = _
      rw [Transaction.bind_ok read, Transaction.pure_apply]
      exact congrArg (fun r => Except.ok (r, db)) same
  | constant =>
      obtain ⟨found, read, same⟩ := Records.getLocated_ok .constants db holds.constants identifier
      show (Records.getLocated Table.constants identifier >>= _) db = _
      rw [Transaction.bind_ok read, Transaction.pure_apply]
      exact congrArg (fun r => Except.ok (r, db)) same
  | member => cases searchable
  | file => cases searchable

theorem Carries.get_ok (carries : Carries db l) {key : RecordKey} (legible : key.Legible) :
    Records.get key db = .ok (l.get? key, db) := by
  cases type : key.recordType with
  | member =>
      obtain ⟨m, parsed⟩ := legible.parsed type
      obtain ⟨_, identifier⟩ := key
      subst type
      exact Records.getMember_ok carries.members parsed
  | file =>
      have same := legible.normal type
      obtain ⟨_, identifier⟩ := key
      subst type
      show Records.getFile (Uri.normalize identifier) db = _
      rw [show Uri.normalize identifier = identifier from same]
      exact Records.getFile_ok carries.files identifier
  | klass => exact carries.toHoldsSymbols.get_ok (by rw [type]; rfl)
  | function => exact carries.toHoldsSymbols.get_ok (by rw [type]; rfl)
  | constant => exact carries.toHoldsSymbols.get_ok (by rw [type]; rfl)

/-! ## Writing and removing -/

open Records (get?_write_other get?_remove_other)

/-- Writing a symbol changes the tables of symbols alone. -/
theorem HoldsSymbols.write_ok (holds : HoldsSymbols db l) {r : Record}
    (searchable : r.recordType.isSearchable = true) :
    ∃ classes functions constants, Records.write r db = .ok ((), { db with
        classes := classes, functions := functions, constants := constants }) ∧
      HoldsSymbols { db with
        classes := classes, functions := functions, constants := constants } (l.write r) := by
  obtain ⟨classes, functions, constants⟩ := holds
  cases r with
  | klass c =>
      obtain ⟨rows, done, hold⟩ := Records.writeClass_ok classes c
      exact ⟨rows, db.functions, db.constants, done, hold,
        functions.congr fun fqn => get?_write_other (by simp [Record.recordType, RecordKey.ofFunction]),
        constants.congr fun fqn => get?_write_other (by simp [Record.recordType, RecordKey.ofConstant])⟩
  | function f =>
      have effect : ∀ fqn, (l.write (.function f)).get? (.ofFunction fqn) =
          if f.fqn = fqn then some (functionOf f.fqn f.location) else l.get? (.ofFunction fqn) := by
        intro fqn
        rw [Ledger.get?_write rfl]
        exact if_congr (by simp [Record.key, Record.recordType, Record.identifier,
          RecordKey.ofFunction]) rfl rfl
      obtain ⟨rows, done, hold⟩ :=
        Records.writeLocated_ok .functions db functions f.fqn f.location effect
      exact ⟨db.classes, rows, db.constants, done,
        classes.congr fun fqn => get?_write_other (by simp [Record.recordType, RecordKey.ofClass]),
        hold,
        constants.congr fun fqn => get?_write_other (by simp [Record.recordType, RecordKey.ofConstant])⟩
  | constant c =>
      have effect : ∀ fqn, (l.write (.constant c)).get? (.ofConstant fqn) =
          if c.fqn = fqn then some (constantOf c.fqn c.location) else l.get? (.ofConstant fqn) := by
        intro fqn
        rw [Ledger.get?_write rfl]
        exact if_congr (by simp [Record.key, Record.recordType, Record.identifier,
          RecordKey.ofConstant]) rfl rfl
      obtain ⟨rows, done, hold⟩ :=
        Records.writeLocated_ok .constants db constants c.fqn c.location effect
      exact ⟨db.classes, db.functions, rows, done,
        classes.congr fun fqn => get?_write_other (by simp [Record.recordType, RecordKey.ofClass]),
        functions.congr fun fqn => get?_write_other (by simp [Record.recordType, RecordKey.ofFunction]),
        hold⟩
  | member m => cases searchable
  | file f => cases searchable

theorem HoldsSymbols.congr {db' : Database} {l' : Ledger} (holds : HoldsSymbols db l)
    (classes : db'.classes = db.classes) (functions : db'.functions = db.functions)
    (constants : db'.constants = db.constants)
    (same : ∀ key, key.recordType.isSearchable = true → l'.get? key = l.get? key) :
    HoldsSymbols db' l' where
  classes := by rw [classes]; exact holds.classes.congr fun _ => same _ rfl
  functions := by rw [functions]; exact holds.functions.congr fun _ => same _ rfl
  constants := by rw [constants]; exact holds.constants.congr fun _ => same _ rfl

theorem other_of_searchable {type type' : RecordType} (hidden : type.isSearchable = false)
    (searchable : type'.isSearchable = true) : type ≠ type' := by
  rintro rfl
  rw [hidden] at searchable
  cases searchable

theorem Carries.write_ok (carries : Carries db l) (r : Record) :
    ∃ db', Records.write r db = .ok ((), db') ∧ Carries db' (l.write r) := by
  have built : BuiltHold db.properties (l.write r) := by
    obtain ⟨rows, there, same⟩ := carries.built
    exact ⟨rows, there, by rw [same, Ledger.builtAt_write]⟩
  have keyed := carries.keyed.write r
  by_cases searchable : r.recordType.isSearchable = true
  · obtain ⟨classes, functions, constants, done, symbols⟩ := carries.toHoldsSymbols.write_ok searchable
    have others : ∀ type identifier, type.isSearchable = false →
        (l.write r).get? ⟨type, identifier⟩ = l.get? ⟨type, identifier⟩ := fun type identifier hidden =>
      get?_write_other (other_of_searchable hidden searchable).symm
    exact ⟨_, done, symbols, carries.members.congr fun i => others _ i rfl,
      carries.files.congr fun i => others _ i rfl, built, keyed⟩
  · have hidden : r.recordType.isSearchable = false := by simpa using searchable
    have symbols : ∀ db' : Database, db'.classes = db.classes → db'.functions = db.functions →
        db'.constants = db.constants → HoldsSymbols db' (l.write r) := fun db' c f k =>
      carries.toHoldsSymbols.congr c f k fun key seen =>
        get?_write_other (other_of_searchable hidden seen)
    cases r with
    | klass c => cases hidden
    | function f => cases hidden
    | constant c => cases hidden
    | member m =>
        obtain ⟨rows, children, done, hold⟩ := Records.writeMember_ok carries.members m
        exact ⟨_, done, symbols _ rfl rfl rfl, hold,
          carries.files.congr fun path => get?_write_other (by simp [Record.recordType]), built, keyed⟩
    | file f =>
        obtain ⟨rows, children, done, hold⟩ := Records.writeFile_ok carries.files f
        exact ⟨_, done, symbols _ rfl rfl rfl,
          carries.members.congr fun identifier => get?_write_other (by simp [Record.recordType]), hold,
          built, keyed⟩

theorem Carries.writeAll_ok (carries : Carries db l) (rs : List Record) :
    ∃ db', Records.writeAll rs db = .ok ((), db') ∧ Carries db' (l.writeAll rs) := by
  induction rs generalizing db l with
  | nil => exact ⟨db, rfl, carries⟩
  | cons r rs ih =>
      obtain ⟨db₁, done, carries₁⟩ := carries.write_ok r
      obtain ⟨db₂, rest, carries₂⟩ := ih carries₁
      exact ⟨db₂, by rw [Records.writeAll, Transaction.bind_ok done, rest], carries₂⟩

/-- Removing a symbol changes the tables of symbols alone. -/
theorem HoldsSymbols.remove_ok (holds : HoldsSymbols db l) {key : RecordKey}
    (searchable : key.recordType.isSearchable = true) :
    ∃ classes functions constants, Records.remove key db = .ok ((), { db with
        classes := classes, functions := functions, constants := constants }) ∧
      HoldsSymbols { db with
        classes := classes, functions := functions, constants := constants } (l.remove key) := by
  obtain ⟨classes, functions, constants⟩ := holds
  obtain ⟨type, identifier⟩ := key
  cases type with
  | klass =>
      obtain ⟨rows, done, hold⟩ := Records.removeClass_ok classes identifier
      exact ⟨rows, db.functions, db.constants, done, hold,
        functions.congr fun fqn => get?_remove_other (by simp [RecordKey.ofFunction]),
        constants.congr fun fqn => get?_remove_other (by simp [RecordKey.ofConstant])⟩
  | function =>
      have effect : ∀ fqn, (l.remove ⟨.function, identifier⟩).get? (.ofFunction fqn) =
          if identifier = fqn then none else l.get? (.ofFunction fqn) := by
        intro fqn
        rw [Ledger.get?_remove]
        exact if_congr (by simp [RecordKey.ofFunction]) rfl rfl
      obtain ⟨rows, done, hold⟩ := Records.removeLocated_ok .functions db functions identifier effect
      exact ⟨db.classes, rows, db.constants, done,
        classes.congr fun fqn => get?_remove_other (by simp [RecordKey.ofClass]), hold,
        constants.congr fun fqn => get?_remove_other (by simp [RecordKey.ofConstant])⟩
  | constant =>
      have effect : ∀ fqn, (l.remove ⟨.constant, identifier⟩).get? (.ofConstant fqn) =
          if identifier = fqn then none else l.get? (.ofConstant fqn) := by
        intro fqn
        rw [Ledger.get?_remove]
        exact if_congr (by simp [RecordKey.ofConstant]) rfl rfl
      obtain ⟨rows, done, hold⟩ := Records.removeLocated_ok .constants db constants identifier effect
      exact ⟨db.classes, db.functions, rows, done,
        classes.congr fun fqn => get?_remove_other (by simp [RecordKey.ofClass]),
        functions.congr fun fqn => get?_remove_other (by simp [RecordKey.ofFunction]), hold⟩
  | member => cases searchable
  | file => cases searchable

theorem Carries.remove_ok (carries : Carries db l) {key : RecordKey} (legible : key.Legible) :
    ∃ db', Records.remove key db = .ok ((), db') ∧ Carries db' (l.remove key) := by
  have keyed := carries.keyed.remove key
  by_cases searchable : key.recordType.isSearchable = true
  · obtain ⟨classes, functions, constants, done, symbols⟩ := carries.toHoldsSymbols.remove_ok searchable
    have others : ∀ type identifier, type.isSearchable = false →
        (l.remove key).get? ⟨type, identifier⟩ = l.get? ⟨type, identifier⟩ :=
      fun type identifier hidden => get?_remove_other (other_of_searchable hidden searchable).symm
    exact ⟨_, done, symbols, carries.members.congr fun i => others _ i rfl,
      carries.files.congr fun i => others _ i rfl, carries.built, keyed⟩
  · have hidden : key.recordType.isSearchable = false := by simpa using searchable
    have symbols : ∀ db' : Database, db'.classes = db.classes → db'.functions = db.functions →
        db'.constants = db.constants → HoldsSymbols db' (l.remove key) := fun db' c f k =>
      carries.toHoldsSymbols.congr c f k fun key seen =>
        get?_remove_other (other_of_searchable hidden seen)
    obtain ⟨type, identifier⟩ := key
    cases type with
    | klass => cases hidden
    | function => cases hidden
    | constant => cases hidden
    | member =>
        obtain ⟨m, parsed⟩ := legible.parsed rfl
        obtain ⟨rows, children, done, hold⟩ := Records.removeMember_ok carries.members parsed
        exact ⟨_, done, symbols _ rfl rfl rfl, hold,
          carries.files.congr fun path => get?_remove_other (by simp), carries.built, keyed⟩
    | file =>
        have same : Uri.normalize identifier = identifier := legible.normal rfl
        obtain ⟨rows, children, done, hold⟩ := Records.removeFile_ok carries.files identifier
        have read : Records.remove ⟨.file, identifier⟩ db = Records.removeFile identifier db := by
          show Records.removeFile (Uri.normalize identifier) db = _
          rw [same]
        exact ⟨_, read.trans done, symbols _ rfl rfl rfl,
          carries.members.congr fun identifier => get?_remove_other (by simp), hold, carries.built, keyed⟩

/-! ## Sweeping -/

theorem eraseDups_of_nodup {α : Type} [BEq α] [LawfulBEq α] {l : List α} (distinct : l.Nodup) :
    l.eraseDups = l := by
  induction l with
  | nil => rfl
  | cons a l ih =>
      obtain ⟨fresh, distinct⟩ := List.nodup_cons.1 distinct
      have all : l.filter (fun b => !b == a) = l := by
        rw [List.filter_eq_self]
        intro b member
        have other : b ≠ a := fun same => fresh (same ▸ member)
        simp [other]
      rw [List.eraseDups_cons, all, ih distinct]

theorem mem_keyed {kind : RecordType} {rows : List (String × Option String)} {key : RecordKey}
    {uri : String} :
    (key, uri) ∈ Records.keyed kind rows ↔ ∃ s, (s, some uri) ∈ rows ∧ key = ⟨kind, s⟩ := by
  rw [Records.keyed, List.mem_filterMap]
  constructor
  · rintro ⟨⟨s, u⟩, member, same⟩
    rw [Option.map_eq_some_iff] at same
    obtain ⟨u', rfl, same⟩ := same
    obtain ⟨rfl, rfl⟩ := Prod.mk.inj same
    exact ⟨s, member, rfl⟩
  · rintro ⟨s, member, rfl⟩
    exact ⟨(s, some uri), member, rfl⟩

theorem keyed_sublist (kind : RecordType) (rows : List (String × Option String)) :
    ((Records.keyed kind rows).map (·.1)).Sublist (rows.map fun r => (⟨kind, r.1⟩ : RecordKey)) := by
  induction rows with
  | nil => exact .slnil
  | cons row rows ih =>
      obtain ⟨s, u⟩ := row
      cases u with
      | none => exact ih.cons _
      | some uri => exact ih.cons_cons _

/-- The candidates of one table are the records of its kind that have a URI, each once. -/
theorem keyed_spec {ρ : Type} {rows : List ρ} {keyOf : ρ → String} {shape : ρ → Record → Prop}
    {find : String → Option Record} (lists : Lists rows keyOf shape find) (kind : RecordType)
    (uriOf : ρ → Option String) (uri : ∀ row r, shape row r → uriOf row = r.sourceUri?) :
    ((Records.keyed kind (rows.map fun row => (keyOf row, uriOf row))).map (·.1)).Nodup ∧
      ∀ key u, (key, u) ∈ Records.keyed kind (rows.map fun row => (keyOf row, uriOf row)) ↔
        key.recordType = kind ∧ ∃ r, find key.identifier = some r ∧ r.sourceUri? = some u := by
  constructor
  · refine List.Nodup.sublist (keyed_sublist _ _) ?_
    have distinct : ((rows.map keyOf).map fun s => (⟨kind, s⟩ : RecordKey)).Nodup :=
      lists.distinct.map fun s t same => (RecordKey.mk.inj same).2
    simpa [Function.comp_def] using distinct
  · intro key u
    rw [mem_keyed]
    constructor
    · rintro ⟨s, member, rfl⟩
      obtain ⟨row, listed, same⟩ := List.mem_map.1 member
      obtain ⟨rfl, there⟩ := Prod.mk.inj same
      obtain ⟨r, found, shaped⟩ := lists.listed row listed
      exact ⟨rfl, r, found, by rw [← uri row r shaped, there]⟩
    · rintro ⟨rfl, r, found, there⟩
      obtain ⟨row, listed, same, shaped⟩ := lists.row_of found
      exact ⟨key.identifier, List.mem_map.2 ⟨row, listed, by rw [same, uri row r shaped, there]⟩, rfl⟩

/-- The pairs of a key and a URI that a sweep decides about are the records with a URI, each once. -/
theorem Carries.candidates_ok (carries : Carries db l) :
    ∃ candidates, Records.sweepCandidates db = .ok (candidates, db) ∧
      (candidates.map (·.1)).Nodup ∧ ∀ key uri, (key, uri) ∈ candidates ↔
        ∃ r, l.get? key = some r ∧ r.sourceUri? = some uri := by
  obtain ⟨fileRows, children, files, -, family⟩ := carries.files
  obtain ⟨classRows, classes, classLists⟩ := carries.classes
  obtain ⟨functionRows, functions, functionLists⟩ := carries.functions
  obtain ⟨constantRows, constants, constantLists⟩ := carries.constants
  obtain ⟨distinct₁, member₁⟩ := keyed_spec family.lists .file (fun row => some row.filePath)
    (by rintro row _ ⟨⟨f, rfl, same, -⟩, -⟩; rw [same]; rfl)
  obtain ⟨distinct₂, member₂⟩ := keyed_spec classLists .klass (·.filePath)
    (by rintro row _ ⟨c, t, rfl, -, -, -, -, columns⟩; exact Records.filePath_of_columns columns)
  obtain ⟨distinct₃, member₃⟩ := keyed_spec functionLists .function (·.filePath)
    (by rintro row _ ⟨place, rfl, columns⟩; exact Records.filePath_of_columns columns)
  obtain ⟨distinct₄, member₄⟩ := keyed_spec constantLists .constant (·.filePath)
    (by rintro row _ ⟨place, rfl, columns⟩; exact Records.filePath_of_columns columns)
  -- The kinds tell the parts apart.
  have kinds : ∀ {part : List (RecordKey × String)} {kind : RecordType}
      {P : RecordKey → String → Prop}, (∀ key u, (key, u) ∈ part ↔ key.recordType = kind ∧ P key u) →
      ∀ key ∈ part.map (·.1), key.recordType = kind := by
    intro part kind P spec key member
    obtain ⟨c, listed, rfl⟩ := List.mem_map.1 member
    exact ((spec c.1 c.2).1 listed).1
  have apart : ∀ {key : RecordKey} {kind kind' : RecordType}, kind ≠ kind' →
      key.recordType = kind → key.recordType = kind' → False :=
    fun other first second => other (first.symm.trans second)
  have distinct := ((distinct₁.append distinct₂ fun key first second =>
      apart (by decide) (kinds member₁ key first) (kinds member₂ key second)).append distinct₃
      fun key first second => by
        rcases List.mem_append.1 first with first | first
        · exact apart (by decide) (kinds member₁ key first) (kinds member₃ key second)
        · exact apart (by decide) (kinds member₂ key first) (kinds member₃ key second)).append distinct₄
      fun key first second => by
        rcases List.mem_append.1 first with first | first
        · rcases List.mem_append.1 first with first | first
          · exact apart (by decide) (kinds member₁ key first) (kinds member₄ key second)
          · exact apart (by decide) (kinds member₂ key first) (kinds member₄ key second)
        · exact apart (by decide) (kinds member₃ key first) (kinds member₄ key second)
  rw [← List.map_append, ← List.map_append, ← List.map_append] at distinct
  have read : Records.sweepCandidates db = .ok (
      (Records.keyed .file (fileRows.map fun row => (row.filePath, some row.filePath)) ++
        Records.keyed .klass (classRows.map fun row => (row.fqn, row.filePath)) ++
        Records.keyed .function (functionRows.map fun row => (row.fqn, row.filePath)) ++
        Records.keyed .constant (constantRows.map fun row => (row.fqn, row.filePath))), db) := by
    rw [Records.sweepCandidates, Transaction.bind_ok (Table.rows_ok files),
      Transaction.bind_ok (Table.rows_ok classes), Transaction.bind_ok (Table.rows_ok functions),
      Transaction.bind_ok (Table.rows_ok constants), Transaction.pure_apply,
      eraseDups_of_nodup (List.Nodup.of_map _ distinct)]
  refine ⟨_, read, distinct, fun key uri => ?_⟩
  simp only [List.mem_append, member₁, member₂, member₃, member₄]
  constructor
  · rintro (((⟨type, found⟩ | ⟨type, found⟩) | ⟨type, found⟩) | ⟨type, found⟩)
    all_goals
      obtain ⟨_, identifier⟩ := key
      subst type
      exact found
  · rintro ⟨r, found, there⟩
    have same := carries.keyed key r found
    obtain ⟨type, identifier⟩ := key
    have kind : type = r.recordType := (congrArg RecordKey.recordType same).symm
    subst kind
    cases r with
    | klass c => exact .inl (.inl (.inr ⟨rfl, _, found, there⟩))
    | function f => exact .inl (.inr ⟨rfl, _, found, there⟩)
    | constant c => exact .inr ⟨rfl, _, found, there⟩
    | member m => cases there
    | file f => exact .inl (.inl (.inl ⟨rfl, _, found, there⟩))

/-- Removing the records of some keys one after the other. -/
theorem Carries.removeAll_ok (carries : Carries db l) {keys : List RecordKey} (distinct : keys.Nodup)
    (legible : ∀ key ∈ keys, key.Legible) :
    ∃ db', Records.removeAll keys db = .ok (keys.filterMap l.get?, db') ∧
      Carries db' (keys.foldl Ledger.remove l) := by
  induction keys generalizing db l with
  | nil => exact ⟨db, rfl, carries⟩
  | cons key keys ih =>
      obtain ⟨fresh, distinct⟩ := List.nodup_cons.1 distinct
      have here := legible key (by simp)
      obtain ⟨db₁, done, carries₁⟩ := carries.remove_ok here
      obtain ⟨db₂, rest, carries₂⟩ := ih carries₁ distinct fun k member => legible k (by simp [member])
      refine ⟨db₂, ?_, carries₂⟩
      rw [Records.removeAll, Transaction.bind_ok (carries.get_ok here), Transaction.bind_ok done,
        Transaction.bind_ok rest, Transaction.pure_apply, Ledger.filterMap_remove fresh]
      cases found : l.get? key with
      | none => simp [found]
      | some r => simp [found]

/-! ## The time of the last build -/

theorem Carries.lastUpdate_ok (carries : Carries db l) : lastUpdate db = .ok (l.builtAt, db) := by
  obtain ⟨rows, there, same⟩ := carries.built
  rw [lastUpdate, Transaction.bind_ok (Table.rows_ok there)]
  cases found : rows.find? (fun r => r.name == lastUpdateName) with
  | none =>
      rw [found] at same
      rw [← same]
      rfl
  | some row =>
      rw [found] at same
      rw [← same]
      rfl

theorem Carries.markUpdated_ok (carries : Carries db l) (time : Int64) :
    ∃ db', markUpdated time db = .ok ((), db') ∧ Carries db' (l.markUpdated time) := by
  obtain ⟨rows, there, -⟩ := carries.built
  have changed : ∀ r : PropertyRow, (r.name == lastUpdateName) = true →
      (({ r with value := time } : PropertyRow).name == lastUpdateName) = true := fun _ hit => hit
  have hit : ((⟨lastUpdateName, time⟩ : PropertyRow).name == lastUpdateName) = true := by simp
  obtain ⟨row, found, origin⟩ := @find?_upsert _ _ _ _ rows changed hit
  have value : row.value = time := by
    rcases origin with ⟨r, -, -, rfl⟩ | ⟨-, rfl⟩ <;> rfl
  refine ⟨_, Table.modify_ok there _, ⟨carries.classes, carries.functions, carries.constants⟩,
    carries.members, carries.files, ⟨_, rfl, ?_⟩, carries.keyed⟩
  rw [found]
  exact value

/-- A file is fresh when the stamp of its row is not before the given time. -/
theorem Carries.isFresh_ok (carries : Carries db l) (path : String) (mtime : Int64) :
    isFresh path mtime db = .ok (l.isFresh path mtime, db) := by
  obtain ⟨rows, children, there, -, family⟩ := carries.files
  have test : ∀ row ∈ rows, (row.filePath == Uri.normalize path) = true ↔
      row.filePath = Uri.normalize path := fun _ _ => beq_iff_eq
  have same : l.get? (.ofFile path) = l.get? ⟨.file, Uri.normalize path⟩ := rfl
  rw [isFresh, Transaction.bind_ok (Table.rows_ok there), Ledger.isFresh, same]
  cases found : l.get? ⟨.file, Uri.normalize path⟩ with
  | none =>
      rw [family.lists.find?_none found test]
      rfl
  | some r =>
      obtain ⟨row, -, hit, -, ⟨f, rfl, -, stamp⟩, -⟩ := family.lists.find?_some found test
      rw [hit]
      simp only [stamp, FileRecord.isFreshAt]
      cases f.lastIndexed <;> rfl

/-! ## New tables -/

/-- A database with the tables of the store, each without rows. -/
def emptied (db : Database) : Database := { db with
  classes := some [], functions := some [], constants := some [], members := some [],
  memberReferences := some [], files := some [], fileReferences := some [], properties := some [] }

theorem Carries.empty : Carries (emptied db) .empty where
  classes := ⟨[], rfl, Lists.empty⟩
  functions := ⟨[], rfl, Lists.empty⟩
  constants := ⟨[], rfl, Lists.empty⟩
  members := ⟨[], [], rfl, rfl, Family.empty⟩
  files := ⟨[], [], rfl, rfl, Family.empty⟩
  built := ⟨[], rfl, rfl⟩
  keyed := Ledger.Keyed.empty

/-- Where no table of the store is there, each is created without rows. -/
theorem ensureTables_new (classes : db.classes = none) (functions : db.functions = none)
    (constants : db.constants = none) (members : db.members = none)
    (memberReferences : db.memberReferences = none) (files : db.files = none)
    (fileReferences : db.fileReferences = none) (properties : db.properties = none) :
    ensureTables db = .ok ((), emptied db) := by
  rw [ensureTables, Transaction.bind_ok (Table.ensure_missing classes),
    Transaction.bind_ok (Table.ensure_missing functions),
    Transaction.bind_ok (Table.ensure_missing constants),
    Transaction.bind_ok (Table.ensure_missing members),
    Transaction.bind_ok (Table.ensure_missing memberReferences),
    Transaction.bind_ok (Table.ensure_missing files),
    Transaction.bind_ok (Table.ensure_missing fileReferences),
    Table.ensure_missing properties]
  rfl

theorem ensureTables_ok (classes : db.classes = none) (functions : db.functions = none)
    (constants : db.constants = none) (members : db.members = none)
    (memberReferences : db.memberReferences = none) (files : db.files = none)
    (fileReferences : db.fileReferences = none) (properties : db.properties = none) :
    ∃ db', ensureTables db = .ok ((), db') ∧ Carries db' .empty :=
  ⟨_, ensureTables_new classes functions constants members memberReferences files fileReferences properties,
    Carries.empty⟩

theorem recreateTables_eq (db : Database) : recreateTables db = .ok ((), emptied db) := by
  rw [recreateTables, Transaction.bind_ok (Table.drop_ok _ _), Transaction.bind_ok (Table.drop_ok _ _),
    Transaction.bind_ok (Table.drop_ok _ _), Transaction.bind_ok (Table.drop_ok _ _),
    Transaction.bind_ok (Table.drop_ok _ _), Transaction.bind_ok (Table.drop_ok _ _),
    Transaction.bind_ok (Table.drop_ok _ _), Transaction.bind_ok (Table.drop_ok _ _)]
  exact ensureTables_new rfl rfl rfl rfl rfl rfl rfl rfl

theorem recreateTables_ok (db : Database) :
    ∃ db', recreateTables db = .ok ((), db') ∧ Carries db' .empty :=
  ⟨_, recreateTables_eq db, Carries.empty⟩

/-! ## The store -/

/-- A sweep reads the candidates, decides about them and removes the keys it decided against. -/
theorem outcome_sweep {w : World} {decide : String → Script Bool} {candidates : List (RecordKey × String)}
    {keys : List RecordKey} {verdicts : SortedMap String Bool} {removed : List Record} {db' : Database}
    (read : Records.sweepCandidates w.database = .ok (candidates, w.database))
    (decided : (orphans decide .empty candidates).run w = ((keys, verdicts), w))
    (done : Records.removeAll keys w.database = .ok (removed, db')) :
    outcome (sweep decide) w = (.ok ⟨removed, verdicts⟩, { w with database := db' }) := by
  have step : outcome (ExceptT.lift (orphans decide .empty candidates) : Stored _) w =
      (.ok (keys, verdicts), w) := by
    rw [Script.outcome_lift, decided]
  rw [sweep, Script.outcome_bind_ok (Stored.outcome_transact_ok read), Script.outcome_bind_ok step]
  simp only
  rw [Script.outcome_bind_ok (Stored.outcome_transact_ok done), Script.outcome_pure]

/-- A sweep removes the records whose URI is not to be kept, wherever it asks the same of the world. A file
whose path is not normal has to be kept. -/
theorem Carries.sweep_ok {w : World} (carries : Carries w.database l) {decide : String → Script Bool}
    {keep : String → Bool} (decides : ∀ uri, (decide uri).run w = (keep uri, w))
    (normal : ∀ key r uri, l.get? key = some r → r.sourceUri? = some uri → keep uri = false →
      key.Normal) :
    ∃ report db, outcome (sweep decide) w = (.ok report, { w with database := db }) ∧
      report.removed.Perm (l.orphans keep) ∧ Carries db (l.sweep keep) ∧
      db.beyondRecords = w.database.beyondRecords := by
  obtain ⟨candidates, read, distinct, spec⟩ := carries.candidates_ok
  obtain ⟨verdicts, decided, -⟩ := orphans_run decides .empty candidates
  have orphaned : ∀ key, key ∈ (candidates.filter (fun c => !keep c.2)).map (·.1) ↔
      ∃ r, l.get? key = some r ∧ Ledger.isOrphan keep r = true := by
    intro key
    simp only [List.mem_map, List.mem_filter, Prod.exists, Ledger.isOrphan_iff, Bool.not_eq_true']
    constructor
    · rintro ⟨_, uri, ⟨member, refused⟩, rfl⟩
      obtain ⟨r, found, there⟩ := (spec _ _).1 member
      exact ⟨r, found, uri, there, refused⟩
    · rintro ⟨r, found, uri, there, refused⟩
      exact ⟨key, uri, ⟨(spec _ _).2 ⟨r, found, there⟩, refused⟩, rfl⟩
  have nodup : ((candidates.filter (fun c => !keep c.2)).map (·.1)).Nodup :=
    distinct.sublist (List.filter_sublist.map _)
  obtain ⟨perm, same⟩ := Ledger.removeAll_orphans carries.keyed nodup orphaned
  obtain ⟨db', done, carries'⟩ := carries.removeAll_ok nodup fun key member => by
    obtain ⟨r, found, orphan⟩ := (orphaned key).1 member
    obtain ⟨uri, there, refused⟩ := Ledger.isOrphan_iff.1 orphan
    refine ⟨normal key r uri found there refused, fun type => ?_⟩
    have kind : r.recordType = .member := by
      rw [← type]
      exact congrArg RecordKey.recordType (carries.keyed key r found)
    cases r with
    | member m => cases there
    | klass _ => cases kind
    | function _ => cases kind
    | constant _ => cases kind
    | file _ => cases kind
  exact ⟨⟨_, verdicts⟩, db', outcome_sweep read decided done, perm, same ▸ carries',
    Records.spares_removeAll _ done⟩

end TableStore

namespace Ledger

/-- Every record stands under a key that a lookup reads. -/
def Proper (l : Ledger) : Prop := ∀ key r, l.get? key = some r → key.Normal ∧ r.Named

namespace Proper

variable {l : Ledger}

theorem empty : Ledger.empty.Proper := fun _ _ found => by cases found

theorem write (proper : l.Proper) {r : Record} (normal : r.key.Normal) (named : r.Named) :
    (l.write r).Proper := by
  cases speculative : r.isSpeculative with
  | true => rwa [write_speculative speculative]
  | false =>
      intro key r' found
      rw [get?_write speculative] at found
      split at found
      next same => exact Option.some.inj found ▸ same ▸ ⟨normal, named⟩
      · exact proper key r' found

theorem writeAll (proper : l.Proper) {rs : List Record} (each : ∀ r ∈ rs, r.key.Normal ∧ r.Named) :
    (l.writeAll rs).Proper := by
  induction rs generalizing l with
  | nil => exact proper
  | cons r rs ih =>
      obtain ⟨normal, named⟩ := each r (by simp)
      exact ih (proper.write normal named) fun r' member => each r' (by simp [member])

theorem remove (proper : l.Proper) (key : RecordKey) : (l.remove key).Proper := by
  intro key' r found
  rw [get?_remove] at found
  split at found
  · cases found
  · exact proper key' r found

theorem sweep (proper : l.Proper) (keep : String → Bool) : (l.sweep keep).Proper := by
  intro key r found
  rw [get?_sweep, Option.filter_eq_some_iff] at found
  exact proper key r found.1

/-- No member stands under an identifier that names none. -/
theorem get?_unparsable (proper : l.Proper) (keyed : l.Keyed) {identifier : String} {e : ParseError}
    (unparsable : MemberRecord.ofIdentifier identifier = .error e) :
    l.get? ⟨.member, identifier⟩ = none := by
  cases found : l.get? ⟨.member, identifier⟩ with
  | none => rfl
  | some r =>
      have same := keyed _ r found
      have named := (proper _ r found).2
      cases r with
      | member m =>
          have identified : m.identifier = identifier := congrArg RecordKey.identifier same
          rw [← identified, MemberRecord.identifier, MemberRecord.ofIdentifier_identifier named]
            at unparsable
          cases unparsable
      | klass _ => cases same
      | function _ => cases same
      | constant _ => cases same
      | file _ => cases same

end Proper

end Ledger

namespace TableStore

variable {db : Database} {l : Ledger}

/-- The tables of a database list the records of a ledger, and each can be looked up. -/
structure Holds (db : Database) (l : Ledger) : Prop extends Carries db l where
  proper : l.Proper

/-- A normal key can be looked up, or else it is the identifier of no member. -/
theorem legible_or {key : RecordKey} (normal : key.Normal) :
    key.Legible ∨ ∃ identifier e, key = ⟨.member, identifier⟩ ∧
      MemberRecord.ofIdentifier identifier = .error e := by
  by_cases type : key.recordType = .member
  · cases parsed : MemberRecord.ofIdentifier key.identifier with
    | error e => exact .inr ⟨key.identifier, e, by rw [← type], parsed⟩
    | ok m => exact .inl ⟨normal, fun _ => ⟨m, parsed⟩⟩
  · exact .inl ⟨normal, fun member => absurd member type⟩

theorem Holds.get_ok (holds : Holds db l) {key : RecordKey} (normal : key.Normal) :
    Records.get key db = .ok (l.get? key, db) := by
  rcases legible_or normal with legible | ⟨identifier, e, rfl, unparsable⟩
  · exact holds.toCarries.get_ok legible
  · rw [holds.proper.get?_unparsable holds.keyed unparsable]
    exact Records.getMember_unparsable unparsable

theorem Holds.remove_ok (holds : Holds db l) {key : RecordKey} (normal : key.Normal) :
    ∃ db', Records.remove key db = .ok ((), db') ∧ Holds db' (l.remove key) := by
  rcases legible_or normal with legible | ⟨identifier, e, rfl, unparsable⟩
  · obtain ⟨db', done, carries⟩ := holds.toCarries.remove_ok legible
    exact ⟨db', done, carries, holds.proper.remove key⟩
  · have same : l.remove ⟨.member, identifier⟩ = l := by
      refine Ledger.ext (fun key => ?_) rfl
      rw [Ledger.get?_remove]
      split
      next here => rw [← here, holds.proper.get?_unparsable holds.keyed unparsable]
      · rfl
    exact ⟨db, Records.removeMember_unparsable unparsable, same.symm ▸ holds⟩

/-- The store of tables keeps a ledger, for all identifiers. -/
theorem keeps (S : String → Prop) : toStore.Keeps S (fun l w => Holds w.database l) where
  keyed holds := holds.keyed
  get holds within := Stored.outcome_transact_ok (holds.get_ok within.normal)
  isFresh holds _ := Stored.outcome_transact_ok (holds.isFresh_ok _ _)
  lastUpdate holds := Stored.outcome_transact_ok holds.lastUpdate_ok
  write holds within := by
    obtain ⟨db', done, carries⟩ := holds.toCarries.write_ok _
    exact ⟨_, Stored.outcome_transact_ok done, carries,
      holds.proper.write within.key.normal within.named⟩
  writeBatch holds within := by
    obtain ⟨db', done, carries⟩ := holds.toCarries.writeAll_ok _
    exact ⟨_, Stored.outcome_transact_ok done, carries, holds.proper.writeAll fun r member =>
      ⟨(within r member).key.normal, (within r member).named⟩⟩
  remove holds within := by
    obtain ⟨db', done, holds'⟩ := holds.remove_ok within.normal
    exact ⟨_, Stored.outcome_transact_ok done, holds'⟩
  reset _ := by
    obtain ⟨db', done, carries⟩ := recreateTables_ok _
    exact ⟨_, Stored.outcome_transact_ok done, carries, .empty⟩
  markUpdated holds := by
    obtain ⟨db', done, carries⟩ := holds.toCarries.markUpdated_ok _
    exact ⟨_, Stored.outcome_transact_ok done, carries, holds.proper⟩
  flush _ := rfl
  sweep {l w keep} holds := by
    have decides : ∀ uri, Script.run (return keep uri : Script Bool) w = (keep uri, w) := fun _ => rfl
    obtain ⟨report, db', done, perm, carries, -⟩ := holds.toCarries.sweep_ok decides
      fun key r _ found _ _ => (holds.proper key r found).1
    exact ⟨report, _, done, perm, carries, holds.proper.sweep _⟩

end TableStore

end SymbolIndex
