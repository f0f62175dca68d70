import SymbolIndex.Proofs.System.Run
import SymbolIndex.Store.Tables

/-!
# Proofs.Database.Spares — what a transaction leaves alone

The tables of records, the search table and the marks stand in one database. A transaction spares a
view of the database when it never changes what is seen there (`Transaction.Spares`). That is so of a
sequence when it is so of its parts, and of a change of a table when the table is not in view. Each
transaction on records spares what is beyond the tables of records (`Records.spares_write`,
`Records.spares_removeAll`, `TableStore.spares_recreateTables`, ...).
-/

namespace SymbolIndex

set_option autoImplicit false

variable {α β γ ρ : Type}

/-- A transaction never changes what a view shows. -/
def Transaction.Spares (view : Database → γ) (t : Transaction α) : Prop :=
  ∀ ⦃db a db'⦄, t db = .ok (a, db') → view db' = view db

/-- A change of a table never shows in a view. -/
def Table.Hidden (view : Database → γ) (t : Table ρ) : Prop :=
  ∀ db rows, view (t.replace db rows) = view db

namespace Transaction.Spares

variable {view : Database → γ} {t : Table ρ}

theorem pure (a : α) : Spares view (Pure.pure a : Transaction α) := by
  rintro db _ _ ⟨⟩
  rfl

theorem bind {first : Transaction α} {next : α → Transaction β} (one : Spares view first)
    (two : ∀ a, Spares view (next a)) : Spares view (first >>= next) := by
  intro db b db'' done
  obtain ⟨a, db', before, after⟩ := Transaction.bind_eq_ok.1 done
  exact (two a after).trans (one before)

theorem throw (e : DatabaseError) : Spares view (throw e : Transaction α) := by
  rintro db _ _ ⟨⟩

theorem liftExcept (result : Except DatabaseError α) : Spares view (Records.liftExcept result) := by
  intro db a db' done
  cases result <;> cases done
  rfl

theorem rows (t : Table ρ) : Spares view t.rows := by
  intro db a db' done
  rw [Table.rows] at done
  split at done <;> cases done
  rfl

theorem modify (hidden : t.Hidden view) (f : List ρ → List ρ) : Spares view (t.modify f) := by
  intro db a db' done
  rw [Table.modify] at done
  split at done <;> cases done
  exact hidden _ _

theorem delete (hidden : t.Hidden view) (p : ρ → Bool) : Spares view (t.delete p) := modify hidden _

theorem ensure (hidden : t.Hidden view) : Spares view t.ensure := by
  intro db a db' done
  rw [Table.ensure] at done
  split at done <;> cases done
  · rfl
  · exact hidden _ _

theorem drop (hidden : t.Hidden view) : Spares view t.drop := by
  rintro db _ _ ⟨⟩
  exact hidden _ _

end Transaction.Spares

/-! ## Beyond the records -/

/-- What a database holds beyond the tables of records. -/
def Database.beyondRecords (db : Database) :
    Option (List SearchRow) × Nat × Option (List DirtyRow) × Nat :=
  (db.search, db.lastSearchId, db.dirty, db.lastDirtyId)

namespace Records

open Transaction (Spares)

variable {view : Database → γ} {table : Table LocatedRow}

private theorem hidden_classes : Table.classes.Hidden Database.beyondRecords := fun _ _ => rfl
private theorem hidden_functions : Table.functions.Hidden Database.beyondRecords := fun _ _ => rfl
private theorem hidden_constants : Table.constants.Hidden Database.beyondRecords := fun _ _ => rfl
private theorem hidden_members : Table.members.Hidden Database.beyondRecords := fun _ _ => rfl
private theorem hidden_memberReferences :
    Table.memberReferences.Hidden Database.beyondRecords := fun _ _ => rfl
private theorem hidden_files : Table.files.Hidden Database.beyondRecords := fun _ _ => rfl
private theorem hidden_fileReferences :
    Table.fileReferences.Hidden Database.beyondRecords := fun _ _ => rfl
private theorem hidden_properties : Table.properties.Hidden Database.beyondRecords := fun _ _ => rfl

theorem spares_getLocated (fqn : String) : Spares view (getLocated table fqn) := by
  unfold getLocated
  refine .bind (.rows _) fun rows => ?_
  split
  · exact .pure _
  · exact .bind (.liftExcept _) fun _ => .bind (.liftExcept _) fun _ => .pure _

/-- Reading changes nothing. -/
theorem spares_get (key : RecordKey) : Spares view (Records.get key) := by
  obtain ⟨kind, identifier⟩ := key
  cases kind with
  | klass =>
      show Spares view (getClass identifier)
      unfold getClass
      refine .bind (.rows _) fun rows => ?_
      split
      · exact .pure _
      · exact .bind (.liftExcept _) fun _ => .bind (.liftExcept _) fun _ =>
          .bind (.liftExcept _) fun _ => .bind (.liftExcept _) fun _ => .pure _
  | function => exact .bind (spares_getLocated _) fun _ => .pure _
  | constant => exact .bind (spares_getLocated _) fun _ => .pure _
  | member =>
      show Spares view (getMember identifier)
      unfold getMember
      split
      · exact .pure _
      · refine .bind (.rows _) fun rows => ?_
        split
        · exact .pure _
        · exact .bind (.rows _) fun _ => .pure _
  | file =>
      show Spares view (getFile (Uri.normalize identifier))
      unfold getFile
      refine .bind (.rows _) fun rows => ?_
      split
      · exact .pure _
      · exact .bind (.rows _) fun _ => .bind (.liftExcept _) fun _ => .pure _

/-- Writing a symbol changes the tables of symbols alone. -/
theorem spares_write_symbol (classes : Table.classes.Hidden view) (functions : Table.functions.Hidden view)
    (constants : Table.constants.Hidden view) {r : Record} (searchable : r.recordType.isSearchable = true) :
    Spares view (write r) := by
  cases r with
  | klass c =>
      show Spares _ (writeClass c)
      unfold writeClass
      split
      · exact .pure _
      · exact .bind (.delete classes _) fun _ => .modify classes _
  | function f => exact .modify functions _
  | constant c => exact .modify constants _
  | member m => cases searchable
  | file f => cases searchable

theorem spares_write (r : Record) : Spares Database.beyondRecords (write r) := by
  cases r with
  | klass _ | function _ | constant _ =>
      exact spares_write_symbol hidden_classes hidden_functions hidden_constants rfl
  | member m =>
      refine .bind (.modify hidden_members _) fun _ => .bind (.rows _) fun rows => ?_
      split
      · exact .throw _
      · exact .bind (.delete hidden_memberReferences _) fun _ => .modify hidden_memberReferences _
  | file f =>
      refine .bind (.modify hidden_files _) fun _ => .bind (.rows _) fun rows => ?_
      split
      · exact .throw _
      · exact .bind (.delete hidden_fileReferences _) fun _ => .modify hidden_fileReferences _

theorem spares_writeAll (rs : List Record) : Spares Database.beyondRecords (writeAll rs) := by
  induction rs with
  | nil => exact .pure _
  | cons r rs ih => exact .bind (spares_write r) fun _ => ih

theorem spares_remove (key : RecordKey) : Spares Database.beyondRecords (remove key) := by
  obtain ⟨kind, identifier⟩ := key
  cases kind with
  | klass => exact .delete hidden_classes _
  | function => exact .delete hidden_functions _
  | constant => exact .delete hidden_constants _
  | member =>
      show Spares _ (removeMember identifier)
      unfold removeMember
      split
      · exact .pure _
      · exact .bind (.rows _) fun _ => .bind (.delete hidden_memberReferences _) fun _ =>
          .delete hidden_members _
  | file =>
      exact .bind (.rows _) fun _ => .bind (.delete hidden_fileReferences _) fun _ =>
        .delete hidden_files _

theorem spares_removeAll (keys : List RecordKey) :
    Spares Database.beyondRecords (removeAll keys) := by
  induction keys with
  | nil => exact .pure _
  | cons key keys ih =>
      exact .bind (spares_get key) fun _ => .bind (spares_remove key) fun _ => .bind ih fun _ => .pure _

end Records

namespace TableStore

open Transaction (Spares)
open Records

theorem spares_ensureTables : Spares Database.beyondRecords ensureTables :=
  .bind (.ensure hidden_classes) fun _ => .bind (.ensure hidden_functions) fun _ =>
    .bind (.ensure hidden_constants) fun _ => .bind (.ensure hidden_members) fun _ =>
    .bind (.ensure hidden_memberReferences) fun _ => .bind (.ensure hidden_files) fun _ =>
    .bind (.ensure hidden_fileReferences) fun _ => .ensure hidden_properties

theorem spares_recreateTables : Spares Database.beyondRecords recreateTables :=
  .bind (.drop hidden_properties) fun _ => .bind (.drop hidden_fileReferences) fun _ =>
    .bind (.drop hidden_files) fun _ => .bind (.drop hidden_memberReferences) fun _ =>
    .bind (.drop hidden_members) fun _ => .bind (.drop hidden_constants) fun _ =>
    .bind (.drop hidden_functions) fun _ => .bind (.drop hidden_classes) fun _ => spares_ensureTables

theorem spares_markUpdated (time : Int64) : Spares Database.beyondRecords (markUpdated time) :=
  .modify hidden_properties _

end TableStore

end SymbolIndex
