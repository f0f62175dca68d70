import SymbolIndex.Proofs.Database.Families
import SymbolIndex.Proofs.Database.Spares

/-!
# Proofs.Database.Attached — no row names a row that is gone

The rows of references name a member or a file by its id, and an id is given out again when the row that
had it is gone. So a reference that outlived its row would turn up under another one. A database is
attached (`Database.Attached`) when every reference names a row that is there.

Two transactions change tables that hang together: one changes or adds a row and replaces what belongs
to it (`putOwned`), the other takes rows away after what belongs to them (`removeOwned`). Members and
files are written and removed by them alike, and whatever else a transaction on records does leaves
those tables alone. So each transaction that succeeds keeps a database attached
(`Records.keeps_write`, `Records.keeps_remove`, ...).
-/

namespace SymbolIndex

set_option autoImplicit false

variable {α β γ ρ χ : Type}

/-! ## Rows of two tables -/

/-- Every row of one table names a row of another by its id. -/
def Owned (idOf : ρ → Nat) (parentOf : χ → Nat) (rows : List ρ) (children : List χ) : Prop :=
  ∀ c ∈ children, ∃ row ∈ rows, idOf row = parentOf c

namespace Owned

variable {idOf : ρ → Nat} {parentOf : χ → Nat} {rows : List ρ} {children : List χ}

theorem none_ : Owned idOf parentOf rows [] := fun _ member => by cases member

/-- An upsert takes no id away, and what is added belongs to its row. -/
theorem upsert (owned : Owned idOf parentOf rows children) {p : ρ → Bool} {change : ρ → ρ} {fresh row : ρ}
    (same : ∀ r, idOf (change r) = idOf r) (found : row ∈ SymbolIndex.upsert p change fresh rows)
    {added : List χ} (own : ∀ c ∈ added, parentOf c = idOf row) (q : χ → Bool) :
    Owned idOf parentOf (SymbolIndex.upsert p change fresh rows) (children.filter q ++ added) := by
  intro c member
  rcases List.mem_append.1 member with left | new
  · obtain ⟨r, there, named⟩ := owned c (List.mem_filter.1 left).1
    have id : parentOf c ∈ rows.map idOf := named ▸ List.mem_map_of_mem there
    have id' : parentOf c ∈ (SymbolIndex.upsert p change fresh rows).map idOf := by
      rcases @map_upsert ρ Nat idOf p change fresh rows same with ids | ids
      · rwa [ids]
      · rw [ids]
        exact List.mem_append_left _ id
    exact List.mem_map.1 id'
  · exact ⟨row, found, (own c new).symm⟩

/-- What belongs to the rows that are taken away is taken away before them. -/
theorem delete (owned : Owned idOf parentOf rows children) (p : ρ → Bool) :
    Owned idOf parentOf (rows.filter fun r => !p r)
      (children.filter fun c => !((rows.filter p).map idOf).contains (parentOf c)) := by
  intro c member
  obtain ⟨listed, missed⟩ := List.mem_filter.1 member
  obtain ⟨row, there, named⟩ := owned c listed
  refine ⟨row, List.mem_filter.2 ⟨there, ?_⟩, named⟩
  cases hit : p row with
  | false => rfl
  | true =>
      have taken : parentOf c ∈ (rows.filter p).map idOf :=
        named ▸ List.mem_map_of_mem (List.mem_filter.2 ⟨there, hit⟩)
      rw [List.contains_iff_mem.2 taken] at missed
      cases missed

end Owned

/-! ## Transactions on two tables -/

namespace Transaction

/-- What holds of a database holds of it after a transaction that succeeds. -/
def Keeps (P : Database → Prop) (t : Transaction α) : Prop :=
  ∀ ⦃db a db'⦄, t db = .ok (a, db') → P db → P db'

theorem Keeps.bind {P : Database → Prop} {first : Transaction α} {next : α → Transaction β}
    (one : Keeps P first) (two : ∀ a, Keeps P (next a)) : Keeps P (first >>= next) := by
  intro db b db'' done holds
  obtain ⟨a, db', before, after⟩ := bind_eq_ok.1 done
  exact two a after (one before holds)

end Transaction

/-- Two tables of a database: each holds what is put into it and does not see what is put into the
other. -/
structure Table.Beside (t : Table ρ) (u : Table χ) : Prop where
  own : ∀ db rows, t.rows? (t.replace db rows) = rows
  own' : ∀ db rows, u.rows? (u.replace db rows) = rows
  other : ∀ db rows, t.rows? (u.replace db rows) = t.rows? db
  other' : ∀ db rows, u.rows? (t.replace db rows) = u.rows? db

section Tables

open Transaction (Keeps Spares bind_eq_ok)

variable (t : Table ρ) (idOf : ρ → Nat) (u : Table χ) (parentOf : χ → Nat)

/-- The rows of two tables. -/
def Table.both (db : Database) : Option (List ρ) × Option (List χ) := (t.rows? db, u.rows? db)

/-- Every row of a table names a row of another. -/
def Table.Owns (db : Database) : Prop :=
  Owned idOf parentOf ((t.rows? db).getD []) ((u.rows? db).getD [])

/-- Change the row that is looked for, or add one, and replace the rows that belong to it. -/
def putOwned (p : ρ → Bool) (change : ρ → ρ) (fresh : List ρ → ρ) (added : ρ → List χ) :
    Transaction Unit := do
  t.modify fun rows => upsert p change (fresh rows) rows
  let rows ← t.rows
  match rows.find? p with
  | none => throw .statement
  | some row =>
    u.delete fun c => parentOf c == idOf row
    u.modify (· ++ added row)

/-- Remove some rows and the rows that belong to them. -/
def removeOwned (p : ρ → Bool) : Transaction Unit := do
  let ids := ((← t.rows).filter p).map idOf
  u.delete fun c => ids.contains (parentOf c)
  t.delete p

variable {t idOf u parentOf} {view : Database → γ} {p : ρ → Bool} {change : ρ → ρ} {fresh : List ρ → ρ}
  {added : ρ → List χ}

/-- A transaction that leaves both tables alone. -/
theorem keeps_of_spares {s : Transaction α} (spares : Spares (t.both u) s) :
    Keeps (t.Owns idOf u parentOf) s := by
  intro db a db' done owned
  obtain ⟨same, same'⟩ := Prod.mk.inj (spares done)
  rwa [Table.Owns, same, same']

theorem spares_putOwned (hidden : t.Hidden view) (hidden' : u.Hidden view) :
    Spares view (putOwned t idOf u parentOf p change fresh added) := by
  refine .bind (.modify hidden _) fun _ => .bind (.rows _) fun rows => ?_
  split
  · exact .throw _
  · exact .bind (.delete hidden' _) fun _ => .modify hidden' _

theorem spares_removeOwned (hidden : t.Hidden view) (hidden' : u.Hidden view) :
    Spares view (removeOwned t idOf u parentOf p) :=
  .bind (.rows _) fun _ => .bind (.delete hidden' _) fun _ => .delete hidden _

theorem keeps_putOwned (beside : t.Beside u) (same : ∀ r, idOf (change r) = idOf r)
    (own : ∀ row, ∀ c ∈ added row, parentOf c = idOf row) :
    Keeps (t.Owns idOf u parentOf) (putOwned t idOf u parentOf p change fresh added) := by
  intro db _ db' done owned
  obtain ⟨_, _, changed, done⟩ := bind_eq_ok.1 done
  obtain ⟨rows, there, rfl⟩ := Table.modify_eq_ok.1 changed
  obtain ⟨_, _, read, done⟩ := bind_eq_ok.1 done
  obtain ⟨there₁, rfl⟩ := Table.rows_eq_ok.1 read
  rw [beside.own, Option.some.injEq] at there₁
  subst there₁
  cases found : (upsert p change (fresh rows) rows).find? p with
  | none =>
      rw [found] at done
      cases done
  | some row =>
      rw [found] at done
      obtain ⟨_, _, cleared, done⟩ := bind_eq_ok.1 done
      obtain ⟨children, there', rfl⟩ := Table.modify_eq_ok.1 cleared
      obtain ⟨left, there₂, rfl⟩ := Table.modify_eq_ok.1 done
      rw [beside.own', Option.some.injEq] at there₂
      subst there₂
      rw [beside.other'] at there'
      rw [Table.Owns, there, there'] at owned
      rw [Table.Owns, beside.other, beside.other, beside.own, beside.own']
      exact owned.upsert same (List.mem_of_find?_eq_some found) (own row) _

theorem keeps_removeOwned (beside : t.Beside u) :
    Keeps (t.Owns idOf u parentOf) (removeOwned t idOf u parentOf p) := by
  intro db _ db' done owned
  obtain ⟨_, _, read, rest⟩ := bind_eq_ok.1 done
  obtain ⟨there, rfl⟩ := Table.rows_eq_ok.1 read
  obtain ⟨_, _, cleared, last⟩ := bind_eq_ok.1 rest
  obtain ⟨children, there', rfl⟩ := Table.modify_eq_ok.1 cleared
  obtain ⟨rows, there₁, rfl⟩ := Table.modify_eq_ok.1 last
  rw [beside.other, there, Option.some.injEq] at there₁
  subst there₁
  rw [Table.Owns, there, there'] at owned
  rw [Table.Owns, beside.own, beside.other', beside.own']
  exact owned.delete p

end Tables

/-! ## Members and files -/

/-- Every reference names a member or a file that is there. -/
structure Database.Attached (db : Database) : Prop where
  members : Table.members.Owns (·.id) Table.memberReferences (·.memberId) db
  files : Table.files.Owns (·.id) Table.fileReferences (·.fileId) db

namespace Records

open Transaction (Keeps Spares)
open Database (Attached)

theorem beside_members : Table.members.Beside Table.memberReferences :=
  ⟨fun _ _ => rfl, fun _ _ => rfl, fun _ _ => rfl, fun _ _ => rfl⟩

theorem beside_files : Table.files.Beside Table.fileReferences :=
  ⟨fun _ _ => rfl, fun _ _ => rfl, fun _ _ => rfl, fun _ _ => rfl⟩

theorem keeps_attached {s : Transaction α}
    (members : Keeps (Table.members.Owns (·.id) Table.memberReferences (·.memberId)) s)
    (files : Keeps (Table.files.Owns (·.id) Table.fileReferences (·.fileId)) s) : Keeps Attached s :=
  fun _ _ _ done attached => ⟨members done attached.members, files done attached.files⟩

/-- A transaction that leaves the tables of members and of files alone. -/
theorem keeps_elsewhere {s : Transaction α}
    (members : Spares (Table.members.both Table.memberReferences) s)
    (files : Spares (Table.files.both Table.fileReferences) s) : Keeps Attached s :=
  keeps_attached (keeps_of_spares members) (keeps_of_spares files)

/-! ### Writing -/

theorem writeMember_eq (m : MemberRecord) : writeMember m =
    putOwned Table.members (·.id) Table.memberReferences (·.memberId)
      (isMember m.memberType m.memberName) (fun r => { r with containerType := m.containerType })
      (fun rows => ⟨nextId (rows.map (·.id)), m.memberType.name, m.memberName, m.containerType⟩)
      (fun row => m.references.toList.map fun uri => ⟨row.id, uri⟩) := by
  unfold writeMember putOwned
  refine congrArg (_ >>= ·) (funext fun _ => congrArg (_ >>= ·) (funext fun rows => ?_))
  cases rows.find? _ <;> rfl

theorem writeFile_eq (f : FileRecord) : writeFile f =
    putOwned Table.files (·.id) Table.fileReferences (·.fileId) (fun r => r.filePath == f.path)
      (fun r => { r with updatedAt := f.lastIndexed })
      (fun rows => ⟨nextId (rows.map (·.id)), f.path, f.lastIndexed⟩)
      (fun row => referenceRows row.id 0 f.references) := by
  unfold writeFile putOwned
  refine congrArg (_ >>= ·) (funext fun _ => congrArg (_ >>= ·) (funext fun rows => ?_))
  cases rows.find? _ <;> rfl

theorem keeps_write (r : Record) : Keeps Attached (write r) := by
  cases r with
  | member m =>
      show Keeps Attached (writeMember m)
      rw [writeMember_eq]
      refine keeps_attached (keeps_putOwned beside_members (fun _ => rfl) fun row c member => ?_)
        (keeps_of_spares (spares_putOwned (fun _ _ => rfl) fun _ _ => rfl))
      obtain ⟨uri, -, rfl⟩ := List.mem_map.1 member
      rfl
  | file f =>
      show Keeps Attached (writeFile f)
      rw [writeFile_eq]
      exact keeps_attached (keeps_of_spares (spares_putOwned (fun _ _ => rfl) fun _ _ => rfl))
        (keeps_putOwned beside_files (fun _ => rfl) fun row c member => fileId_referenceRows member)
  | klass _ | function _ | constant _ =>
      exact keeps_elsewhere
        (spares_write_symbol (fun _ _ => rfl) (fun _ _ => rfl) (fun _ _ => rfl) rfl)
        (spares_write_symbol (fun _ _ => rfl) (fun _ _ => rfl) (fun _ _ => rfl) rfl)

theorem keeps_writeAll (rs : List Record) : Keeps Attached (writeAll rs) := by
  induction rs with
  | nil => exact keeps_elsewhere (.pure _) (.pure _)
  | cons r rs ih => exact .bind (keeps_write r) fun _ => ih

/-! ### Removing -/

theorem removeFile_eq (uri : String) : removeFile uri =
    removeOwned Table.files (·.id) Table.fileReferences (·.fileId) (fun r => r.filePath == uri) := rfl

theorem keeps_removeMember (identifier : String) : Keeps Attached (removeMember identifier) := by
  unfold removeMember
  split
  · exact keeps_elsewhere (.pure _) (.pure _)
  next member _ =>
    exact keeps_attached
      (keeps_removeOwned (p := isMember member.memberType member.memberName) beside_members)
      (keeps_of_spares
        (spares_removeOwned (t := Table.members) (u := Table.memberReferences) (fun _ _ => rfl) fun _ _ => rfl))

theorem keeps_remove (key : RecordKey) : Keeps Attached (remove key) := by
  obtain ⟨kind, identifier⟩ := key
  cases kind with
  | member => exact keeps_removeMember identifier
  | file =>
      show Keeps Attached (removeFile (Uri.normalize identifier))
      rw [removeFile_eq]
      exact keeps_attached (keeps_of_spares (spares_removeOwned (fun _ _ => rfl) fun _ _ => rfl))
        (keeps_removeOwned beside_files)
  | klass | function | constant =>
      exact keeps_elsewhere (.delete (fun _ _ => rfl) _) (.delete (fun _ _ => rfl) _)

theorem keeps_removeAll (keys : List RecordKey) : Keeps Attached (removeAll keys) := by
  induction keys with
  | nil => exact keeps_elsewhere (.pure _) (.pure _)
  | cons key keys ih =>
      exact .bind (keeps_elsewhere (spares_get key) (spares_get key)) fun _ =>
        .bind (keeps_remove key) fun _ => .bind ih fun _ => keeps_elsewhere (.pure _) (.pure _)

end Records

theorem TableStore.keeps_markUpdated (time : Int64) :
    Transaction.Keeps Database.Attached (markUpdated time) :=
  Records.keeps_elsewhere (.modify (fun _ _ => rfl) _) (.modify (fun _ _ => rfl) _)

end SymbolIndex
