import SymbolIndex.Proofs.Database.Attached
import SymbolIndex.Proofs.Store.Agreement
import SymbolIndex.Proofs.Uri.FileUri

/-!
# Proofs.Store.Integrity — what stands in the tables after any operations

A store of tables takes any record under any key: a member without a name, a file under a path that is
not normal, a key that no lookup reads. What it answers then need not be what was written, but its
tables stay in order. `TableStore.Consistent` is the invariant: every reference names a row that is
there, and the tables list a ledger in which each record is the last that was written under its key.
A removal takes from that ledger whatever it takes (`Carries.remove_any`), a sweep of such keys too
(`Carries.sweep_any`), so the invariant holds after one operation (`Consistent.perform`) and after all
of them (`Consistent.run`).

* `TableStore.tables_intact` — after any operations on a new store each name has one row, each reference
  names a row that is there, and the references that name a row are those that were written last for it.
  So an id that is given out again brings no references with it.
-/

namespace SymbolIndex

open Script (outcome)

set_option autoImplicit false

/-! ## What was written last -/

/-- The record that was written last under a key. A class without a type is not written. -/
def lastWritten (past : List Record) (key : RecordKey) : Option Record :=
  past.reverse.find? fun r => decide (r.key = key) && !r.isSpeculative

theorem lastWritten_snoc (past : List Record) (r : Record) (key : RecordKey) :
    lastWritten (past ++ [r]) key =
      if r.key = key ∧ r.isSpeculative = false then some r else lastWritten past key := by
  rw [lastWritten, List.reverse_append, List.reverse_singleton, List.singleton_append, List.find?_cons]
  cases r.isSpeculative <;> by_cases same : r.key = key <;> simp [same, lastWritten]

namespace Ledger

variable {l l' : Ledger} {past : List Record}

/-- Every record of a ledger stands in another under the same key. -/
def PartOf (l' l : Ledger) : Prop := ∀ key r, l'.get? key = some r → l.get? key = some r

theorem PartOf.refl (l : Ledger) : l.PartOf l := fun _ _ found => found

theorem PartOf.trans {l'' : Ledger} (second : l''.PartOf l') (first : l'.PartOf l) : l''.PartOf l :=
  fun key r found => first key r (second key r found)

theorem partOf_remove (l : Ledger) (key : RecordKey) : (l.remove key).PartOf l := by
  intro key' r found
  rw [get?_remove] at found
  split at found
  · cases found
  · exact found

/-- Each record of a ledger is the one that was written last under its key. -/
def Backed (l : Ledger) (past : List Record) : Prop :=
  ∀ key r, l.get? key = some r → lastWritten past key = some r

namespace Backed

theorem empty : Ledger.empty.Backed past := fun _ _ found => by cases found

theorem of_partOf (backed : l.Backed past) (part : l'.PartOf l) : l'.Backed past :=
  fun key r found => backed key r (part key r found)

theorem write (backed : l.Backed past) (r : Record) : (l.write r).Backed (past ++ [r]) := by
  intro key r' found
  rw [lastWritten_snoc]
  cases speculative : r.isSpeculative with
  | true =>
      rw [write_speculative speculative] at found
      rw [if_neg (by simp)]
      exact backed key r' found
  | false =>
      rw [get?_write speculative] at found
      simp only [and_true]
      split at found
      next same => rwa [if_pos same]
      next other =>
        rw [if_neg other]
        exact backed key r' found

theorem writeAll (backed : l.Backed past) (rs : List Record) : (l.writeAll rs).Backed (past ++ rs) := by
  induction rs generalizing l past with
  | nil =>
      rw [List.append_nil]
      exact backed
  | cons r rs ih =>
      have rest := ih (backed.write r)
      rwa [List.append_assoc, List.singleton_append] at rest

end Backed

end Ledger

/-- The records that an operation writes. -/
def StoreCommand.written : StoreCommand → List Record
  | .write r => [r]
  | .writeBatch rs => rs
  | .remove _ | .reset | .markUpdated _ | .sweep _ => []

namespace TableStore

variable {db : Database} {l : Ledger} {w : World} {past : List Record}

/-! ## Any keys -/

/-- The path in the key of a file counts as the URI it is known by. -/
theorem exists_normal (key : RecordKey) :
    ∃ key', key'.Normal ∧ Records.get key = Records.get key' ∧ Records.remove key = Records.remove key' := by
  by_cases type : key.recordType = .file
  · obtain ⟨_, identifier⟩ := key
    subst type
    refine ⟨.ofFile identifier, fun _ => Uri.normalize_normalize identifier, ?_, ?_⟩
    · show Records.getFile _ = Records.getFile (Uri.normalize (Uri.normalize identifier))
      rw [Uri.normalize_normalize]
    · show Records.removeFile _ = Records.removeFile (Uri.normalize (Uri.normalize identifier))
      rw [Uri.normalize_normalize]
  · exact ⟨key, fun file => absurd file type, rfl, rfl⟩

theorem Carries.get_any (carries : Carries db l) (key : RecordKey) :
    ∃ found, Records.get key db = .ok (found, db) := by
  obtain ⟨key', normal, same, -⟩ := exists_normal key
  rw [same]
  rcases legible_or normal with legible | ⟨identifier, e, rfl, unparsable⟩
  · exact ⟨_, carries.get_ok legible⟩
  · exact ⟨_, Records.getMember_unparsable unparsable⟩

/-- A removal takes the record that the key leads to, if it leads to any. -/
theorem Carries.remove_any (carries : Carries db l) (key : RecordKey) :
    ∃ db' l', Records.remove key db = .ok ((), db') ∧ Carries db' l' ∧ l'.PartOf l := by
  obtain ⟨key', normal, -, same⟩ := exists_normal key
  rw [same]
  rcases legible_or normal with legible | ⟨identifier, e, rfl, unparsable⟩
  · obtain ⟨db', done, carries'⟩ := carries.remove_ok legible
    exact ⟨db', _, done, carries', l.partOf_remove key'⟩
  · exact ⟨db, l, Records.removeMember_unparsable unparsable, carries, .refl l⟩

theorem Carries.removeAll_any (carries : Carries db l) (keys : List RecordKey) :
    ∃ removed db' l', Records.removeAll keys db = .ok (removed, db') ∧ Carries db' l' ∧ l'.PartOf l := by
  induction keys generalizing db l with
  | nil => exact ⟨[], db, l, rfl, carries, .refl l⟩
  | cons key keys ih =>
      obtain ⟨found, read⟩ := carries.get_any key
      obtain ⟨db₁, l₁, done, carries₁, part₁⟩ := carries.remove_any key
      obtain ⟨removed, db₂, l₂, rest, carries₂, part₂⟩ := ih carries₁
      refine ⟨found.toList ++ removed, db₂, l₂, ?_, carries₂, part₂.trans part₁⟩
      rw [Records.removeAll, Transaction.bind_ok read, Transaction.bind_ok done,
        Transaction.bind_ok rest, Transaction.pure_apply]

/-- A sweep removes the keys it decides against one after the other. -/
theorem Carries.sweep_any (carries : Carries w.database l) (keep : String → Bool) :
    ∃ keys report db' l', Records.removeAll keys w.database = .ok (report.removed, db') ∧
      outcome (sweep fun uri => return keep uri) w = (.ok report, { w with database := db' }) ∧
      Carries db' l' ∧ l'.PartOf l := by
  obtain ⟨candidates, read, -⟩ := carries.candidates_ok
  have decides : ∀ uri, Script.run (return keep uri : Script Bool) w = (keep uri, w) := fun _ => rfl
  obtain ⟨verdicts, decided, -⟩ := orphans_run decides .empty candidates
  obtain ⟨removed, db', l', done, carries', part⟩ :=
    carries.removeAll_any ((candidates.filter fun c => !keep c.2).map (·.1))
  exact ⟨_, ⟨removed, verdicts⟩, db', l', done, outcome_sweep read decided done, carries', part⟩

/-! ## The invariant -/

/-- Every reference names a row that is there, and the tables list the last records written under their
keys, or some of them. -/
structure Consistent (db : Database) (past : List Record) : Prop where
  attached : db.Attached
  backed : ∃ l, Carries db l ∧ l.Backed past

theorem Consistent.emptied (db : Database) : Consistent (emptied db) past where
  attached := ⟨.none_, .none_⟩
  backed := ⟨_, Carries.empty, .empty⟩

theorem perform_ok {c : StoreCommand} {t : Transaction Unit} {db' : Database}
    (shape : c.perform toStore = Stored.transact t >>= fun _ => return [])
    (done : t w.database = .ok ((), db')) :
    outcome (c.perform toStore) w = (.ok [], { w with database := db' }) := by
  rw [shape, Script.outcome_bind_ok (Stored.outcome_transact_ok done), Script.outcome_pure]

/-- An operation succeeds and keeps the tables consistent, whatever records and keys it is about. -/
theorem Consistent.perform (consistent : Consistent w.database past) (c : StoreCommand) :
    ∃ removed w', outcome (c.perform toStore) w = (.ok removed, w') ∧
      Consistent w'.database (past ++ c.written) := by
  obtain ⟨attached, l, carries, backed⟩ := consistent
  cases c with
  | write r =>
      obtain ⟨db', done, carries'⟩ := carries.write_ok r
      exact ⟨_, _, perform_ok rfl done, Records.keeps_write r done attached, _, carries', backed.write r⟩
  | writeBatch rs =>
      obtain ⟨db', done, carries'⟩ := carries.writeAll_ok rs
      exact ⟨_, _, perform_ok rfl done, Records.keeps_writeAll rs done attached, _, carries',
        backed.writeAll rs⟩
  | remove key =>
      obtain ⟨db', l', done, carries', part⟩ := carries.remove_any key
      refine ⟨_, _, perform_ok rfl done, Records.keeps_remove key done attached, l', carries', ?_⟩
      rw [StoreCommand.written, List.append_nil]
      exact backed.of_partOf part
  | reset => exact ⟨_, _, perform_ok rfl (recreateTables_eq w.database), .emptied w.database⟩
  | markUpdated time =>
      obtain ⟨db', done, carries'⟩ := carries.markUpdated_ok time
      refine ⟨_, _, perform_ok rfl done, keeps_markUpdated time done attached, _, carries', ?_⟩
      rw [StoreCommand.written, List.append_nil]
      exact backed
  | sweep keep =>
      obtain ⟨keys, report, db', l', done, swept, carries', part⟩ := carries.sweep_any keep
      refine ⟨report.removed, _, Script.outcome_bind_ok swept, Records.keeps_removeAll keys done attached,
        l', carries', ?_⟩
      rw [StoreCommand.written, List.append_nil]
      exact backed.of_partOf part

theorem Consistent.run (consistent : Consistent w.database past) (commands : List StoreCommand) :
    ∃ removed w', outcome (StoreCommand.performAll toStore commands) w = (.ok removed, w') ∧
      Consistent w'.database (past ++ commands.flatMap StoreCommand.written) := by
  induction commands generalizing w past with
  | nil =>
      refine ⟨[], w, rfl, ?_⟩
      rw [List.flatMap_nil, List.append_nil]
      exact consistent
  | cons c rest ih =>
      obtain ⟨removed, w₁, done, consistent₁⟩ := consistent.perform c
      obtain ⟨more, w₂, done', consistent₂⟩ := ih consistent₁
      refine ⟨removed :: more, w₂, ?_, ?_⟩
      · rw [StoreCommand.performAll, Script.outcome_bind_ok done, Script.outcome_bind_ok done',
          Script.outcome_pure]
      · rwa [List.flatMap_cons, ← List.append_assoc]

/-! ## Integrity -/

section Rows

variable {ρ χ κ : Type}

/-- Rows with ids and keys of their own, and rows of references that each name one of them; `body` says
what the references of a row are. -/
structure Whole (idOf : ρ → Nat) (parentOf : χ → Nat) (keyOf : ρ → κ) (body : ρ → List χ → Prop)
    (rows : List ρ) (references : List χ) : Prop where
  ids : (rows.map idOf).Nodup
  keys : (rows.map keyOf).Nodup
  owned : Owned idOf parentOf rows references
  bodies : ∀ row ∈ rows, body row (references.filter fun c => parentOf c == idOf row)

end Rows

/-- The row of a member and the references that name it are those of the member that was written last. -/
def MemberStands (past : List Record) (row : MemberRow) (references : List MemberReferenceRow) : Prop :=
  ∃ m : MemberRecord, lastWritten past (Record.member m).key = some (.member m) ∧
    row.memberType = m.memberType.name ∧ row.memberName = m.memberName ∧
    row.containerType = m.containerType ∧ references.map (·.filePath) = m.references.toList

/-- The row of a file and the references that name it are those of the file that was written last, each
at its place in the list. -/
def FileStands (past : List Record) (row : FileRow) (references : List FileReferenceRow) : Prop :=
  ∃ f : FileRecord, lastWritten past (Record.file f).key = some (.file f) ∧
    row.filePath = f.path ∧ row.updatedAt = f.lastIndexed ∧
    references.map (·.position) = List.range f.references.length ∧
    references.mapM Records.referenceOf = .ok f.references

/-- The tables of the store are in order after some records were written. -/
structure Intact (db : Database) (past : List Record) : Prop where
  classes : ∃ rows, db.classes = some rows ∧ (rows.map (·.fqn)).Nodup
  functions : ∃ rows, db.functions = some rows ∧ (rows.map (·.fqn)).Nodup
  constants : ∃ rows, db.constants = some rows ∧ (rows.map (·.fqn)).Nodup
  members : ∃ rows references, db.members = some rows ∧ db.memberReferences = some references ∧
    Whole (·.id) (·.memberId) (fun row => (row.memberType, row.memberName)) (MemberStands past)
      rows references
  files : ∃ rows references, db.files = some rows ∧ db.fileReferences = some references ∧
    Whole (·.id) (·.fileId) (·.filePath) (FileStands past) rows references

theorem position_referenceRows (id position : Nat) (references : List RecordReference) :
    (Records.referenceRows id position references).map (·.position) =
      List.range' position references.length := by
  induction references generalizing position with
  | nil => rfl
  | cons r rest ih => rw [Records.referenceRows, List.map_cons, ih, List.length_cons, List.range'_succ]

theorem Consistent.intact (consistent : Consistent db past) : Intact db past := by
  obtain ⟨attached, l, carries, backed⟩ := consistent
  obtain ⟨classRows, classes, classLists⟩ := carries.classes
  obtain ⟨functionRows, functions, functionLists⟩ := carries.functions
  obtain ⟨constantRows, constants, constantLists⟩ := carries.constants
  obtain ⟨memberRows, memberReferences, members, memberChildren, memberFamily⟩ := carries.members
  obtain ⟨fileRows, fileReferences, files, fileChildren, fileFamily⟩ := carries.files
  have ownedMembers : Owned _ _ (db.members.getD []) (db.memberReferences.getD []) := attached.members
  have ownedFiles : Owned _ _ (db.files.getD []) (db.fileReferences.getD []) := attached.files
  rw [members, memberChildren] at ownedMembers
  rw [files, fileChildren] at ownedFiles
  refine ⟨⟨_, classes, classLists.distinct⟩, ⟨_, functions, functionLists.distinct⟩,
    ⟨_, constants, constantLists.distinct⟩, ⟨_, _, members, memberChildren, ?_⟩,
    ⟨_, _, files, fileChildren, ?_⟩⟩
  · refine ⟨memberFamily.ids, ?_, ownedMembers, fun row member => ?_⟩
    · -- the key that is told apart is made of the two columns
      have distinct := memberFamily.lists.distinct
      exact .of_map (fun columns : String × String => columns.1 ++ "#" ++ columns.2)
        (by rwa [List.map_map])
    · obtain ⟨r, found, ⟨m, rfl, type, name, container⟩, m', same, references⟩ :=
        memberFamily.lists.listed row member
      obtain rfl := Record.member.inj same
      rw [Records.memberKeyOf_head type name] at found
      exact ⟨m, backed _ _ found, type, name, container, references⟩
  · refine ⟨fileFamily.ids, fileFamily.lists.distinct, ownedFiles, fun row member => ?_⟩
    obtain ⟨r, found, ⟨f, rfl, path, stamp⟩, f', same, references⟩ := fileFamily.lists.listed row member
    obtain rfl := Record.file.inj same
    rw [path] at found
    refine ⟨f, backed _ _ found, path, stamp, ?_, ?_⟩
    · rw [references, position_referenceRows, List.range_eq_range']
    · rw [references, Records.referenceOf_rows]

end TableStore

open TableStore (Consistent Intact)

/-- **The tables stay in order.** After any operations on a new store, with any records and keys, each
class, function and constant has one row for its name, each member and each file has one row, every
reference names a row that is there, and the references that name a row are those of the record that
was written last for it, at the places 0, 1, … if it is a file. None of the operations fails. -/
theorem tables_intact {root : Path} {base : Address} {w : World} (fresh : w.Fresh root base)
    (commands : List StoreCommand) :
    ∃ removed w', outcome (StoreCommand.session .sqlite root commands) w = (.ok removed, w') ∧
      Intact w'.database (commands.flatMap StoreCommand.written) := by
  obtain ⟨w₁, opened, bare⟩ := TableStore.open_fresh fresh
  have start : Consistent w₁.database [] := bare ▸ .emptied {}
  obtain ⟨removed, w₂, performed, consistent⟩ := start.run commands
  rw [List.nil_append] at consistent
  refine ⟨removed, w₂, ?_, consistent.intact⟩
  have opened' : outcome (RecordStore.open .sqlite root) w = (.ok (), w₁) := opened
  rw [StoreCommand.session, Script.outcome_bind_ok opened']
  exact performed

/-- Members that follow one another at one id, of which only the first is used anywhere, and files likewise. -/
def reusingCommands : List StoreCommand :=
  [.write (.member ⟨.method, "a", none, .ofList ["file:///a.php"]⟩), .remove ⟨.member, "method#a"⟩,
    .write (.file ⟨"file:///a.php", some 7, [⟨.klass, "A", 1, 2, none, 0⟩]⟩), .sweep fun _ => false,
    .writeBatch [.member ⟨.method, "", none, .empty⟩, .file ⟨"/b.php", none, []⟩]]

/-- The operations on a store in `/i`; the last member has no name and the path of the last file is no URI. -/
theorem sample_tables_intact :
    ∃ removed w', outcome (StoreCommand.session .sqlite ⟨[47, 105]⟩ reusingCommands) newIndex =
        (.ok removed, w') ∧
      Intact w'.database [.member ⟨.method, "a", none, .ofList ["file:///a.php"]⟩,
        .file ⟨"file:///a.php", some 7, [⟨.klass, "A", 1, 2, none, 0⟩]⟩,
        .member ⟨.method, "", none, .empty⟩, .file ⟨"/b.php", none, []⟩] :=
  tables_intact newIndex_fresh reusingCommands

/-- The second member has the id that the first had, and no references. -/
example : ((do
      Records.write (.member ⟨.method, "a", none, .ofList ["file:///a.php"]⟩)
      Records.remove ⟨.member, "method#a"⟩
      Records.write (.member ⟨.method, "b", none, .empty⟩) : Transaction Unit)
    (TableStore.emptied {})).map (fun done => (done.2.members, done.2.memberReferences)) =
      .ok (some [⟨1, "method", "b", none⟩], some []) := by decide +kernel

end SymbolIndex
