import SymbolIndex.Proofs.Index.Operations
import SymbolIndex.Proofs.System.Changes
import SymbolIndex.Proofs.System.Faults

/-!
# Proofs.Index.Untouched — what leaves the marks alone

Looking up and writing records and entries, handing them over, the lock and the time of the last build: none of these
touches the marks, however its calls are answered (`World.MarksOf`, a condition that they keep). Calls that look keep
it, calls on paths that other parts of the index own keep it (`MarksOf.goes_openFile`, `goes_rename`, ...), and so do
the transactions on other tables. So each operation of a store and of a search index keeps it, and what an indexer
makes of them (`Indexer.keeps_apply`, `keeps_flush`, `keeps_judge`, ...).
-/

namespace SymbolIndex

open SymbolIndex.Text (Bytes)
open Disk (Hosts Fit addressOf OnTheWay)

set_option autoImplicit false

variable {α β σ ε δ : Type} {root : Path} {base : Address}

namespace Part

variable {q : Part} {first : Name} {names : List Name}

/-- What lies under a name of a part belongs to it. -/
theorem owns_addressOf (mine : first ∈ q.names) (names : List Name) :
    q.Owns base (addressOf base (first :: names)) :=
  ⟨first, mine, Disk.isUnder_iff.2 ⟨names.reverse, by simp [addressOf]⟩⟩

theorem owns_of_onTheWay (mine : first ∈ q.names) {a : Address} (way : OnTheWay base (first :: names) a) :
    q.Owns base a := by
  obtain ⟨front, rest, some_, parts, rfl⟩ := way
  cases front with
  | nil => exact absurd rfl some_
  | cons name front =>
      obtain ⟨rfl, -⟩ := List.cons.inj parts
      exact owns_addressOf mine front

end Part

namespace World

/-- A world hosts an index, and holds the marks that another world holds. -/
structure MarksOf (root : Path) (base : Address) (w₀ w : World) : Prop where
  hosts : w.disk.Hosts root base
  same : Same base .marks w₀ w

namespace MarksOf

variable {w₀ w w' : World}

theorem refl (hosts : w.disk.Hosts root base) : MarksOf root base w w := ⟨hosts, .refl _ _ _⟩

/-- The disk has changed where another part keeps its files. -/
theorem of_disk (marks : MarksOf root base w₀ w) {q : Part} (other : q ≠ .marks) {d : Disk} (hosts : d.Hosts root base)
    (still : ∀ a, ¬ q.Owns base a → d.node? a = w.disk.node? a) : MarksOf root base w₀ { w with disk := d } where
  hosts := hosts
  same := marks.same.trans ⟨fun a own => still a fun own' => other (own'.unique own), rfl⟩

/-- The database has changed, but not the table of marks. -/
theorem of_database (marks : MarksOf root base w₀ w) {db : Database} (dirty : db.dirty = w.database.dirty)
    (last : db.lastDirtyId = w.database.lastDirtyId) : MarksOf root base w₀ { w with database := db } where
  hosts := marks.hosts
  same := marks.same.trans ⟨fun _ _ => rfl, by simp only [Part.tables, dirty, last]⟩

end MarksOf

end World

open World (MarksOf)

/-! ## Calls -/

/-- A call looks at the disk or the clock, and changes neither the disk nor the database. -/
def Call.Looks : {β : Type} → Call β → Prop
  | _, .read _ | _, .stat _ | _, .readDirectory _ | _, .now => True
  | _, _ => False

theorem Call.looks_read (path : Path) : (Call.read path).Looks := trivial

theorem Call.looks_stat (path : Path) : (Call.stat path).Looks := trivial

theorem Call.looks_now : Call.now.Looks := trivial

theorem Call.Looks.same {request : Call β} (looks : request.Looks) (w : World) :
    (request.perform w).2.disk = w.disk ∧ (request.perform w).2.database = w.database := by
  cases request with
  | read | stat | readDirectory | now => exact ⟨rfl, rfl⟩
  | _ => exact looks.elim

/-- A transaction shows neither in the marks nor in their ids. -/
abbrev Transaction.SparesMarks (t : Transaction α) : Prop := t.Spares fun db => (db.dirty, db.lastDirtyId)

theorem Transaction.Spares.marks {t : Transaction α} (spares : t.Spares Database.beyondRecords) : t.SparesMarks := by
  intro db a db' done
  have same := spares done
  simp only [Database.beyondRecords, Prod.mk.injEq] at same
  exact Prod.ext same.2.2.1 same.2.2.2

section

variable {w₀ w w' : World}

theorem Call.Looks.keeps {request : Call β} (looks : request.Looks) (marks : MarksOf root base w₀ w) :
    MarksOf root base w₀ (request.perform w).2 := by
  obtain ⟨disk, database⟩ := looks.same w
  refine ⟨by rw [disk]; exact marks.hosts, marks.same.trans ⟨fun _ _ => by rw [disk], by rw [database]⟩⟩

theorem Transaction.Spares.keeps {t : Transaction α} (spares : t.SparesMarks) (marks : MarksOf root base w₀ w) :
    MarksOf root base w₀ ((Call.transact t).perform w).2 := by
  rw [Call.perform]
  cases done : t w.database with
  | error e => exact marks
  | ok r =>
      obtain ⟨dirty, last⟩ := Prod.mk.inj (spares done)
      exact marks.of_database dirty last

end

namespace World.MarksOf

variable {w₀ w w' : World} {q : Part} {first : Name} {names target : List Name}

/-- A file that was opened under a name of another part lies there now. -/
theorem goes_openFile (marks : MarksOf root base w₀ w) (other : q ≠ .marks) (mine : first ∈ q.names)
    (fit : Fit (first :: names)) (truncate : Bool) {answer : Except DiskError Nat}
    (goes : (cond truncate (Call.create (root.below (first :: names)))
      (Call.openAppend (root.below (first :: names)))).Goes w answer w') :
    MarksOf root base w₀ w' ∧ ∀ id, answer = .ok id →
      ∃ c m, w'.disk.node? (addressOf base (first :: names)) = some (.file id c m) := by
  have performed : (cond truncate (Call.create (root.below (first :: names)))
      (Call.openAppend (root.below (first :: names)))).perform w =
        w.onDisk (w.disk.openFile w.time truncate (root.below (first :: names))) := by
    cases truncate <;> rfl
  cases goes with
  | failed fault =>
      obtain ⟨e, -, rfl⟩ : DiskFault answer := by cases truncate <;> exact fault
      exact ⟨marks, fun id ok => nomatch ok⟩
  | performed =>
      rw [performed]
      cases opened : w.disk.openFile w.time truncate (root.below (first :: names)) with
      | error e => exact ⟨marks, fun id ok => nomatch ok⟩
      | ok r =>
          obtain ⟨id, d⟩ := r
          obtain ⟨hosts, there, still⟩ := marks.hosts.openFile_ok fit opened
          refine ⟨marks.of_disk other hosts fun a off => still a fun same => ?_, fun id' ok => ?_⟩
          · exact off (same ▸ Part.owns_addressOf mine names)
          · cases ok
            exact there

/-- What is written to a file of another part lands there. -/
theorem goes_append (marks : MarksOf root base w₀ w) (other : q ≠ .marks) (mine : first ∈ q.names) {id : Nat}
    {bytes : Bytes} (there : ∃ c m, w.disk.node? (addressOf base (first :: names)) = some (.file id c m))
    {answer : Except DiskError Unit} (goes : (Call.append id bytes).Goes w answer w') :
    MarksOf root base w₀ w' ∧ ∃ c m, w'.disk.node? (addressOf base (first :: names)) = some (.file id c m) := by
  cases goes with
  | failed fault => exact ⟨marks, there⟩
  | performed =>
      obtain ⟨c, m, file⟩ := there
      obtain ⟨hosts, effect⟩ := marks.hosts.append_file w.time (Disk.below_addressOf (by simp)) file bytes
      refine ⟨marks.of_disk other hosts fun a off => ?_, c ++ bytes, w.time, (effect _).trans (if_pos rfl)⟩
      rw [effect, if_neg]
      rintro rfl
      exact off (Part.owns_addressOf mine names)

/-- A file of another part is moved within that part. -/
theorem goes_rename (marks : MarksOf root base w₀ w) (other : q ≠ .marks) (mine : first ∈ q.names) {second : Name}
    (mine' : second ∈ q.names) (fit : Fit (first :: names)) (fit' : Fit (second :: target))
    (different : first :: names ≠ second :: target) {id : Nat}
    (there : ∃ c m, w.disk.node? (addressOf base (first :: names)) = some (.file id c m))
    {answer : Except DiskError Unit}
    (goes : (Call.rename (root.below (first :: names)) (root.below (second :: target))).Goes w answer w') :
    MarksOf root base w₀ w' := by
  cases goes with
  | failed fault => exact marks
  | performed =>
      obtain ⟨c, m, file⟩ := there
      rw [Call.perform]
      cases renamed : w.disk.rename (root.below (first :: names)) (root.below (second :: target)) with
      | error e => exact marks
      | ok d =>
          have apart : addressOf base (first :: names) ≠ addressOf base (second :: target) := fun same =>
            different (List.reverse_inj.1 (List.append_cancel_right same))
          obtain ⟨hosts, still⟩ := marks.hosts.rename_ok fit fit' file apart renamed
          refine marks.of_disk other hosts fun a off => still a ?_ ?_
          · rintro rfl
            exact off (Part.owns_addressOf mine names)
          · rintro rfl
            exact off (Part.owns_addressOf mine' target)

/-- A file of another part is removed. -/
theorem perform_removeFile (marks : MarksOf root base w₀ w) (other : q ≠ .marks) (mine : first ∈ q.names)
    (fit : Fit (first :: names)) :
    MarksOf root base w₀ ((Call.removeFile (root.below (first :: names))).perform w).2 := by
  rw [Call.perform]
  cases removed : w.disk.removeFile (root.below (first :: names)) with
  | error e => exact marks
  | ok d =>
      obtain ⟨hosts, still⟩ := marks.hosts.removeFile_ok fit removed
      refine marks.of_disk other hosts fun a off => still a ?_
      rintro rfl
      exact off (Part.owns_addressOf mine names)

/-- Directories of another part are created. -/
theorem perform_createDirectories (marks : MarksOf root base w₀ w) (other : q ≠ .marks) (mine : first ∈ q.names)
    (fit : Fit (first :: names)) :
    MarksOf root base w₀ ((Call.createDirectories (root.below (first :: names))).perform w).2 := by
  rw [Call.perform]
  cases created : w.disk.createDirectories w.time (root.below (first :: names)) with
  | error e => exact marks
  | ok d =>
      obtain ⟨hosts, still⟩ := marks.hosts.createDirectories_ok fit created
      exact marks.of_disk other hosts fun a off => still a fun way => off (Part.owns_of_onTheWay mine way)

end World.MarksOf

/-! ## Records as files -/

section

variable {w₀ : World}

/-- A script that no run of which touches the marks. -/
abbrev Script.LeavesMarks (root : Path) (base : Address) (s : Script α) : Prop :=
  ∀ w₀, s.Keeps (MarksOf root base w₀)

theorem Script.leaves_ask {request : Call α} (looks : request.Looks) : (Script.ask request).LeavesMarks root base :=
  fun _ => .ask fun _ marks => looks.keeps marks

end

namespace FileStore

open Script (LeavesMarks)

variable {key : RecordKey}

theorem recordsPart_mem : recordsPart ∈ Part.records.names := by simp [Part.names]

theorem leaves_discard {names : List Name} (fit : Fit (recordsPart :: names)) :
    (discard (root.below (recordsPart :: names))).LeavesMarks root base := fun _ =>
  (Script.Keeps.ask fun _ marks => marks.perform_removeFile (by decide) recordsPart_mem fit).bind fun _ => .pure _

theorem leaves_readEntry {names : List Name} (fit : Fit (recordsPart :: names)) :
    (readEntry (root.below (recordsPart :: names))).LeavesMarks root base := fun w₀ => by
  refine (Script.leaves_ask (Call.looks_read _) w₀).bind fun answer => ?_
  split
  · exact .pure _
  · split
    · exact .pure _
    · exact (leaves_discard fit w₀).bind fun _ => .pure _

theorem leaves_get (key : RecordKey) : ((ofRoot root).get key).LeavesMarks root base := fun w₀ => by
  rw [FileStore.get, recordPath_below]
  refine (leaves_readEntry (fit_fileNames key) w₀).bind fun found => ?_
  split
  · exact .pure _
  · split
    · exact .pure _
    · exact (leaves_discard (fit_fileNames key) w₀).bind fun _ => .pure _

theorem leaves_isFresh (path : String) (mtime : Int64) :
    ((ofRoot root).isFresh path mtime).LeavesMarks root base := fun w₀ => by
  refine (leaves_get _ w₀).bind fun found => ?_
  split <;> exact .pure _

/-- A file that was written under a name of the store lies there. -/
theorem goes_writeFile {names : List Name} (fit : Fit (recordsPart :: names)) {bytes : Bytes} {w₀ w w' : World}
    {t : List Answered} {answer : Except DiskError Unit} (marks : MarksOf root base w₀ w)
    (goes : (writeFile (root.below (recordsPart :: names)) bytes).Goes w t answer w') :
    MarksOf root base w₀ w' ∧ (answer = .ok () →
      ∃ id c m, w'.disk.node? (addressOf base (recordsPart :: names)) = some (.file id c m)) := by
  obtain ⟨t₁, t₂, opened, w₁, -, first, rest⟩ := Script.goes_bind.1 goes
  obtain ⟨-, first⟩ := Script.goes_ask.1 first
  obtain ⟨marks₁, there⟩ := marks.goes_openFile (by decide) recordsPart_mem fit true first
  cases opened with
  | error e =>
      obtain ⟨-, rfl, rfl⟩ := Script.goes_done.1 rest
      exact ⟨marks₁, fun ok => nomatch ok⟩
  | ok id =>
      obtain ⟨-, called⟩ := Script.goes_ask.1 rest
      obtain ⟨marks₂, c, m, file⟩ := marks₁.goes_append (by decide) recordsPart_mem (there id rfl) called
      exact ⟨marks₂, fun _ => ⟨id, c, m, file⟩⟩

theorem leaves_write (record : Record) : ((ofRoot root).write record).LeavesMarks root base := fun w₀ => by
  rw [FileStore.write, recordDirectory_below, draftPath_below, recordPath_below]
  split
  · exact .pure _
  · refine .bind (.ask fun _ marks => marks.perform_createDirectories (by decide) recordsPart_mem
      (fit_directoryNames _)) fun made => ?_
    cases made with
    | error e => exact .pure _
    | ok made =>
        -- The draft lies where it is moved from only if it was written.
        intro w t u w' marks goes
        obtain ⟨t₁, t₂, written, w₁, -, first, rest⟩ := Script.goes_bind.1 goes
        obtain ⟨marks₁, there⟩ := goes_writeFile (fit_draftNames _) marks first
        cases written with
        | error e =>
            obtain ⟨-, -, rfl⟩ := Script.goes_done.1 rest
            exact marks₁
        | ok _ =>
            obtain ⟨t₃, t₄, moved, w₂, -, second, last⟩ := Script.goes_bind.1 rest
            obtain ⟨-, called⟩ := Script.goes_ask.1 second
            obtain ⟨id, file⟩ := there rfl
            have different : draftNames record.key ≠ fileNames record.key := fun same =>
              fileName_ne_draftName _ _ (List.append_cancel_left same |> List.singleton_inj.1).symm
            have marks₂ := marks₁.goes_rename (by decide) recordsPart_mem recordsPart_mem (fit_draftNames _)
              (fit_fileNames _) different file called
            cases moved with
            | error e => exact leaves_discard (fit_draftNames _) w₀ marks₂ last
            | ok _ =>
                obtain ⟨-, -, rfl⟩ := Script.goes_done.1 last
                exact marks₂

theorem leaves_writeAll (records : List Record) : ((ofRoot root).writeAll records).LeavesMarks root base := fun w₀ => by
  induction records with
  | nil => exact .pure _
  | cons record records ih => exact (leaves_write record w₀).bind fun _ => ih

theorem timestampDraft_below (root : Path) :
    (ofRoot root).timestampDraft = root.below [recordsPart, timestampDraftName] := by
  rw [timestampDraft, root_below, child_below]
  rfl

theorem leaves_markUpdated (time : Int64) : ((ofRoot root).markUpdated time).run.LeavesMarks root base := by
  intro w₀ w t r w' marks goes
  rw [FileStore.markUpdated, timestampDraft_below, timestampPath_below] at goes
  rcases Script.goes_run_bind.1 goes with ⟨e, -, first⟩ | ⟨id, w₁, t₁, t₂, -, first, rest⟩
  · obtain ⟨answer, -, -, called⟩ := Stored.goes_disk.1 first
    exact (marks.goes_openFile (by decide) recordsPart_mem fit_timestampDraft true called).1
  obtain ⟨answer, same, -, called⟩ := Stored.goes_disk.1 first
  obtain ⟨marks₁, there⟩ := marks.goes_openFile (by decide) recordsPart_mem fit_timestampDraft true called
  obtain rfl : answer = .ok id := by
    cases answer <;> cases same
    rfl
  rcases Script.goes_run_bind.1 rest with ⟨e, -, second⟩ | ⟨_, w₂, t₃, t₄, -, second, third⟩
  · obtain ⟨answer, -, -, called⟩ := Stored.goes_disk.1 second
    exact (marks₁.goes_append (by decide) recordsPart_mem (there id rfl) called).1
  obtain ⟨answer, -, -, called⟩ := Stored.goes_disk.1 second
  obtain ⟨marks₂, file⟩ := marks₁.goes_append (by decide) recordsPart_mem (there id rfl) called
  obtain ⟨answer, -, -, called⟩ := Stored.goes_disk.1 third
  refine marks₂.goes_rename (by decide) recordsPart_mem recordsPart_mem fit_timestampDraft fit_timestamp
    (fun same => timestampName_ne_draft ?_) file called
  simpa using same.symm

end FileStore

/-! ## Record stores -/

/-- The operations of a store that a pass uses leave the marks alone. -/
structure RecordStore.LeavesMarks (root : Path) (base : Address) (store : RecordStore) : Prop where
  get : ∀ key, (store.get key).run.LeavesMarks root base
  writeBatch : ∀ records, (store.writeBatch records).run.LeavesMarks root base
  isFresh : ∀ path mtime, (store.isFresh path mtime).run.LeavesMarks root base
  markUpdated : ∀ time, (store.markUpdated time).run.LeavesMarks root base
  flush : store.flush.run.LeavesMarks root base

theorem TableStore.spares_isFresh {γ : Type} {view : Database → γ} (path : String) (mtime : Int64) :
    (isFresh path mtime).Spares view := by
  refine .bind (.rows _) fun rows => ?_
  split
  · split <;> exact .pure _
  · exact .pure _

theorem Stored.leaves_transact {t : Transaction α} (spares : t.SparesMarks) :
    (Stored.transact t).run.LeavesMarks root base := fun _ =>
  .stored_transact fun _ marks => Transaction.Spares.keeps spares marks

/-- The store of an index of either kind leaves the marks alone. -/
theorem RecordStore.leavesMarks_ofBackend (backend : Backend) (root : Path) (base : Address) :
    (ofBackend backend root).LeavesMarks root base := by
  cases backend with
  | file => exact {
      get := fun key w₀ => .lift (FileStore.leaves_get key w₀)
      writeBatch := fun records w₀ => .lift (FileStore.leaves_writeAll records w₀)
      isFresh := fun path mtime w₀ => .lift (FileStore.leaves_isFresh path mtime w₀)
      markUpdated := FileStore.leaves_markUpdated
      flush := fun _ => .stored_pure _ }
  | sqlite => exact {
      get := fun key => Stored.leaves_transact (Records.spares_get key)
      writeBatch := fun records => Stored.leaves_transact (Records.spares_writeAll records).marks
      isFresh := fun path mtime => Stored.leaves_transact (TableStore.spares_isFresh path mtime)
      markUpdated := fun time => Stored.leaves_transact (TableStore.spares_markUpdated time).marks
      flush := fun _ => .stored_pure _ }

/-- An action that no run of which touches the marks. -/
abbrev Action.LeavesMarks (root : Path) (base : Address) (a : Action σ ε α) : Prop :=
  ∀ w₀, a.Keeps fun _ => MarksOf root base w₀

namespace Buffer

variable {inner : RecordStore}

theorem leaves_find? (leaves : inner.LeavesMarks root base) (b : Buffer) (key : RecordKey) :
    (b.find? inner key).run.LeavesMarks root base := fun w₀ => by
  rw [find?]
  split
  · exact .stored_pure _
  · exact leaves.get key w₀

theorem leaves_isFresh (leaves : inner.LeavesMarks root base) (b : Buffer) (path : String) (mtime : Int64) :
    (b.isFresh inner path mtime).run.LeavesMarks root base := fun w₀ => by
  rw [Buffer.isFresh]
  split
  · exact .stored_pure _
  · exact leaves.isFresh path mtime w₀

theorem leaves_flush (leaves : inner.LeavesMarks root base) : (Buffer.flush inner).LeavesMarks root base := fun w₀ => by
  refine .bind .get fun b => .bind (.set fun _ _ => id) fun _ => ?_
  have last : (Action.ofScript inner.flush : Buffered Unit).Keeps fun _ => MarksOf root base w₀ :=
    .ofScript fun _ => leaves.flush w₀
  split
  · exact .bind (.ofScript fun _ => leaves.writeBatch _ w₀) fun _ => last
  · exact last

theorem leaves_write (leaves : inner.LeavesMarks root base) (record : Record) :
    (Buffer.write inner record).LeavesMarks root base := fun w₀ => by
  rw [Buffer.write]
  split
  · exact .pure _
  · refine .bind (.modify fun _ _ => id) fun _ => .bind .get fun b => ?_
    split
    · exact leaves_flush leaves w₀
    · exact .pure _

end Buffer

/-! ## Search indexes -/

theorem FileIndex.filePart_mem : FileIndex.filePart ∈ Part.search.names := by simp [Part.names]

theorem FileIndex.draftPart_mem : FileIndex.draftPart ∈ Part.search.names := by simp [Part.names]

/-- A search index that keeps a file keeps it under the root of the index. -/
def SearchIndex.Under (root : Path) : SearchIndex → Prop
  | .file i => i.path = root.child FileIndex.fileName
  | .table _ => True

namespace FileIndex

variable {w₀ : World}

/-- The file is under a root, and the world holds the marks of another. -/
abbrev Placed (root : Path) (base : Address) (w₀ : World) (i : FileIndex) (w : World) : Prop :=
  i.path = root.child fileName ∧ MarksOf root base w₀ w

theorem keeps_persist : persist.Keeps (Placed root base w₀) := by
  rintro i w t r i' w' ⟨path, marks⟩ goes
  replace goes := Action.goes_get_bind.1 goes
  rw [path, draftPath_below] at goes
  rcases Action.goes_bind.1 goes with ⟨e, -, first⟩ | ⟨file, i₁, w₁, t₁, t₂, -, first, rest⟩
  · obtain ⟨rfl, answer, -, -, called⟩ := Action.goes_ask.1 first
    exact ⟨path, (marks.goes_openFile (by decide) draftPart_mem fit_draft true called).1⟩
  obtain ⟨rfl, answer, same, -, called⟩ := Action.goes_ask.1 first
  obtain ⟨marks₁, there⟩ := marks.goes_openFile (by decide) draftPart_mem fit_draft true called
  obtain rfl : answer = .ok file := by
    cases answer <;> cases same
    rfl
  -- The draft is moved from where it lies, with the entries in it or not.
  have moved : ∀ {w₂ t r i' w'}, MarksOf root base w₀ w₂ →
      (∃ c m, w₂.disk.node? (addressOf base [draftPart]) = some (.file file c m)) →
      Action.Goes (Action.ask SearchError.io (.rename (root.below ([] ++ [draftPart])) (root.child fileName))) i₁ w₂ t r
        i' w' → Placed root base w₀ i' w' := by
    intro w₂ t r i' w' marks₂ there goes
    obtain ⟨rfl, answer, -, -, called⟩ := Action.goes_ask.1 goes
    exact ⟨path, marks₂.goes_rename (by decide) draftPart_mem filePart_mem fit_draft fit_file
      (fun same => draftPart_ne (List.cons.inj same).1) there called⟩
  split at rest
  · rcases Action.goes_bind.1 rest with ⟨e, -, second⟩ | ⟨_, i₂, w₂, t₃, t₄, -, second, third⟩
    · obtain ⟨rfl, answer, -, -, called⟩ := Action.goes_ask.1 second
      exact ⟨path, (marks₁.goes_append (by decide) draftPart_mem (there file rfl) called).1⟩
    · obtain ⟨rfl, answer, -, -, called⟩ := Action.goes_ask.1 second
      obtain ⟨marks₂, there'⟩ := marks₁.goes_append (by decide) draftPart_mem (there file rfl) called
      exact moved marks₂ there' third
  · exact moved marks₁ (there file rfl) rest

theorem keeps_flush : FileIndex.flush.Keeps (Placed root base w₀) := by
  intro i w t r i' w' placed goes
  replace goes := Action.goes_get_bind.1 goes
  split at goes
  · obtain ⟨-, -, rfl, rfl⟩ := Action.goes_pure.1 goes
    exact placed
  · have settled : Placed root base w₀ i.settle w := placed
    exact keeps_persist settled (Action.goes_set_bind.1 goes)

theorem keeps_write (record : Record) : (FileIndex.write record).Keeps (Placed root base w₀) := by
  rw [FileIndex.write]
  split
  · exact .pure _
  · refine .bind (.modify fun _ _ => id) fun _ => .bind .get fun i => ?_
    split
    · exact keeps_flush
    · exact .pure _

end FileIndex

namespace TableIndex

theorem spares_writeEntry (e : SearchEntry) : (writeEntry e).SparesMarks := by
  refine .bind (.rows _) fun rows => .bind ?_ fun db => .bind (.modify (fun _ _ => rfl) _) fun _ => ?_
  · rintro db _ _ ⟨⟩
    rfl
  · rintro db _ _ ⟨⟩
    rfl

theorem spares_writeEntries (entries : List SearchEntry) : (writeEntries entries).SparesMarks := by
  induction entries with
  | nil => exact .pure _
  | cons e entries ih => exact .bind (spares_writeEntry e) fun _ => ih

theorem leaves_flush : TableIndex.flush.LeavesMarks root base := fun w₀ => by
  refine .bind .get fun i => ?_
  split
  · exact .pure _
  · exact .bind (.ask fun _ _ marks => Transaction.Spares.keeps (spares_writeEntries _) marks) fun _ =>
      .set fun _ _ => id

theorem leaves_write (record : Record) : (TableIndex.write record).LeavesMarks root base := fun w₀ => by
  rw [TableIndex.write]
  split
  · exact .pure _
  · refine .bind (.modify fun _ _ => id) fun _ => .bind .get fun i => ?_
    split
    · exact leaves_flush w₀
    · exact .pure _

end TableIndex

namespace SearchIndex

variable {w₀ : World}

/-- The search index is under a root, and the world holds the marks of another. -/
abbrev Placed (root : Path) (base : Address) (w₀ : World) (index : SearchIndex) (w : World) : Prop :=
  index.Under root ∧ MarksOf root base w₀ w

theorem keeps_onEither {onFile : Action FileIndex SearchError α} {onTable : Action TableIndex SearchError α}
    (file : onFile.Keeps (FileIndex.Placed root base w₀)) (table : onTable.LeavesMarks root base) :
    (onEither onFile onTable).Keeps (Placed root base w₀) := by
  rintro index w t r index' w' ⟨under, marks⟩ goes
  cases index with
  | file i =>
      obtain ⟨t₁, t₂, ⟨r₁, i₁⟩, w₁, -, first, rest⟩ := Script.goes_bind.1 goes
      obtain ⟨-, same, rfl⟩ := Script.goes_done.1 rest
      cases same
      exact file ⟨under, marks⟩ first
  | table i =>
      obtain ⟨t₁, t₂, ⟨r₁, i₁⟩, w₁, -, first, rest⟩ := Script.goes_bind.1 goes
      obtain ⟨-, same, rfl⟩ := Script.goes_done.1 rest
      cases same
      exact ⟨trivial, table w₀ marks first⟩

end SearchIndex

/-! ## What an indexer does beside its log -/

namespace Indexer

variable {x : Indexer} {log : DirtyLog} {w₀ : World}

/-- The indexer has the same handle on the log as before, and the world the same marks. -/
structure Aside (root : Path) (base : Address) (log : DirtyLog) (w₀ : World) (s : IndexState) (w : World) : Prop where
  search : s.search.Under root
  dirty : s.dirty = log
  marks : MarksOf root base w₀ w

/-- An action of an indexer that no run of which touches the log. -/
abbrev KeepsAside (root : Path) (base : Address) (a : Indexed α) : Prop := ∀ log w₀, a.Keeps (Aside root base log w₀)

theorem keeps_onBuffer {a : Buffered α} (leaves : a.LeavesMarks root base) : KeepsAside root base (onBuffer a) :=
  fun _ w₀ => .within (leaves w₀) (fun _ _ aside => aside.marks) fun _ _ _ _ aside marks =>
    ⟨aside.search, aside.dirty, marks⟩

theorem keeps_onSearch {a : Searched α} (kept : ∀ w₀, a.Keeps (SearchIndex.Placed root base w₀)) :
    KeepsAside root base (onSearch a) := fun _ w₀ =>
  .within (kept w₀) (fun _ _ aside => ⟨aside.search, aside.marks⟩) fun _ _ _ _ aside placed =>
    ⟨placed.1, aside.dirty, placed.2⟩

theorem keeps_ofScript {script : Script (Except IndexError α)} (leaves : script.LeavesMarks root base) :
    KeepsAside root base (Action.ofScript script) := fun _ w₀ =>
  .ofScript fun _ _ _ _ _ aside goes => ⟨aside.search, aside.dirty, leaves w₀ aside.marks goes⟩

theorem keeps_ofPlain {script : Script α} (leaves : script.LeavesMarks root base) :
    KeepsAside root base (Action.ofPlain script) :=
  keeps_ofScript fun w₀ => (leaves w₀).bind fun _ => .pure _

theorem keeps_onStore {script : Stored α} (leaves : script.run.LeavesMarks root base) :
    KeepsAside root base (onStore script) :=
  keeps_ofScript fun w₀ => (leaves w₀).bind fun _ => .pure _

theorem keeps_find? (leaves : x.store.LeavesMarks root base) (key : RecordKey) : KeepsAside root base (x.find? key) :=
  fun log w₀ => .bind .get fun s => keeps_onStore (Buffer.leaves_find? leaves s.buffer key) log w₀

theorem keeps_write (leaves : x.store.LeavesMarks root base) (record : Record) :
    KeepsAside root base (x.write record) :=
  keeps_onBuffer (Buffer.leaves_write leaves record)

theorem keeps_writeEntry (record : Record) : KeepsAside root base (onSearch (SearchIndex.write record)) :=
  keeps_onSearch fun _ => SearchIndex.keeps_onEither (FileIndex.keeps_write record) (TableIndex.leaves_write record)

theorem keeps_flush (leaves : x.store.LeavesMarks root base) : KeepsAside root base x.flush := fun log w₀ =>
  .bind (keeps_onBuffer (Buffer.leaves_flush leaves) log w₀) fun _ =>
    keeps_onSearch (fun _ => SearchIndex.keeps_onEither FileIndex.keeps_flush TableIndex.leaves_flush) log w₀

theorem keeps_flushIfFull (leaves : x.store.LeavesMarks root base) :
    KeepsAside root base x.flushIfFull := fun log w₀ => by
  refine .bind .get fun s => ?_
  split
  · exact keeps_flush leaves log w₀
  · exact .pure _

theorem keeps_markUpdated (leaves : x.store.LeavesMarks root base) (time : Int64) :
    KeepsAside root base (onStore (x.store.markUpdated time)) := keeps_onStore (leaves.markUpdated time)

theorem keeps_nowMillis : KeepsAside root base (Action.ofPlain Freshness.nowMillis) :=
  keeps_ofPlain fun w₀ => (Script.leaves_ask Call.looks_now w₀).bind fun _ => .pure _

theorem keeps_nowSeconds : KeepsAside root base (Action.ofPlain Freshness.nowSeconds) :=
  keeps_ofPlain fun w₀ => ((Script.leaves_ask Call.looks_now w₀).bind fun _ => .pure _).bind fun _ => .pure _

/-- The lock is taken in a file of its own. -/
theorem keeps_lock (at_ : x.root = root) : KeepsAside root base x.lock := by
  intro log w₀
  have made : (Action.ask IndexError.io (.createDirectories x.root) : Indexed Unit).Keeps (Aside root base log w₀) := by
    refine .ask fun s w aside => ⟨aside.search, aside.dirty, ?_⟩
    rw [at_, Call.perform, aside.marks.hosts.createDirectories_self]
    exact aside.marks
  refine .bind made fun _ => .bind ?_ fun _ => .pure _
  intro s w t r s' w' aside goes
  obtain ⟨rfl, answer, -, -, called⟩ := Action.goes_ask.1 goes
  rw [at_, lockPath_below] at called
  have mine : lockPart ∈ Part.lock.names := by simp [Part.names]
  exact ⟨aside.search, aside.dirty, (aside.marks.goes_openFile (by decide) mine fit_lock false called).1⟩

/-! ### One document -/

variable {uri : String} {g : Gathered}

theorem keeps_file? (leaves : x.store.LeavesMarks root base) (uri : String) : KeepsAside root base (x.file? uri) :=
  fun log w₀ => by
    refine .bind (keeps_find? leaves _ log w₀) fun found => ?_
    split <;> exact .pure _

theorem keeps_member? (leaves : x.store.LeavesMarks root base) (g : Gathered) (identifier : String) :
    KeepsAside root base (x.member? g identifier) := fun log w₀ => by
  rw [member?]
  split
  · exact .pure _
  · split
    · exact .pure _
    · refine .bind (keeps_find? leaves _ log w₀) fun found => ?_
      split <;> exact .pure _

theorem keeps_writeSymbol (leaves : x.store.LeavesMarks root base) (g : Gathered) (record : Record) :
    KeepsAside root base (x.writeSymbol g record) := fun log w₀ =>
  .bind (keeps_writeEntry record log w₀) fun _ => .bind (keeps_write leaves record log w₀) fun _ => .pure _

theorem keeps_offerSymbol (leaves : x.store.LeavesMarks root base) (g : Gathered) (record : Record) :
    KeepsAside root base (x.offerSymbol g record) := fun log w₀ => by
  rw [offerSymbol]
  split
  · refine .bind (.bind (keeps_find? leaves _ log w₀) fun _ => .pure _) fun defined => ?_
    split
    · exact .pure _
    · exact keeps_writeSymbol leaves g record log w₀
  · exact keeps_writeSymbol leaves g record log w₀

theorem keeps_gather (leaves : x.store.LeavesMarks root base) (uri : String) (g : Gathered) (record : Record) :
    KeepsAside root base (x.gather uri g record) := fun log w₀ => by
  cases record with
  | member m =>
      refine .bind (keeps_member? leaves g _ log w₀) fun known => ?_
      split <;> exact .pure _
  | file file =>
      rw [gather]
      split
      · exact .pure _
      · exact keeps_offerSymbol leaves g _ log w₀
  | klass | function | constant => exact keeps_offerSymbol leaves g _ log w₀

theorem keeps_forgetReference (leaves : x.store.LeavesMarks root base) (uri : String) (g : Gathered)
    (identifier : String) : KeepsAside root base (x.forgetReference uri g identifier) := fun log w₀ => by
  refine .bind (keeps_member? leaves g identifier log w₀) fun known => ?_
  split <;> exact .pure _

theorem keeps_addReference (leaves : x.store.LeavesMarks root base) (uri : String) (g : Gathered)
    (identifier : String) : KeepsAside root base (x.addReference uri g identifier) := fun log w₀ => by
  refine .bind (keeps_member? leaves g identifier log w₀) fun known => ?_
  split
  · exact .pure _
  · split <;> exact .pure _

/-- Applying a document does not touch the log. -/
theorem keeps_apply (leaves : x.store.LeavesMarks root base) (uri : String) (records : List Record) :
    KeepsAside root base (x.apply uri records) := fun log w₀ => by
  refine .bind (keeps_file? leaves uri log w₀) fun previous => ?_
  refine .bind (.foldlM (fun g record => keeps_gather leaves uri g record log w₀) records {}) fun g => ?_
  refine .bind (keeps_nowMillis log w₀) fun now => ?_
  refine .bind (.foldlM (fun g i => keeps_forgetReference leaves uri g i log w₀) _ g) fun g => ?_
  refine .bind (.foldlM (fun g i => keeps_addReference leaves uri g i log w₀) _ g) fun g => ?_
  refine .bind (.forM (fun m => keeps_write leaves (.member m) log w₀) _) fun _ => ?_
  exact .bind (keeps_write leaves _ log w₀) fun _ => .pure _

/-! ### Choosing -/

theorem keeps_judge (leaves : x.store.LeavesMarks root base) (c : Candidate) : KeepsAside root base (x.judge c) :=
  fun log w₀ => by
    have looked : KeepsAside root base (Action.ofPlain (Freshness.mtime c.path)) :=
      keeps_ofPlain fun w₀ => (Script.leaves_ask (Call.looks_stat _) w₀).bind fun answer => by
        cases answer <;> exact .pure _
    refine .bind (looked log w₀) fun found => ?_
    split
    · exact .pure _
    · exact .pure _
    · refine .bind .get fun s =>
        .bind (keeps_onStore (Buffer.leaves_isFresh leaves s.buffer _ _) log w₀) fun fresh => ?_
      split <;> exact .pure _

theorem keeps_consider (leaves : x.store.LeavesMarks root base) (force : Bool) (choice : Choice) (path : Path) :
    KeepsAside root base (x.consider force choice path) := fun log w₀ => by
  rw [consider]
  split
  · exact .pure _
  · split
    · exact .pure _
    · exact .bind (keeps_judge leaves _ log w₀) fun _ => .pure _

/-- Reading files does not touch the log. -/
theorem keeps_readAll (chunk : List Candidate) :
    KeepsAside root base (Action.ofPlain (chunk.mapM fun c => do return (c, ← c.read))) :=
  keeps_ofPlain fun w₀ => by
    refine .mapM (fun c => .bind ?_ fun _ => .pure _) chunk
    refine (Script.leaves_ask (Call.looks_read _) w₀).bind fun answer => ?_
    cases answer with
    | error e => exact .pure _
    | ok bytes =>
        simp only
        split <;> exact .pure _

end Indexer

end SymbolIndex
