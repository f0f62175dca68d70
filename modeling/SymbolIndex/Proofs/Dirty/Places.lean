import SymbolIndex.Proofs.Dirty.FileLog
import SymbolIndex.Proofs.Store.Opening
import Mathlib.Logic.Function.Basic

/-!
# Proofs.Dirty.Places — the files of a log, call by call

A log is one file at rest, and up to three while it is worked on: the log, a draft of it, and the log that was
moved aside. Each is missing or a sheet of marks with the number of its file, and `Slots` is what the three places
hold. A disk holds them when it is `FileLog.Filed` so.

Each call that an operation makes has its counterpart on the slots, and one lemma says that the disk follows:
reading (`Filed.read`), opening a place (`Filed.openAppend`, `Filed.create`), writing to whatever place an open file
has by then (`Filed.append`), moving one file in place of another (`Filed.rename`) and removing one
(`Filed.removeFile`).
-/

namespace SymbolIndex

open SymbolIndex.Text (Bytes decode?)

set_option autoImplicit false

namespace Disk

variable {d d' : Disk} {now : Int} {path target : Path}

theorem nextId_rename (renamed : d.rename path target = .ok d') : d'.nextId = d.nextId := by
  rw [rename] at renamed
  repeat' split at renamed
  all_goals cases renamed
  all_goals rfl

theorem nextId_removeFile (removed : d.removeFile path = .ok d') : d'.nextId = d.nextId := by
  rw [removeFile] at removed
  split at removed <;> cases removed
  rfl

end Disk

namespace FileLog

open Disk (Hosts Fit addressOf contentAt)

/-! ## Three places -/

/-- The places of a log: where it lies, where it is written anew, and where it is moved to be drained. -/
inductive Part where
  | log
  | draft
  | draining
  deriving DecidableEq

namespace Part

/-- The name of a place, in bytes. -/
def name : Part → Name
  | .log => logPart
  | .draft => draftPart
  | .draining => drainingPart

/-- The address of a place. -/
def address (base : Address) (p : Part) : Address := p.name :: base

/-- The path of a place. -/
def path (root : Path) (p : Part) : Path := root.below ([] ++ [p.name])

theorem fit (p : Part) : Fit ([] ++ [p.name]) := by
  cases p
  · exact fit_log
  · exact fit_draft
  · exact fit_draining

theorem name_inj {p q : Part} (same : p.name = q.name) : p = q := by
  obtain ⟨one, two, three⟩ := parts_distinct
  cases p <;> cases q
  all_goals first
    | rfl
    | exact absurd same one
    | exact absurd same two
    | exact absurd same three
    | exact absurd same.symm one
    | exact absurd same.symm two
    | exact absurd same.symm three

theorem address_ne {p q : Part} (base : Address) (other : p ≠ q) : p.address base ≠ q.address base :=
  fun same => other (name_inj (List.cons.inj same).1)

end Part

/-- A file of marks, with its number. -/
structure Sheet where
  number : Nat
  marks : List String
  deriving DecidableEq

/-- What the places hold, and the number of the next new file. -/
structure Slots where
  place : Part → Option Sheet
  next : Nat

namespace Slots

/-- The entries in a place, none if it is vacant. -/
def entries (σ : Slots) (p : Part) : List String :=
  match σ.place p with
  | some sheet => sheet.marks.flatMap linesOf
  | none => []

/-- A place holds something else. -/
def put (σ : Slots) (p : Part) (slot : Option Sheet) : Slots := { σ with place := Function.update σ.place p slot }

/-- The number of the file in a place, or the next one if a file is made there. -/
def numberAt (σ : Slots) (p : Part) : Nat :=
  match σ.place p with
  | some sheet => sheet.number
  | none => σ.next

/-- A place is opened to be written at its end, or anew. -/
def openFile (σ : Slots) (truncate : Bool) (p : Part) : Slots :=
  match σ.place p with
  | some sheet => if truncate then σ.put p (some ⟨sheet.number, []⟩) else σ
  | none => { σ.put p (some ⟨σ.next, []⟩) with next := σ.next + 1 }

/-- Marks are written to an open file, wherever it lies. -/
def append (σ : Slots) (number : Nat) (added : List String) : Slots :=
  { σ with
    place := fun p =>
      (σ.place p).map fun sheet => if sheet.number = number then ⟨number, sheet.marks ++ added⟩ else sheet }

/-- What lies in a place is moved in place of what lies in another. -/
def rename (σ : Slots) (p q : Part) : Slots := (σ.put q (σ.place p)).put p none

variable {σ : Slots} {p q : Part}

@[simp] theorem place_put (σ : Slots) (p : Part) (slot : Option Sheet) : (σ.put p slot).place p = slot :=
  Function.update_self ..

theorem place_put_of_ne (σ : Slots) {p q : Part} (other : q ≠ p) (slot : Option Sheet) :
    (σ.put p slot).place q = σ.place q := Function.update_of_ne other ..

theorem place_append (σ : Slots) (number : Nat) (added : List String) (p : Part) :
    (σ.append number added).place p = (σ.place p).map fun sheet =>
      if sheet.number = number then ⟨number, sheet.marks ++ added⟩ else sheet := rfl

theorem entries_congr {σ' : Slots} (same : σ'.place q = σ.place p) : σ'.entries q = σ.entries p := by
  rw [entries, entries, same]

theorem entries_some {sheet : Sheet} (there : σ.place p = some sheet) :
    σ.entries p = sheet.marks.flatMap linesOf := by rw [entries, there]

theorem entries_none (vacant : σ.place p = none) : σ.entries p = [] := by rw [entries, vacant]

theorem place_rename (σ : Slots) (other : p ≠ q) : (σ.rename p q).place q = σ.place p := by
  rw [rename, place_put_of_ne _ (Ne.symm other), place_put]

theorem place_rename_of_ne (σ : Slots) {r : Part} (source : r ≠ p) (target : r ≠ q) :
    (σ.rename p q).place r = σ.place r := by
  rw [rename, place_put_of_ne _ source, place_put_of_ne _ target]

theorem place_openFile_of_ne (σ : Slots) (truncate : Bool) (other : q ≠ p) :
    (σ.openFile truncate p).place q = σ.place q := by
  rw [openFile]
  cases σ.place p with
  | none => exact place_put_of_ne σ other _
  | some sheet =>
      cases truncate
      · rfl
      · exact place_put_of_ne σ other _

/-- The file that is opened in a place. -/
theorem place_openFile (σ : Slots) (truncate : Bool) (p : Part) :
    ∃ marks, (σ.openFile truncate p).place p = some ⟨σ.numberAt p, marks⟩ := by
  rw [openFile, numberAt]
  cases there : σ.place p with
  | none => exact ⟨[], place_put σ p _⟩
  | some sheet =>
      cases truncate
      · exact ⟨sheet.marks, there⟩
      · exact ⟨[], place_put σ p _⟩

theorem place_append_none (vacant : σ.place p = none) (number : Nat) (added : List String) :
    (σ.append number added).place p = none := by rw [place_append, vacant, Option.map_none]

theorem entries_openFile_append (σ : Slots) (p : Part) : (σ.openFile false p).entries p = σ.entries p := by
  rw [openFile]
  cases there : σ.place p with
  | none =>
      rw [entries_none there]
      exact entries_some (place_put σ p (some ⟨σ.next, []⟩))
  | some sheet => rfl

theorem place_openFile_create (σ : Slots) (p : Part) : (σ.openFile true p).place p = some ⟨σ.numberAt p, []⟩ := by
  rw [openFile, numberAt]
  cases σ.place p with
  | none => exact place_put σ p (some ⟨σ.next, []⟩)
  | some sheet => exact place_put σ p _

/-- What is written to an open file comes after what lies there. -/
theorem entries_append {sheet : Sheet} (there : σ.place p = some sheet) (added : List String) :
    (σ.append sheet.number added).entries p = σ.entries p ++ added.flatMap linesOf := by
  have written : (σ.append sheet.number added).place p = some ⟨sheet.number, sheet.marks ++ added⟩ := by
    rw [place_append, there, Option.map_some, if_pos rfl]
  rw [entries_some written, entries_some there, List.flatMap_append]

/-- What is written to an open file is listed where the file lies. -/
theorem mem_entries_append {sheet : Sheet} {added : List String} {e uri : String} (there : σ.place p = some sheet)
    (member : uri ∈ added) (entry : e ∈ linesOf uri) : e ∈ (σ.append sheet.number added).entries p := by
  rw [entries_append there]
  exact List.mem_append_right _ (List.mem_flatMap.2 ⟨uri, member, entry⟩)

theorem isLine_of_mem_entries {e : String} (member : e ∈ σ.entries p) : IsLine e := by
  cases there : σ.place p with
  | none =>
      rw [entries_none there] at member
      cases member
  | some sheet =>
      rw [entries_some there] at member
      obtain ⟨uri, -, listed⟩ := List.mem_flatMap.1 member
      exact isLine_of_mem listed

end Slots

/-- Nothing is taken out of the places: a file that lies there stays, with more marks at the most. Only the log
itself may be new. -/
structure Slots.Grows (σ σ' : Slots) : Prop where
  sheets : ∀ {p : Part} {sheet : Sheet}, σ.place p = some sheet →
    ∃ more, σ'.place p = some ⟨sheet.number, sheet.marks ++ more⟩
  vacant : ∀ {p : Part}, p ≠ .log → σ.place p = none → σ'.place p = none

namespace Slots.Grows

variable {σ σ' : Slots} {p : Part}

theorem refl (σ : Slots) : σ.Grows σ where
  sheets there := ⟨[], by rw [there, List.append_nil]⟩
  vacant _ vacant := vacant

theorem openLog (σ : Slots) : σ.Grows (σ.openFile false .log) := by
  cases there : σ.place .log with
  | some sheet =>
      rw [openFile, there]
      exact refl σ
  | none =>
      refine ⟨fun {p sheet} occupied => ⟨[], ?_⟩, fun other vacant => ?_⟩
      · have other : p ≠ .log := by
          rintro rfl
          rw [there] at occupied
          cases occupied
        rw [place_openFile_of_ne σ false other, occupied, List.append_nil]
      · rw [place_openFile_of_ne σ false other, vacant]

theorem append (σ : Slots) (number : Nat) (added : List String) : σ.Grows (σ.append number added) where
  sheets {p sheet} there := by
    rw [place_append, there, Option.map_some]
    by_cases same : sheet.number = number
    · exact ⟨added, by rw [if_pos same, same]⟩
    · exact ⟨[], by rw [if_neg same, List.append_nil]⟩
  vacant {p} _ vacant := by rw [place_append, vacant, Option.map_none]

theorem mem (grows : σ.Grows σ') {e : String} (member : e ∈ σ.entries p) : e ∈ σ'.entries p := by
  cases there : σ.place p with
  | none =>
      rw [entries_none there] at member
      cases member
  | some sheet =>
      obtain ⟨more, there'⟩ := grows.sheets there
      rw [entries_some there] at member
      rw [entries_some there', List.flatMap_append]
      exact List.mem_append_left _ member

end Slots.Grows

/-! ## The places on a disk -/

theorem contentOf_eq_nil {entries : List String} : contentOf entries = [] ↔ entries = [] := by
  cases entries <;> simp [contentOf]

/-- The entries in the file at an address, none if there is no file. -/
def entriesIn (d : Disk) (here : Address) : List String :=
  ((decode? (d.contentAt here)).map entriesOf).getD []

/-- A place on a disk holds a sheet, or nothing. -/
def Lies (node : Option Node) : Option Sheet → Prop
  | none => node = none
  | some sheet => ∃ time, node = some (.file sheet.number (contentOf sheet.marks) time)

/-- The places of a log on a disk hold what the slots say. -/
structure Filed (root : Path) (base : Address) (σ : Slots) (d : Disk) : Prop where
  hosts : d.Hosts root base
  next : d.nextId = σ.next
  lies : ∀ p : Part, Lies (d.node? (p.address base)) (σ.place p)

/-- A file that lies nowhere but in the places of a log, if it still lies anywhere. -/
def Own (base : Address) (d : Disk) (number : Nat) : Prop :=
  ∀ (a : Address) (c : Bytes) (m : Int), d.node? a = some (.file number c m) → ∃ p : Part, a = p.address base

variable {root : Path} {base : Address} {d d' : Disk} {σ : Slots} {p q : Part}

/-- Two disks agree apart from the places of a log. -/
theorem Apart.of_places (others : ∀ a, (∀ p : Part, a ≠ p.address base) → d'.node? a = d.node? a) :
    Apart base d d' := fun a log draft draining => others a fun p => by
  cases p
  · exact log
  · exact draft
  · exact draining

theorem Own.congr {number : Nat} (own : Own base d number) (apart : Apart base d d') : Own base d' number := by
  intro a c m there
  by_cases place : ∃ p : Part, a = p.address base
  · exact place
  · rw [apart a (fun same => place ⟨.log, same⟩) (fun same => place ⟨.draft, same⟩)
      fun same => place ⟨.draining, same⟩] at there
    exact own a c m there

/-- What reading a file gives. -/
def found : Except DiskError Bytes → Except DiskError (List String)
  | .error .notFound => .ok []
  | .error e => .error e
  | .ok bytes =>
    match decode? bytes with
    | some text => .ok (entriesOf text)
    | none => .error .invalidText

theorem found_contentOf (marks : List String) : found (.ok (contentOf marks)) = .ok (marks.flatMap linesOf) := by
  obtain ⟨text, same, entries⟩ := Option.map_eq_some_iff.1 (decode?_contentOf marks)
  simp only [found, same, entries]

namespace Filed

theorem none_of (filed : Filed root base σ d) (vacant : σ.place p = none) : d.node? (p.address base) = none := by
  have lies := filed.lies p
  rwa [vacant] at lies

theorem some_of (filed : Filed root base σ d) {sheet : Sheet} (there : σ.place p = some sheet) :
    ∃ time, d.node? (p.address base) = some (.file sheet.number (contentOf sheet.marks) time) := by
  have lies := filed.lies p
  rwa [there] at lies

theorem vacant_of (filed : Filed root base σ d) (missing : d.node? (p.address base) = none) : σ.place p = none := by
  cases there : σ.place p with
  | none => rfl
  | some sheet =>
      obtain ⟨time, file⟩ := filed.some_of there
      cases missing.symm.trans file

theorem leaf (filed : Filed root base σ d) (p : Part) (m : Int) :
    d.node? (p.address base) ≠ some (.directory m) := by
  cases there : σ.place p with
  | none => simp [filed.none_of there]
  | some sheet =>
      obtain ⟨time, file⟩ := filed.some_of there
      simp [file]

theorem entriesIn_eq (filed : Filed root base σ d) (p : Part) : entriesIn d (p.address base) = σ.entries p := by
  cases there : σ.place p with
  | none =>
      have nothing := decode?_contentOf []
      rw [entriesIn, contentAt, filed.none_of there, Slots.entries_none there]
      exact congrArg (·.getD []) nothing
  | some sheet =>
      obtain ⟨time, file⟩ := filed.some_of there
      rw [entriesIn, contentAt, file, Slots.entries_some there]
      simp only [decode?_contentOf, Option.getD_some]

/-- The file in a place of a log is one of its own. -/
theorem own (filed : Filed root base σ d) {sheet : Sheet} (there : σ.place p = some sheet) :
    Own base d sheet.number := by
  obtain ⟨time, file⟩ := filed.some_of there
  exact fun _ _ _ other => ⟨p, filed.hosts.sound.identified other file⟩

/-- Only one place is another. -/
theorem put (filed : Filed root base σ d) (hosts : d'.Hosts root base) {next : Nat} (number : d'.nextId = next)
    (slot : Option Sheet) {node : Option Node} (lies : Lies node slot)
    (effect : ∀ a, d'.node? a = if a = p.address base then node else d.node? a) :
    Filed root base { σ.put p slot with next := next } d' ∧ Apart base d d' := by
  refine ⟨⟨hosts, number, fun q => ?_⟩, .of_places fun a elsewhere => (effect a).trans (if_neg (elsewhere p))⟩
  rw [effect]
  by_cases same : q = p
  · subst same
    rw [if_pos rfl, show ({ σ.put q slot with next := next } : Slots).place q = slot from Slots.place_put ..]
    exact lies
  · rw [if_neg (Part.address_ne base same),
      show ({ σ.put p slot with next := next } : Slots).place q = σ.place q from Slots.place_put_of_ne σ same slot]
    exact filed.lies q

variable {w : World}

/-- Reading tells the entries of a place. -/
theorem read (filed : Filed root base σ w.disk) (p : Part) :
    ∃ answer, (Call.read (p.path root)).perform w = (answer, w) ∧ found answer = .ok (σ.entries p) := by
  cases there : σ.place p with
  | none =>
      obtain ⟨m, parent⟩ := filed.hosts.directory
      have missing : w.disk.read (p.path root) = .error .notFound :=
        @Hosts.read_vacant _ _ _ [] p.name m filed.hosts p.fit parent (filed.none_of there)
      refine ⟨.error .notFound, by rw [Call.perform, missing], ?_⟩
      rw [Slots.entries_none there]
      rfl
  | some sheet =>
      obtain ⟨time, file⟩ := filed.some_of there
      have read : w.disk.read (p.path root) = .ok (contentOf sheet.marks) := filed.hosts.read_file p.fit file
      refine ⟨.ok (contentOf sheet.marks), by rw [Call.perform, read], ?_⟩
      rw [Slots.entries_some there, found_contentOf]

/-- A place is opened as the slots say, and the file that is opened is one of the log's. -/
theorem openFile (filed : Filed root base σ w.disk) (truncate : Bool) (p : Part) :
    ∃ d', w.disk.openFile w.time truncate (p.path root) = .ok (σ.numberAt p, d') ∧
      Filed root base (σ.openFile truncate p) d' ∧ Apart base w.disk d' ∧ Own base d' (σ.numberAt p) := by
  obtain ⟨m, parent⟩ := filed.hosts.directory
  obtain ⟨id, c, time, d', opened, hosts, content, effect⟩ :=
    @Hosts.openFile_spec _ _ _ [] p.name m filed.hosts p.fit w.time truncate parent (filed.leaf p)
  have opened' : w.disk.openFile w.time truncate (p.path root) = .ok (id, d') := opened
  cases there : σ.place p with
  | none =>
      have vacant : w.disk.node? (p.name :: addressOf base []) = none := filed.none_of there
      have located : w.disk.locate true (p.path root) = .ok (.vacant (p.address base)) :=
        @Hosts.locate_vacant _ _ _ [] p.name true m filed.hosts p.fit parent vacant
      obtain ⟨rfl, number⟩ : id = w.disk.nextId ∧ d'.nextId = w.disk.nextId + 1 := by
        rw [Disk.openFile, located] at opened'
        simp only at opened'
        split at opened' <;> cases opened'
        exact ⟨rfl, rfl⟩
      obtain rfl : c = contentOf [] := by
        cases truncate
        · rw [content, cond_false, contentAt, vacant]
          rfl
        · exact content
      obtain ⟨filed', apart⟩ := filed.put hosts number (some ⟨w.disk.nextId, []⟩) ⟨time, rfl⟩ effect
      rw [Slots.numberAt, Slots.openFile, there, ← filed.next]
      exact ⟨d', opened', filed', apart, filed'.own (Slots.place_put ..)⟩
  | some sheet =>
      obtain ⟨time', file⟩ := filed.some_of there
      have located : w.disk.locate true (p.path root) =
          .ok (.found (p.address base) (.file sheet.number (contentOf sheet.marks) time')) :=
        filed.hosts.locate_some p.fit file
      rw [Disk.openFile, located] at opened'
      rw [Slots.numberAt, Slots.openFile, there]
      cases truncate with
      | false =>
          refine ⟨w.disk, ?_, filed, .refl _ _, filed.own there⟩
          rw [Disk.openFile, located]
          rfl
      | true =>
          cases opened'
          obtain rfl : c = contentOf [] := content
          obtain ⟨filed', apart⟩ := filed.put hosts filed.next (some ⟨sheet.number, []⟩) ⟨time, rfl⟩ effect
          have own : Own base _ (Sheet.number ⟨sheet.number, []⟩) := filed'.own (Slots.place_put ..)
          exact ⟨_, opened, filed', apart, own⟩

/-- What is written to an open file lands in the place that the file has by now, if it still has one. -/
theorem append (filed : Filed root base σ w.disk) {number : Nat} (own : Own base w.disk number)
    (added : List String) :
    Filed root base (σ.append number added) (w.disk.append w.time number (contentOf added)) ∧
      Apart base w.disk (w.disk.append w.time number (contentOf added)) := by
  have effect := Disk.node?_append w.disk w.time number (contentOf added)
  -- The file lies in a place of the log or nowhere, so what lies elsewhere stays as it is.
  have others : ∀ a, (∀ p : Part, a ≠ p.address base) →
      (w.disk.append w.time number (contentOf added)).node? a = w.disk.node? a := by
    intro a elsewhere
    rw [effect]
    cases there : w.disk.node? a with
    | none => rfl
    | some node =>
        cases node with
        | directory m => rfl
        | link target => rfl
        | file id c m =>
            have different : id ≠ number := by
              rintro rfl
              obtain ⟨p, same⟩ := own a c m there
              exact elsewhere p same
            rw [Option.map_some, Disk.Node.append, if_neg different]
  refine ⟨⟨?_, filed.next, fun p => ?_⟩, .of_places others⟩
  · refine filed.hosts.of_agree (filed.hosts.sound.append _ _ _) rfl
      (fun a outside => others a fun p same => outside (same ▸ Disk.below_cons _ _)) fun {a target} below there => ?_
    rw [effect, Option.map_eq_some_iff] at there
    obtain ⟨node, before, same⟩ := there
    cases node with
    | directory m => cases same
    | link target' => exact filed.hosts.unlinked below before
    | file id c m =>
        rw [Disk.Node.append] at same
        split at same <;> cases same
  · rw [effect, Slots.place_append]
    cases there : σ.place p with
    | none =>
        rw [filed.none_of there]
        rfl
    | some sheet =>
        obtain ⟨time, file⟩ := filed.some_of there
        rw [file, Option.map_some, Option.map_some, Disk.Node.append]
        by_cases same : sheet.number = number
        · rw [if_pos same, if_pos same, ← contentOf_append]
          exact ⟨w.time, by rw [same]⟩
        · rw [if_neg same, if_neg same]
          exact ⟨time, rfl⟩

/-- What lies in a place is moved in place of what lies in another. -/
theorem rename (filed : Filed root base σ w.disk) (other : p ≠ q) :
    match σ.place p with
    | none => (Call.rename (p.path root) (q.path root)).perform w = (.error .notFound, w)
    | some _ => ∃ d', (Call.rename (p.path root) (q.path root)).perform w = (.ok (), { w with disk := d' }) ∧
        Filed root base (σ.rename p q) d' ∧ Apart base w.disk d' := by
  obtain ⟨m, parent⟩ := filed.hosts.directory
  cases there : σ.place p with
  | none =>
      have missing : w.disk.find false (p.path root) = .error .notFound := by
        have located : w.disk.locate false (p.path root) = .ok (.vacant _) :=
          @Hosts.locate_vacant _ _ _ [] p.name false m filed.hosts p.fit parent (filed.none_of there)
        rw [Disk.find, located]
      have refused : w.disk.rename (p.path root) (q.path root) = .error .notFound := by
        rw [Disk.rename, missing]
      simp only
      rw [Call.perform, refused]
      rfl
  | some sheet =>
      obtain ⟨time, file⟩ := filed.some_of there
      have apart : p.address base ≠ q.address base := Part.address_ne base other
      obtain ⟨d', renamed, hosts, effect⟩ := @Hosts.rename_file w.disk root base [] q.name time filed.hosts _ p.fit
        q.fit sheet.number (contentOf sheet.marks) m file parent (filed.leaf q) apart
      have renamed' : w.disk.rename (p.path root) (q.path root) = .ok d' := renamed
      have effect' : ∀ a, d'.node? a = if a = q.address base then
          some (.file sheet.number (contentOf sheet.marks) time)
        else if a = p.address base then none else w.disk.node? a := effect
      refine ⟨d', by rw [Call.perform, renamed']; rfl,
        ⟨hosts, (Disk.nextId_rename renamed').trans filed.next, fun r => ?_⟩, .of_places fun a elsewhere => ?_⟩
      · rw [effect', Slots.rename, there]
        by_cases target : r = q
        · subst target
          rw [if_pos rfl, Slots.place_put_of_ne _ (Ne.symm other), Slots.place_put]
          exact ⟨time, rfl⟩
        · rw [if_neg (Part.address_ne base target)]
          by_cases source : r = p
          · subst source
            rw [if_pos rfl, Slots.place_put]
            rfl
          · rw [if_neg (Part.address_ne base source), Slots.place_put_of_ne _ source,
              Slots.place_put_of_ne _ target]
            exact filed.lies r
      · rw [effect', if_neg (elsewhere q), if_neg (elsewhere p)]

/-- What lies in a place is removed. -/
theorem removeFile (filed : Filed root base σ w.disk) (p : Part) :
    ∃ answer d', (Call.removeFile (p.path root)).perform w = (answer, { w with disk := d' }) ∧
      (answer = .ok () ∨ answer = .error .notFound) ∧ Filed root base (σ.put p none) d' ∧ Apart base w.disk d' := by
  obtain ⟨m, parent⟩ := filed.hosts.directory
  cases there : σ.place p with
  | none =>
      have missing : w.disk.find false (p.path root) = .error .notFound := by
        have located : w.disk.locate false (p.path root) = .ok (.vacant _) :=
          @Hosts.locate_vacant _ _ _ [] p.name false m filed.hosts p.fit parent (filed.none_of there)
        rw [Disk.find, located]
      have refused : w.disk.removeFile (p.path root) = .error .notFound := by
        rw [Disk.removeFile, missing]
      have same : σ.put p none = σ := by
        rw [Slots.put, ← there, Function.update_eq_self]
      rw [same]
      exact ⟨_, w.disk, by rw [Call.perform, refused]; rfl, .inr rfl, filed, .refl _ _⟩
  | some sheet =>
      obtain ⟨time, file⟩ := filed.some_of there
      obtain ⟨d', removed, hosts, effect⟩ := filed.hosts.removeFile_file p.fit file
      have removed' : w.disk.removeFile (p.path root) = .ok d' := removed
      obtain ⟨filed', apart⟩ :=
        filed.put hosts ((Disk.nextId_removeFile removed').trans filed.next) none rfl effect
      exact ⟨_, d', by rw [Call.perform, removed']; rfl, .inl rfl, filed', apart⟩

end Filed

/-- The places of a log that is not there yet. -/
def Slots.bare (next : Nat) : Slots := ⟨fun _ => none, next⟩

theorem filed_fresh {w : World} (fresh : w.Fresh root base) : Filed root base (.bare w.disk.nextId) w.disk where
  hosts := fresh.hosts
  next := rfl
  lies p := fresh.bare (Disk.below_cons p.name base)

end FileLog

end SymbolIndex
