import SymbolIndex.Proofs.Store.Healing

/-!
# Proofs.Store.Misfiled — a sweep of any content

A lookup takes what is in a file for a record of the store only if the file is the one of its key. A sweep asks
no such thing: it decides on whatever record it reads, wherever the file lies. `Sheds` says what it takes from a disk,
file by file, with no condition on what lies in the directory of records.

What is reported has left the file it was read from. It has left the store too, unless the file of its key
holds another record of the key that is kept (`sweep_any_content`): then the report says that a record is gone which
a lookup still finds (`reported_while_stored`).
-/

namespace SymbolIndex

open Script (outcome run_bind_of)
open SymbolIndex.Text (Bytes encode decode?)
open Disk (Hosts Fit Below addressOf OnTheWay)

set_option autoImplicit false

namespace FileStore

variable {root : Path} {base : Address} {w : World} {key : RecordKey} {r : Record} {kept : String → Bool}

/-! ## The record in a file -/

/-- The record that the file at an address holds, of whatever key. -/
def recordAt (d : Disk) (a : Address) : Option Record :=
  match d.node? a with
  | some (.file _ c _) => (decode? c).bind Record.decode?
  | _ => none

section RecordAt

variable {d d' : Disk} {a : Address}

theorem recordAt_file {id : Nat} {c : Bytes} {m : Int} (file : d.node? a = some (.file id c m)) :
    recordAt d a = (decode? c).bind Record.decode? := by
  rw [recordAt, file]

theorem recordAt_vacant (vacant : d.node? a = none) : recordAt d a = none := by
  rw [recordAt, vacant]

theorem recordAt_congr (same : d'.node? a = d.node? a) : recordAt d' a = recordAt d a := by
  rw [recordAt, recordAt, same]

theorem file_of_recordAt (held : recordAt d a = some r) : ∃ id c m, d.node? a = some (.file id c m) := by
  rw [recordAt] at held
  split at held
  next file => exact ⟨_, _, _, file⟩
  · cases held

theorem intact_iff : Intact base d key r ↔ recordAt d (fileAddress base key) = some r ∧ r.key = key := by
  constructor
  · rintro ⟨id, c, m, file, decoded, keyed⟩
    exact ⟨(recordAt_file file).trans decoded, keyed⟩
  · rintro ⟨held, keyed⟩
    obtain ⟨id, c, m, file⟩ := file_of_recordAt held
    exact ⟨id, c, m, file, (recordAt_file file).symm.trans held, keyed⟩

end RecordAt

/-! ## What a sweep takes -/

/-- What is taken when the files at some names are swept, and what is reported. -/
structure Sheds (base : Address) (kept : String → Bool) (paths : List (List Name)) (d d' : Disk)
    (gone : List Record) : Prop where
  /-- A node is left, or it was one of the files; then it held no record, or an orphan that is reported. -/
  node : ∀ a, d'.node? a = d.node? a ∨ (∃ names ∈ paths, a = addressOf base names) ∧ d'.node? a = none ∧
    ∀ r, recordAt d a = some r → Ledger.isOrphan kept r = true ∧ r ∈ gone
  /-- What is reported was an orphan in one of the files, and the file is gone. -/
  reported : ∀ r ∈ gone, Ledger.isOrphan kept r = true ∧ ∃ names ∈ paths,
    recordAt d (addressOf base names) = some r ∧ d'.node? (addressOf base names) = none
  /-- No orphan is left where a path leads. -/
  orphan : ∀ names ∈ paths, Fit names → ∀ r, recordAt d (addressOf base names) = some r →
    Ledger.isOrphan kept r = true → d'.node? (addressOf base names) = none

namespace Sheds

variable {paths more : List (List Name)} {names : List Name} {d d' d'' : Disk} {gone late : List Record}

theorem refl : Sheds base kept [] d d [] where
  node _ := .inl rfl
  reported := by simp
  orphan := by simp

theorem left (spared : Fit names → ∀ r, recordAt d (addressOf base names) = some r → Ledger.isOrphan kept r = false) :
    Sheds base kept [names] d d [] where
  node _ := .inl rfl
  reported := by simp
  orphan := by
    intro names' member fit r held orphan
    obtain rfl := List.mem_singleton.1 member
    cases orphan.symm.trans (spared fit r held)

theorem taken (effect : ∀ a, d'.node? a = if a = addressOf base names then none else d.node? a)
    (orphan : ∀ r, recordAt d (addressOf base names) = some r → Ledger.isOrphan kept r = true) :
    Sheds base kept [names] d d' (recordAt d (addressOf base names)).toList where
  node a := by
    rw [effect]
    split
    next here =>
      refine .inr ⟨⟨names, by simp, here⟩, rfl, fun r held => ?_⟩
      rw [here] at held
      exact ⟨orphan r held, by rw [held]; simp⟩
    · exact .inl rfl
  reported r member := by
    rw [Option.mem_toList] at member
    exact ⟨orphan r member, names, by simp, member, (effect _).trans (if_pos rfl)⟩
  orphan names' member _ r _ _ := by
    obtain rfl := List.mem_singleton.1 member
    exact (effect _).trans (if_pos rfl)

/-- What is gone stays gone. -/
theorem vacant (sheds : Sheds base kept paths d d' gone) {a : Address} (vacant : d.node? a = none) :
    d'.node? a = none := by
  rcases sheds.node a with same | ⟨-, vacant', -⟩
  · exact same.trans vacant
  · exact vacant'

theorem trans (first : Sheds base kept paths d d' gone) (rest : Sheds base kept more d' d'' late) :
    Sheds base kept (paths ++ more) d d'' (gone ++ late) where
  node a := by
    rcases first.node a with same | ⟨⟨names, member, here⟩, vacant, held⟩
    · rcases rest.node a with same' | ⟨⟨names, member, here⟩, vacant, held⟩
      · exact .inl (same'.trans same)
      · rw [recordAt_congr same] at held
        exact .inr ⟨⟨names, List.mem_append_right _ member, here⟩, vacant, fun r there =>
          ⟨(held r there).1, List.mem_append_right _ (held r there).2⟩⟩
    · exact .inr ⟨⟨names, List.mem_append_left _ member, here⟩, rest.vacant vacant, fun r there =>
        ⟨(held r there).1, List.mem_append_left _ (held r there).2⟩⟩
  reported r member := by
    rcases List.mem_append.1 member with early | later
    · obtain ⟨orphan, names, listed, held, vacant⟩ := first.reported r early
      exact ⟨orphan, names, List.mem_append_left _ listed, held, rest.vacant vacant⟩
    · obtain ⟨orphan, names, listed, held, vacant⟩ := rest.reported r later
      refine ⟨orphan, names, List.mem_append_right _ listed, ?_, vacant⟩
      -- What is there later was there before.
      rcases first.node (addressOf base names) with same | ⟨-, vacant', -⟩
      · rw [← recordAt_congr same, held]
      · cases (recordAt_vacant vacant').symm.trans held
  orphan names member fit r held orphan := by
    rcases List.mem_append.1 member with early | later
    · exact rest.vacant (first.orphan names early fit r held orphan)
    · rcases first.node (addressOf base names) with same | ⟨-, vacant, -⟩
      · exact rest.orphan names later fit r ((recordAt_congr same).trans held) orphan
      · exact rest.vacant vacant

theorem mem_gone (sheds : Sheds base kept paths d d' gone)
    (listed : ∀ {key id c m}, d.node? (fileAddress base key) = some (.file id c m) → fileNames key ∈ paths)
    (held : recordAt d (fileAddress base key) = some r) (orphan : Ledger.isOrphan kept r = true) : r ∈ gone := by
  obtain ⟨id, c, m, file⟩ := file_of_recordAt held
  rcases sheds.node (fileAddress base key) with same | ⟨-, -, reported⟩
  · cases (sheds.orphan _ (listed file) (fit_fileNames key) r held orphan).symm.trans (same.trans file)
  · exact (reported r held).2

/-- The records in their places that are kept, and no others, are still there. -/
theorem intact_iff (sheds : Sheds base kept paths d d' gone)
    (listed : ∀ {key id c m}, d.node? (fileAddress base key) = some (.file id c m) → fileNames key ∈ paths) :
    Intact base d' key r ↔ Intact base d key r ∧ Ledger.isOrphan kept r = false := by
  rw [FileStore.intact_iff, FileStore.intact_iff]
  constructor
  · rintro ⟨held, keyed⟩
    rcases sheds.node (fileAddress base key) with same | ⟨-, vacant, -⟩
    · rw [recordAt_congr same] at held
      refine ⟨⟨held, keyed⟩, Bool.eq_false_iff.2 fun orphan => ?_⟩
      obtain ⟨id, c, m, file⟩ := file_of_recordAt held
      cases (sheds.orphan _ (listed file) (fit_fileNames key) r held orphan).symm.trans (same.trans file)
    · cases (recordAt_vacant vacant).symm.trans held
  · rintro ⟨⟨held, keyed⟩, spared⟩
    rcases sheds.node (fileAddress base key) with same | ⟨-, -, orphan⟩
    · exact ⟨(recordAt_congr same).trans held, keyed⟩
    · cases spared.symm.trans (orphan r held).1

end Sheds

/-! ## The sweep -/

/-- One file of a sweep. -/
theorem sweepFiles_step (hosts : w.disk.Hosts root base) {names : List Name} (proper : ∀ name ∈ names, name.Proper)
    (some_ : names ≠ []) {report : SweepReport} (agree : Agree kept report.verdicts) (rest : List Path) :
    ∃ d gone verdicts, (sweepFiles (fun uri => return kept uri) report (root.below names :: rest)).run w =
        (sweepFiles (fun uri => return kept uri) ⟨report.removed ++ gone, verdicts⟩ rest).run { w with disk := d } ∧
      Agree kept verdicts ∧ d.Hosts root base ∧ Sheds base kept [names] w.disk d gone := by
  cases read : w.disk.read (root.below names) with
  | error e =>
      refine ⟨w.disk, [], report.verdicts, ?_, agree, hosts, .left fun fit r held => ?_⟩
      · rw [sweepFiles, run_bind_of (readEntry_none read), List.append_nil]
      · obtain ⟨id, c, m, file⟩ := file_of_recordAt held
        cases (hosts.read_file fit file).symm.trans read
  | ok c =>
      obtain ⟨⟨id, m, file⟩, d, removed, hosts', effect⟩ := hosts.remove_read proper some_ read
      have held := recordAt_file file
      have discarded : (discard (root.below names)).run w = ((), { w with disk := d }) := by
        rw [discard]
        exact run_bind_of (Script.run_removeFile removed)
      cases decoded : (decode? c).bind Record.decode? with
      | none =>
          have taken : Sheds base kept [names] w.disk d _ := .taken effect fun r there => by
            cases (held.trans decoded).symm.trans there
          rw [held, decoded] at taken
          refine ⟨d, [], report.verdicts, ?_, agree, hosts', taken⟩
          rw [sweepFiles, run_bind_of (readEntry_undecoded read decoded), discarded, List.append_nil]
      | some r =>
          rw [sweepFiles, run_bind_of (readEntry_decoded read decoded)]
          have only : ∀ {r'}, recordAt w.disk (addressOf base names) = some r' → r' = r := fun there =>
            Option.some.inj (there.symm.trans (held.trans decoded))
          simp only
          cases source : r.sourceUri? with
          | none =>
              refine ⟨w.disk, [], report.verdicts, by rw [List.append_nil], agree, hosts,
                .left fun _ r' there => ?_⟩
              rw [only there, Ledger.isOrphan, source]
          | some uri =>
              obtain ⟨verdicts, decided, agree'⟩ :=
                @verdict_run kept _ (fun uri => return kept uri) w (fun _ => rfl) agree uri
              have orphan : Ledger.isOrphan kept r = !kept uri := by rw [Ledger.isOrphan, source]
              simp only
              rw [run_bind_of decided]
              cases spared : kept uri with
              | true =>
                  rw [spared] at orphan
                  refine ⟨w.disk, [], verdicts, by rw [List.append_nil]; rfl, agree', hosts,
                    .left fun _ r' there => ?_⟩
                  rw [only there, orphan]
                  rfl
              | false =>
                  rw [spared] at orphan
                  have taken : Sheds base kept [names] w.disk d _ := .taken effect fun r' there => by
                    rw [only there, orphan]
                    rfl
                  rw [held, decoded] at taken
                  refine ⟨d, [r], verdicts, ?_, agree', hosts', taken⟩
                  simp only [Bool.false_eq_true, if_false]
                  rw [run_bind_of discarded]

/-- The files of a sweep, one after the other. -/
theorem sweepFiles_sheds (hosts : w.disk.Hosts root base) {paths : List (List Name)}
    (proper : ∀ names ∈ paths, (∀ name ∈ names, name.Proper) ∧ names ≠ []) {report : SweepReport}
    (agree : Agree kept report.verdicts) :
    ∃ d gone verdicts, (sweepFiles (fun uri => return kept uri) report (paths.map root.below)).run w =
        (⟨report.removed ++ gone, verdicts⟩, { w with disk := d }) ∧
      d.Hosts root base ∧ Sheds base kept paths w.disk d gone := by
  induction paths generalizing w report with
  | nil => exact ⟨w.disk, [], report.verdicts, by rw [List.append_nil]; rfl, hosts, .refl⟩
  | cons names rest ih =>
      obtain ⟨proper₁, some_⟩ := proper names (by simp)
      obtain ⟨d₁, early, verdicts₁, step, agree₁, hosts₁, sheds₁⟩ :=
        sweepFiles_step hosts proper₁ some_ agree (rest.map root.below)
      obtain ⟨d, late, verdicts, run, hosts', sheds⟩ := @ih { w with disk := d₁ } hosts₁
        (fun n member => proper n (by simp [member])) ⟨report.removed ++ early, verdicts₁⟩ agree₁
      refine ⟨d, early ++ late, verdicts, ?_, hosts', sheds₁.trans sheds⟩
      rw [List.map_cons, step, run, List.append_assoc]

/-- Whether an address is one where the files of records lie. -/
def InPlace (base a : Address) : Prop :=
  ∃ shard digit name, a = name :: digit :: shard :: recordsPart :: base ∧ Name.extension? name = some extension

/-- A sweep goes through files of records alone, and the file of every key is among them. -/
theorem sweep_sheds (hosts : w.disk.Hosts root base) (named : w.disk.Named (recordsPart :: base))
    (kept : String → Bool) :
    ∃ paths d gone verdicts, ((ofRoot root).sweep fun uri => return kept uri).run w =
        (⟨gone, verdicts⟩, { w with disk := d }) ∧ d.Hosts root base ∧ Sheds base kept paths w.disk d gone ∧
      (∀ names ∈ paths, InPlace base (addressOf base names)) ∧
      ∀ {key id c m}, w.disk.node? (fileAddress base key) = some (.file id c m) → fileNames key ∈ paths := by
  obtain ⟨paths, listed, -, spec⟩ := allRecordFiles_any hosts named
  have proper : ∀ names ∈ paths, (∀ name ∈ names, name.Proper) ∧ names ≠ [] := by
    intro names member
    obtain ⟨shard, digit, name, rfl, met⟩ := (spec names).1 member
    obtain ⟨id, c, m, file⟩ := met.file
    obtain ⟨m₂, second⟩ := hosts.sound.upward file
    obtain ⟨m₁, first⟩ := hosts.sound.upward second
    refine ⟨?_, by simp⟩
    simpa using ⟨recordsPart_proper, named (Disk.below_cons _ _) first, named ⟨[_, _], by simp, rfl⟩ second,
      named ⟨[_, _, _], by simp, rfl⟩ file⟩
  obtain ⟨d, gone, verdicts, run, hosts', sheds⟩ :=
    @sweepFiles_sheds root base w kept hosts paths proper ⟨[], .empty⟩ .empty
  refine ⟨paths, d, gone, verdicts, ?_, hosts', sheds, fun names member => ?_, fun file => ?_⟩
  · rw [sweep, run_bind_of listed, run]
    rfl
  · obtain ⟨shard, digit, name, rfl, met⟩ := (spec names).1 member
    exact ⟨shard, digit, name, rfl, met.extended⟩
  · exact (spec _).2 ⟨_, _, _, rfl, met_of_file hosts file⟩

/-- What a sweep comes to, and a lookup after it. -/
structure Purged (root : Path) (base : Address) (kept : String → Bool) (w : World) (removed : List Record)
    (d : Disk) : Prop where
  hosts : d.Hosts root base
  /-- Only files of records are taken, and of these only those that hold no record or an orphan that is reported. -/
  node : ∀ a, d.node? a = w.disk.node? a ∨ InPlace base a ∧ d.node? a = none ∧
    ∀ r, recordAt w.disk a = some r → Ledger.isOrphan kept r = true ∧ r ∈ removed
  /-- What is reported was an orphan in a file that is taken. -/
  reported : ∀ r ∈ removed, Ledger.isOrphan kept r = true ∧
    ∃ a, InPlace base a ∧ recordAt w.disk a = some r ∧ d.node? a = none
  /-- An orphan in the place of a record of any key is reported. -/
  orphan : ∀ key r, recordAt w.disk (fileAddress base key) = some r → Ledger.isOrphan kept r = true → r ∈ removed
  /-- A lookup answers the records that were in their places and are kept, and no others. -/
  get : ∀ key, ∃ answer d',
    outcome ((toStore (ofRoot root)).get key) { w with disk := d } = (.ok answer, { w with disk := d' }) ∧
      ∀ r, answer = some r ↔ Intact base w.disk key r ∧ Ledger.isOrphan kept r = false
  /-- What is reported is missed, unless a record of its key was in its place and is kept. -/
  missed : ∀ r ∈ removed, (∃ d',
    outcome ((toStore (ofRoot root)).get r.key) { w with disk := d } = (.ok none, { w with disk := d' })) ↔
      ∀ r', Intact base w.disk r.key r' → Ledger.isOrphan kept r' = true

/-- A lookup answers what is intact, whatever lies in the place of the file. -/
theorem get_any (hosts : w.disk.Hosts root base) (key : RecordKey) :
    ∃ answer d, ((ofRoot root).get key).run w = (answer, { w with disk := d }) ∧
      ∀ r, answer = some r ↔ Intact base w.disk key r := by
  by_cases intact : ∃ r, Intact base w.disk key r
  · obtain ⟨r, intact⟩ := intact
    have found := get_intact hosts intact
    refine ⟨some r, w.disk, found, fun r' => ⟨fun same => Option.some.inj same ▸ intact, fun intact' => ?_⟩⟩
    exact congrArg Prod.fst (found.symm.trans (get_intact hosts intact'))
  · have damaged : ∀ r, ¬ Intact base w.disk key r := not_exists.1 intact
    have nothing : ∀ r, none = some r ↔ Intact base w.disk key r := fun r =>
      ⟨by simp, fun here => absurd here (damaged r)⟩
    by_cases directory : ∃ m, w.disk.node? (fileAddress base key) = some (.directory m)
    · obtain ⟨m, directory⟩ := directory
      have refused : w.disk.read ((ofRoot root).recordPath key) = .error .isDirectory := by
        rw [recordPath_below, Disk.read, hosts.find_some (fit_fileNames key) directory]
      refine ⟨none, w.disk, ?_, nothing⟩
      rw [FileStore.get, run_bind_of (readEntry_none refused)]
      rfl
    · obtain ⟨d, done, -⟩ := get_damaged hosts (not_exists.1 directory) damaged
      exact ⟨none, d, done, nothing⟩

/-- **A sweep of any content.** Whatever lies in the directory of records, a sweep whose decision on a URI is always
the same answers, and comes to what it should but for one thing: a record that is reported may still be stored, if
the file of its key holds another record of the key. -/
theorem sweep_any_content (hosts : w.disk.Hosts root base) (named : w.disk.Named (recordsPart :: base))
    (kept : String → Bool) :
    ∃ report d, outcome ((toStore (ofRoot root)).sweep fun uri => return kept uri) w =
        (.ok report, { w with disk := d }) ∧ Purged root base kept w report.removed d := by
  obtain ⟨paths, d, gone, verdicts, run, hosts', sheds, inPlace, listed⟩ := sweep_sheds hosts named kept
  have get : ∀ key, ∃ answer d',
      outcome ((toStore (ofRoot root)).get key) { w with disk := d } = (.ok answer, { w with disk := d' }) ∧
        ∀ r, answer = some r ↔ Intact base w.disk key r ∧ Ledger.isOrphan kept r = false := by
    intro key
    obtain ⟨answer, d', done, found⟩ := @get_any root base { w with disk := d } hosts' key
    exact ⟨answer, d', by rw [toStore, Script.outcome_lift, done], fun r => (found r).trans (sheds.intact_iff listed)⟩
  refine ⟨⟨gone, verdicts⟩, d, by rw [toStore, Script.outcome_lift, run], hosts', fun a => ?_, fun r member => ?_,
    fun key r held orphan => sheds.mem_gone listed held orphan, get, fun r member => ?_⟩
  · rcases sheds.node a with same | ⟨⟨names, listed, rfl⟩, vacant, held⟩
    · exact .inl same
    · exact .inr ⟨inPlace names listed, vacant, held⟩
  · obtain ⟨orphan, names, listed, held, vacant⟩ := sheds.reported r member
    exact ⟨orphan, _, inPlace names listed, held, vacant⟩
  · obtain ⟨answer, d', done, found⟩ := get r.key
    constructor
    · rintro ⟨d'', missed⟩ r' intact
      refine Bool.of_not_eq_false fun spared => ?_
      rw [missed] at done
      cases (Except.ok.inj (congrArg Prod.fst done)).trans ((found r').2 ⟨intact, spared⟩)
    · intro orphans
      cases answer with
      | none => exact ⟨d', done⟩
      | some r' =>
          obtain ⟨intact, spared⟩ := (found r').1 rfl
          cases (orphans r' intact).symm.trans spared

/-! ## Poles -/

/-- A class as it was stored once. -/
def formerClass : Record :=
  .klass { fqn := "A", classType := some .klass, location := some ⟨"file:///gone.php", 1, 2⟩ }

/-- The class as it is stored now. -/
def currentClass : Record :=
  .klass { fqn := "A", classType := some .klass, location := some ⟨"file:///a.php", 1, 2⟩ }

/-- A file of a key adds no names but those of the key. -/
theorem named_of_changed {d d' : Disk} (named : d.Named (recordsPart :: base))
    (changed : ∀ a, Below (recordsPart :: base) a → a ≠ fileAddress base key →
      d'.node? a = d.node? a ∨ d'.node? a = none ∨ OnTheWay base (directoryNames key) a) :
    d'.Named (recordsPart :: base) := by
  intro name here node below occupied
  by_cases same : name :: here = fileAddress base key
  · exact (List.cons.inj same).1 ▸ (fileName_spec key).1
  · rcases changed _ below same with same | vacant | way
    · exact named below (same.symm.trans occupied)
    · cases vacant.symm.trans occupied
    · rcases onTheWay_directoryNames.1 way with here | here | here
      · exact absurd here below.ne
      · exact (List.cons.inj here).1 ▸ (shardName_spec key).1
      · exact (List.cons.inj here).1 ▸ (digitName_spec key).1

/-- A disk on which the class has its file, and the text it had once lies in the file of the function of its name. -/
theorem exists_former : ∃ d : Disk, d.Hosts ⟨[47, 105]⟩ [[105]] ∧ d.Named [recordsPart, [105]] ∧
    recordAt d (fileAddress [[105]] sampleFunction.key) = some formerClass ∧
    Intact [[105]] d currentClass.key currentClass := by
  obtain ⟨d₁, hosts₁, ⟨number, time, file⟩, alone⟩ := exists_alone sampleFunction.key (encode formerClass.encode)
  -- The first directory of the class is another one, so nothing is in its place yet.
  have apart : shardName currentClass.key ≠ shardName sampleFunction.key := fun same =>
    absurd (shardName_inj same) (by decide)
  have elsewhere : ∀ name, name :: addressOf [[105]] (directoryNames currentClass.key) ≠
      fileAddress [[105]] sampleFunction.key := by
    intro name same
    rw [addressOf_directoryNames] at same
    exact apart (List.cons.inj (List.cons.inj (List.cons.inj same).2).2).1
  have vacant : ∀ name, d₁.node? (name :: addressOf [[105]] (directoryNames currentClass.key)) = none := by
    intro name
    rcases alone _ ⟨[_, _, _, _], by simp, rfl⟩ (elsewhere name) with vacant | ⟨way, -⟩
    · exact vacant
    · exact absurd way (not_onTheWay_deep (by simp))
  have free : ∀ a, OnTheWay [[105]] (directoryNames currentClass.key) a →
      d₁.node? a = none ∨ ∃ m, d₁.node? a = some (.directory m) := by
    intro a on
    have deep : a ≠ fileAddress [[105]] sampleFunction.key := by
      rintro rfl
      exact not_onTheWay_deep (by simp [fileAddress]) on
    exact (alone a on.below deep).imp_right And.right
  obtain ⟨d, lands, -, -, changed⟩ := exists_lands hosts₁ currentClass 0 free (by simp [vacant])
    (fun m there => by cases (vacant _).symm.trans there)
  obtain ⟨hosts, intact⟩ := intact_of_lands hosts₁ lands
  have empty : (Disk.single [105]).Named [recordsPart, [105]] := fun below occupied => by
    cases (Disk.single_bare ((Disk.below_cons _ _).trans below)).symm.trans occupied
  have named₁ : d₁.Named [recordsPart, [105]] := named_of_changed empty fun a below other =>
    .inr ((alone a ((Disk.below_cons _ _).trans below) other).imp_right And.left)
  have named : d.Named [recordsPart, [105]] := named_of_changed named₁ fun a _ other =>
    (changed a other).imp_right (Or.imp And.right And.left)
  refine ⟨d, hosts, named, ?_, intact⟩
  rcases changed _ (elsewhere (fileName currentClass.key)).symm with same | ⟨here, -⟩ | ⟨way, -⟩
  · rw [recordAt_file (same.trans file), Text.decode?_encode, Option.bind_some, Record.decode_encode]
  · exact absurd here.symm (elsewhere _)
  · exact absurd way (not_onTheWay_deep (by simp [fileAddress]))

/-- The decision that one URI is gone. -/
def withoutGone (uri : String) : Bool := uri != "file:///gone.php"

/-- The class as it was once is swept out of the file of the function and reported. -/
theorem sample_sweep_any_content : ∃ d : Disk, d.Hosts ⟨[47, 105]⟩ [[105]] ∧ d.Named [recordsPart, [105]] ∧
    ∃ report d', outcome ((toStore (ofRoot ⟨[47, 105]⟩)).sweep fun uri => return withoutGone uri) ⟨d, {}, 0⟩ =
        (.ok report, ⟨d', {}, 0⟩) ∧
      Purged ⟨[47, 105]⟩ [[105]] withoutGone ⟨d, {}, 0⟩ report.removed d' ∧ formerClass ∈ report.removed := by
  obtain ⟨d, hosts, named, held, -⟩ := exists_former
  obtain ⟨report, d', done, purged⟩ := @sweep_any_content _ _ ⟨d, {}, 0⟩ hosts named withoutGone
  exact ⟨d, hosts, named, report, d', done, purged, purged.orphan _ _ held (by decide)⟩

/-- The sweep reports that the class is gone, and the class is still stored. -/
theorem reported_while_stored : ∃ d : Disk, d.Hosts ⟨[47, 105]⟩ [[105]] ∧ d.Named [recordsPart, [105]] ∧
    ∃ report w, outcome ((toStore (ofRoot ⟨[47, 105]⟩)).sweep fun uri => return withoutGone uri) ⟨d, {}, 0⟩ =
        (.ok report, w) ∧ formerClass ∈ report.removed ∧
      outcome ((toStore (ofRoot ⟨[47, 105]⟩)).get formerClass.key) w = (.ok (some currentClass), w) := by
  obtain ⟨d, hosts, named, held, intact⟩ := exists_former
  obtain ⟨paths, d', gone, verdicts, run, hosts', sheds, -, listed⟩ :=
    @sweep_sheds _ _ ⟨d, {}, 0⟩ hosts named withoutGone
  have still : Intact [[105]] d' currentClass.key currentClass := (sheds.intact_iff listed).2 ⟨intact, by decide⟩
  have same : formerClass.key = currentClass.key := rfl
  refine ⟨d, hosts, named, ⟨gone, verdicts⟩, ⟨d', {}, 0⟩, by rw [toStore, Script.outcome_lift, run],
    sheds.mem_gone listed held (by decide), ?_⟩
  rw [same, toStore, Script.outcome_lift, @get_intact _ _ ⟨d', {}, 0⟩ _ _ hosts' still]

end FileStore

end SymbolIndex
