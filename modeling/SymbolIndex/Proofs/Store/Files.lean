import SymbolIndex.Proofs.Store.Shelf
import SymbolIndex.Proofs.Store.Verdicts
import SymbolIndex.Proofs.System.Named

/-!
# Proofs.Store.Files — the directory of records keeps a ledger

On a disk that shelves a ledger each operation of the store answers as the ledger does and leaves a
disk that shelves the ledger after the operation, as long as no two identifiers share a digest
(`FileStore.keeps`). Whatever lies beside the directory of records stays as it is (`Aside`).

A sweep meets each file of a record once, in the order of the names; removing the files it decides
against takes exactly their keys.
-/

namespace SymbolIndex

open Script (outcome run_bind_of)
open SymbolIndex.Text (Bytes encode decode?)
open Disk (Hosts Fit addressOf OnTheWay)

set_option autoImplicit false

namespace FileStore

variable {S : String → Prop} {root : Path} {base : Address} {w : World} {l : Ledger}
  {key : RecordKey} {r : Record}

/-! ## Reading -/

theorem readEntry_some {path : Path} (read : w.disk.read path = .ok (encode r.encode)) :
    (readEntry path).run w = (some r, w) := by
  rw [readEntry, run_bind_of (by rw [Script.run_ask, Call.perform, read])]
  simp [Text.decode?_encode, Record.decode_encode]

theorem readEntry_none {path : Path} {e : DiskError} (missing : w.disk.read path = .error e) :
    (readEntry path).run w = (none, w) := by
  rw [readEntry, run_bind_of (by rw [Script.run_ask, Call.perform, missing])]
  rfl

theorem readEntry_run (shelved : Shelved S root base w.disk l) (distinct : Sha256.DistinctOn S)
    (used : S key.identifier) :
    (readEntry ((ofRoot root).recordPath key)).run w = (l.get? key, w) := by
  rw [recordPath_below]
  cases found : l.get? key with
  | none =>
      obtain ⟨e, missing⟩ :=
        shelved.hosts.read_none (fit_fileNames key) (shelved.vacant distinct used found)
      exact readEntry_none missing
  | some r =>
      obtain ⟨id, m, file⟩ := shelved.stored key r found
      exact readEntry_some (shelved.hosts.read_file (fit_fileNames key) file)

theorem get_run (shelved : Shelved S root base w.disk l) (distinct : Sha256.DistinctOn S)
    (used : S key.identifier) : ((ofRoot root).get key).run w = (l.get? key, w) := by
  rw [FileStore.get, run_bind_of (readEntry_run shelved distinct used)]
  cases found : l.get? key with
  | none => rfl
  | some r =>
      simp only
      rw [if_pos (shelved.keyed key r found)]
      rfl

theorem isFresh_run (shelved : Shelved S root base w.disk l) (distinct : Sha256.DistinctOn S)
    {path : String} (used : S (Uri.normalize path)) (mtime : Int64) :
    ((ofRoot root).isFresh path mtime).run w = (l.isFresh path mtime, w) := by
  have used' : S (RecordKey.ofFile path).identifier := used
  rw [FileStore.isFresh, run_bind_of (get_run shelved distinct used'), Ledger.isFresh]
  cases l.get? (.ofFile path) with
  | none => rfl
  | some r => cases r <;> rfl

theorem lastUpdate_run (shelved : Shelved S root base w.disk l) :
    (ofRoot root).lastUpdate.run w = (l.builtAt, w) := by
  rw [FileStore.lastUpdate, timestampPath_below]
  rcases shelved.clock with ⟨vacant, zero⟩ | ⟨id, c, m, file, same⟩
  · obtain ⟨e, missing⟩ := shelved.hosts.read_none fit_timestamp vacant
    rw [run_bind_of (by rw [Script.run_ask, Call.perform, missing]), zero]
    rfl
  · have read := shelved.hosts.read_file fit_timestamp file
    rw [run_bind_of (by rw [Script.run_ask, Call.perform, read]), ← same]
    rfl

/-! ## Removing and writing -/

theorem discard_run (shelved : Shelved S root base w.disk l) (distinct : Sha256.DistinctOn S)
    (used : S key.identifier) :
    ∃ d, (discard ((ofRoot root).recordPath key)).run w = ((), { w with disk := d }) ∧
      Shelved S root base d (l.remove key) ∧ Aside base w.disk d := by
  rw [recordPath_below, discard]
  cases found : l.get? key with
  | none =>
      have vacant := shelved.vacant distinct used found
      obtain ⟨e, missing⟩ := shelved.hosts.removeFile_none (fit_fileNames key) vacant
      have effect : ∀ a, w.disk.node? a = if a = fileAddress base key then none
          else w.disk.node? a := by
        intro a
        split
        next here => rw [here, vacant]
        · rfl
      exact ⟨w.disk, run_bind_of (Script.run_removeFile_error missing),
        shelved.take distinct used shelved.hosts effect, .refl _ _⟩
  | some r =>
      obtain ⟨id, m, file⟩ := shelved.stored key r found
      obtain ⟨d, removed, hosts, effect⟩ := shelved.hosts.removeFile_file (fit_fileNames key) file
      refine ⟨d, run_bind_of (Script.run_removeFile removed),
        shelved.take distinct used hosts effect, fun a outside => ?_⟩
      have apart : a ≠ fileAddress base key := outside_ne outside [_, _, _]
      rw [effect, addressOf_fileNames, if_neg apart]

theorem writeFile_run {path : Path} {id : Nat} {d : Disk} (bytes : Bytes)
    (opened : w.disk.openFile w.time true path = .ok (id, d)) :
    (writeFile path bytes).run w = (.ok (), { w with disk := d.append w.time id bytes }) := by
  rw [writeFile, run_bind_of (Script.run_create opened)]
  rfl

/-- Every call of a write succeeds: the directories are there or can be made, and the draft is written
and takes the place of the file. -/
def Lands (s : FileStore) (r : Record) (now : Int) (d d' : Disk) : Prop :=
  ∃ d₁ id d₂, d.createDirectories now (s.recordDirectory r.key) = .ok d₁ ∧
    d₁.openFile now true (s.draftPath r.key) = .ok (id, d₂) ∧
    (d₂.append now id (encode r.encode)).rename (s.draftPath r.key) (s.recordPath r.key) = .ok d'

theorem write_lands {s : FileStore} {d : Disk} (certain : r.isSpeculative = false)
    (lands : s.Lands r w.time w.disk d) : (s.write r).run w = ((), { w with disk := d }) := by
  obtain ⟨d₁, id, d₂, created, opened, renamed⟩ := lands
  have wrote : (writeFile (s.draftPath r.key) (encode r.encode)).run { w with disk := d₁ } =
      (.ok (), { w with disk := d₂.append w.time id (encode r.encode) }) := writeFile_run _ opened
  have moved : (Script.ask (.rename (s.draftPath r.key) (s.recordPath r.key))).run
      { w with disk := d₂.append w.time id (encode r.encode) } = (.ok (), { w with disk := d }) :=
    Script.run_rename renamed
  rw [FileStore.write, certain, if_neg (by simp), run_bind_of (Script.run_createDirectories created)]
  simp only
  rw [run_bind_of wrote]
  simp only
  rw [run_bind_of moved]
  rfl

/-- Bytes take the place of the file of a key where nothing but directories stands on the way, and no directory
in the place of the file or of its draft. -/
theorem exists_laid {d : Disk} (hosts : d.Hosts root base) (key : RecordKey) (bytes : Bytes) (now : Int)
    (free : ∀ a, OnTheWay base (directoryNames key) a → d.node? a = none ∨ ∃ m, d.node? a = some (.directory m))
    (draftLeaf : ∀ m, d.node? (draftName key :: addressOf base (directoryNames key)) ≠ some (.directory m))
    (fileLeaf : ∀ m, d.node? (fileAddress base key) ≠ some (.directory m)) :
    ∃ d₁ id d₂ d', d.createDirectories now ((ofRoot root).recordDirectory key) = .ok d₁ ∧
      d₁.openFile now true ((ofRoot root).draftPath key) = .ok (id, d₂) ∧
      (d₂.append now id bytes).rename ((ofRoot root).draftPath key) ((ofRoot root).recordPath key) = .ok d' ∧
      d'.Hosts root base ∧ (∃ id time, d'.node? (fileAddress base key) = some (.file id bytes time)) ∧
      ∀ a, a ≠ fileAddress base key → d'.node? a = d.node? a ∨
        (a = draftName key :: addressOf base (directoryNames key) ∧ d'.node? a = none) ∨
        (OnTheWay base (directoryNames key) a ∧ ∃ m, d'.node? a = some (.directory m)) := by
  obtain ⟨d₁, created, hosts₁, changed, there⟩ :=
    hosts.createDirectories_below now (fit_directoryNames key) free
  obtain ⟨m, parent⟩ := there _ (onTheWay_directoryNames.2 (.inr (.inr rfl)))
  -- The files of the key are deeper than any directory that was created.
  have deep : ∀ a, a.length = base.length + 4 → d₁.node? a = d.node? a := by
    intro a long
    rcases changed a with same | ⟨way, -⟩
    · exact same
    · exact absurd way (not_onTheWay_deep long)
  obtain ⟨id, d₂, d₃, time, opened, renamed, hosts₃, effect⟩ :=
    hosts₁.replace (fit_draftNames key) (fit_fileNames key) parent
      (by rw [deep _ (by rw [addressOf_directoryNames]; rfl)]; exact draftLeaf)
      (by rw [deep _ (by rw [addressOf_directoryNames]; rfl)]; exact fileLeaf)
      (fileName_ne_draftName _ _).symm now bytes
  refine ⟨d₁, id, d₂, d₃, ?_, ?_, ?_, hosts₃, ⟨id, time, (effect _).trans (if_pos rfl)⟩, fun a other => ?_⟩
  · rw [recordDirectory_below, created]
  · rw [draftPath_below]
    exact opened
  · rw [draftPath_below, recordPath_below]
    exact renamed
  · rw [effect, addressOf_directoryNames]
    split
    next here => exact absurd here other
    · split
      next here => exact .inr (.inl ⟨here, rfl⟩)
      · rcases changed a with same | ⟨way, -, directory⟩
        · exact .inl same
        · exact .inr (.inr ⟨way, _, directory⟩)

/-- A write lands where the text of the record can be laid. -/
theorem exists_lands {d : Disk} (hosts : d.Hosts root base) (r : Record) (now : Int)
    (free : ∀ a, OnTheWay base (directoryNames r.key) a → d.node? a = none ∨ ∃ m, d.node? a = some (.directory m))
    (draftLeaf : ∀ m, d.node? (draftName r.key :: addressOf base (directoryNames r.key)) ≠ some (.directory m))
    (fileLeaf : ∀ m, d.node? (fileAddress base r.key) ≠ some (.directory m)) :
    ∃ d', (ofRoot root).Lands r now d d' ∧ d'.Hosts root base ∧
      (∃ id time, d'.node? (fileAddress base r.key) = some (.file id (encode r.encode) time)) ∧
      ∀ a, a ≠ fileAddress base r.key → d'.node? a = d.node? a ∨
        (a = draftName r.key :: addressOf base (directoryNames r.key) ∧ d'.node? a = none) ∨
        (OnTheWay base (directoryNames r.key) a ∧ ∃ m, d'.node? a = some (.directory m)) := by
  obtain ⟨d₁, id, d₂, d', created, opened, renamed, rest⟩ :=
    exists_laid hosts r.key (encode r.encode) now free draftLeaf fileLeaf
  exact ⟨d', ⟨d₁, id, d₂, created, opened, renamed⟩, rest⟩

/-- Under a draft name and then in its place, whole. -/
theorem write_run (shelved : Shelved S root base w.disk l) (distinct : Sha256.DistinctOn S)
    (used : S r.identifier) :
    ∃ d, ((ofRoot root).write r).run w = ((), { w with disk := d }) ∧
      Shelved S root base d (l.write r) ∧ Aside base w.disk d := by
  cases speculative : r.isSpeculative with
  | true =>
      refine ⟨w.disk, by rw [FileStore.write, if_pos speculative]; rfl, ?_, .refl _ _⟩
      rwa [Ledger.write_speculative speculative]
  | false =>
      have draft := shelved.vacant_draft r.key
      obtain ⟨d, lands, hosts, ⟨id, time, file⟩, changed⟩ :=
        exists_lands shelved.hosts r w.time (shelved.free r.key)
          (by rw [addressOf_directoryNames, draft]; simp) (shelved.not_directory distinct used)
      refine ⟨d, write_lands speculative lands, ?_, fun a outside => ?_⟩
      · refine shelved.place distinct used speculative hosts file fun a other => ?_
        rcases changed a other with same | ⟨here, vacant⟩ | ⟨way, m, directory⟩
        · exact .inl same
        · exact .inl (by rw [vacant, here, addressOf_directoryNames, draft])
        · exact .inr ⟨way, m, directory⟩
      · have apart : ∀ names, a ≠ names ++ recordsPart :: base := outside_ne outside
        rcases changed a (apart [_, _, _]) with same | ⟨here, -⟩ | ⟨way, -⟩
        · exact same
        · exact absurd here (apart [_, _, _])
        · rcases onTheWay_directoryNames.1 way with same | same | same
          · exact absurd same (apart [])
          · exact absurd same (apart [_])
          · exact absurd same (apart [_, _])

theorem writeAll_run (shelved : Shelved S root base w.disk l) (distinct : Sha256.DistinctOn S)
    {rs : List Record} (used : ∀ r ∈ rs, S r.identifier) :
    ∃ d, ((ofRoot root).writeAll rs).run w = ((), { w with disk := d }) ∧
      Shelved S root base d (l.writeAll rs) ∧ Aside base w.disk d := by
  induction rs generalizing w l with
  | nil => exact ⟨w.disk, rfl, shelved, .refl _ _⟩
  | cons r rs ih =>
      obtain ⟨d₁, wrote, shelved₁, aside₁⟩ := write_run shelved distinct (used r (by simp))
      obtain ⟨d₂, rest, shelved₂, aside₂⟩ := @ih { w with disk := d₁ } _ shelved₁
        fun r' member => used r' (by simp [member])
      exact ⟨d₂, by rw [writeAll, run_bind_of wrote, rest], shelved₂, aside₁.trans aside₂⟩

theorem reset_outcome (shelved : Shelved S root base w.disk l) :
    ∃ d, outcome (ofRoot root).reset w = (.ok (), { w with disk := d }) ∧
      Shelved S root base d .empty ∧ Aside base w.disk d := by
  obtain ⟨m, home⟩ := shelved.home
  obtain ⟨d₁, removed, hosts₁, effect₁⟩ := shelved.hosts.removeTree_directory fit_records home
  rw [addressOf_records] at effect₁
  have gone : ∀ names, d₁.node? (names ++ recordsPart :: base) = none := fun names => by
    rw [effect₁, if_pos (isUnder_records base names)]
  obtain ⟨d₂, created, hosts₂, changed, there⟩ :=
    hosts₁.createDirectories_below w.time fit_records fun a way =>
      .inl (onTheWay_records.1 way ▸ gone [])
  obtain ⟨m', home'⟩ := there _ (onTheWay_records.2 rfl)
  refine ⟨d₂, ?_, .empty hosts₂ home' fun names some_ => ?_, fun a outside => ?_⟩
  · have first : outcome (ExceptT.lift (Script.ask (.removeTree (ofRoot root).root)) : Stored _) w =
        (.ok (.ok ()), { w with disk := d₁ }) := by
      rw [Script.outcome_lift, root_below, Script.run_removeTree removed]
    rw [FileStore.reset, Script.outcome_bind_ok first]
    simp only
    rw [Stored.outcome_disk, root_below, ← Script.run_ask, Script.run_createDirectories created]
    rfl
  · rcases changed (names ++ recordsPart :: base) with same | ⟨way, -⟩
    · rw [same, gone]
    · exact absurd (onTheWay_records.1 way) (by simpa using some_)
  · rcases changed a with same | ⟨way, -⟩
    · rw [same, effect₁, outside]
      rfl
    · exact absurd (onTheWay_records.1 way) (outside_ne outside [])

theorem markUpdated_outcome (shelved : Shelved S root base w.disk l) (time : Int64) :
    ∃ d, outcome ((ofRoot root).markUpdated time) w = (.ok (), { w with disk := d }) ∧
      Shelved S root base d (l.markUpdated time) ∧ Aside base w.disk d := by
  obtain ⟨m, home⟩ := shelved.home
  have draft : w.disk.node? (timestampDraftName :: addressOf base [recordsPart]) = none := by
    cases occupied : w.disk.node? (timestampDraftName :: addressOf base [recordsPart]) with
    | none => rfl
    | some node =>
        rcases shelved.shards _ _ occupied with same | ⟨key, m, same, -⟩
        · exact absurd same.symm timestampName_ne_draft
        · exact absurd same.symm (shardName_ne_timestampDraftName key)
  have leaf : ∀ m, w.disk.node? (timestampName :: addressOf base [recordsPart]) ≠
      some (.directory m) := by
    rcases shelved.clock with ⟨vacant, -⟩ | ⟨id, c, m, file, -⟩
    · exact fun m directory => by cases vacant.symm.trans directory
    · exact fun m directory => by cases file.symm.trans directory
  obtain ⟨id, d₁, d₂, stamp, opened, renamed, hosts, effect⟩ :=
    @Hosts.replace _ _ _ [recordsPart] _ m shelved.hosts _ fit_timestampDraft fit_timestamp home
      (by simp [draft]) leaf timestampName_ne_draft.symm w.time (encode (toString time.toInt))
  have created : outcome (Stored.disk (.create (ofRoot root).timestampDraft)) w =
      (.ok id, { w with disk := d₁ }) :=
    congrArg (fun r => (Except.mapError StoreError.io r.1, r.2)) (Script.run_create opened)
  have wrote : outcome (Stored.disk (.append id (encode (toString time.toInt))))
      { w with disk := d₁ } =
        (.ok (), { w with disk := d₁.append w.time id (encode (toString time.toInt)) }) := rfl
  have moved : outcome (Stored.disk (.rename (ofRoot root).timestampDraft
      (ofRoot root).timestampPath))
        { w with disk := d₁.append w.time id (encode (toString time.toInt)) } =
          (.ok (), { w with disk := d₂ }) :=
    congrArg (fun r => (Except.mapError StoreError.io r.1, r.2)) (Script.run_rename renamed)
  have file : d₂.node? (timestampAddress base) =
      some (.file id (encode (toString time.toInt)) stamp) := (effect _).trans (if_pos rfl)
  have others : ∀ a, a ≠ timestampAddress base → d₂.node? a = w.disk.node? a := fun a other => by
    refine (effect a).trans ((if_neg other).trans ?_)
    split
    next here => rw [here, draft]
    · rfl
  refine ⟨d₂, ?_, ?_, fun a outside => others a (outside_ne outside [_])⟩
  · rw [FileStore.markUpdated, Script.outcome_bind_ok created, Script.outcome_bind_ok wrote, moved]
  · have stamped := shelved.stamp hosts file others
    rwa [builtAtOf_encode] at stamped

/-! ## Sweeping -/

/-- The entries at a path that satisfy `p`, as paths. -/
theorem listed_run {names : List Name} (hosts : w.disk.Hosts root base) (proper : ∀ name ∈ names, name.Proper)
    (some_ : names ≠ []) (p : Name × NodeKind → Bool) :
    ∃ found : List Name, (Script.entries (root.below names) >>= fun entries =>
        (pure ((entries.filter p).map fun e => (root.below names).join e.1) : Script _)).run w =
          (found.map fun name => root.below (names ++ [name]), w) ∧ found.Nodup ∧
      ∀ name, name ∈ found ↔ w.disk.Leading (root.below names) ∧ ∃ node,
        w.disk.node? (name :: addressOf base names) = some node ∧ p (name, node.kind) = true := by
  obtain ⟨entries, entered, distinct, spec⟩ := hosts.entries_run proper some_
  refine ⟨(entries.filter p).map (·.1), ?_, distinct.sublist (List.filter_sublist.map _), ?_⟩
  · rw [run_bind_of entered, List.map_map]
    have path : (fun e : Name × NodeKind => (root.below names).join e.1) =
        (fun name => root.below (names ++ [name])) ∘ (·.1) := by
      funext e
      rw [Function.comp, Path.below_append]
      rfl
    rw [path]
    rfl
  · intro name
    rw [List.mem_map]
    constructor
    · rintro ⟨⟨_, kind⟩, member, rfl⟩
      obtain ⟨listed, holds⟩ := List.mem_filter.1 member
      obtain ⟨leads, node, occupied, rfl⟩ := (spec _ _).1 listed
      exact ⟨leads, node, occupied, holds⟩
    · rintro ⟨leads, node, occupied, holds⟩
      exact ⟨(name, node.kind), List.mem_filter.2 ⟨(spec _ _).2 ⟨leads, node, occupied, rfl⟩, holds⟩, rfl⟩

theorem kind_directory {node : Node} : node.kind = .directory ↔ ∃ m, node = .directory m := by
  cases node <;> simp [Node.kind]

theorem kind_file {node : Node} : node.kind = .file ↔ ∃ id c m, node = .file id c m := by
  cases node <;> simp [Node.kind]

theorem directories_run {names : List Name} (hosts : w.disk.Hosts root base)
    (proper : ∀ name ∈ names, name.Proper) (some_ : names ≠ []) :
    ∃ found : List Name, (directories (root.below names)).run w =
        (found.map fun name => root.below (names ++ [name]), w) ∧ found.Nodup ∧
      ∀ name, name ∈ found ↔ w.disk.Leading (root.below names) ∧
        ∃ m, w.disk.node? (name :: addressOf base names) = some (.directory m) := by
  obtain ⟨found, done, distinct, spec⟩ := listed_run hosts proper some_ fun e => decide (e.2 = .directory)
  refine ⟨found, done, distinct, fun name => (spec name).trans (and_congr_right fun _ => ?_)⟩
  simp only [decide_eq_true_eq, kind_directory]
  constructor
  · rintro ⟨_, occupied, m, rfl⟩
    exact ⟨m, occupied⟩
  · rintro ⟨m, occupied⟩
    exact ⟨_, occupied, m, rfl⟩

/-- What a step gives for each of some directories: the names below them that satisfy `Q`, each once. -/
theorem collect_run {f : Path → Script (List Path)} {Q : List Name → Name → Prop}
    {front : List (List Name)} (nodup : front.Nodup)
    (each : ∀ names ∈ front, ∃ found : List Name, (f (root.below names)).run w =
        (found.map fun name => root.below (names ++ [name]), w) ∧ found.Nodup ∧
      ∀ name, name ∈ found ↔ Q names name) :
    ∃ back : List (List Name), (Script.collect f (front.map root.below)).run w =
        (back.map root.below, w) ∧ back.Nodup ∧
      ∀ all, all ∈ back ↔ ∃ names ∈ front, ∃ name, all = names ++ [name] ∧ Q names name := by
  induction front with
  | nil => exact ⟨[], rfl, .nil, by simp⟩
  | cons names rest ih =>
      obtain ⟨fresh, nodup⟩ := List.nodup_cons.1 nodup
      obtain ⟨found, done, distinct, spec⟩ := each names (by simp)
      obtain ⟨back, collected, nodup', spec'⟩ := ih nodup fun n member => each n (by simp [member])
      refine ⟨(found.map fun name => names ++ [name]) ++ back, ?_, ?_, fun all => ?_⟩
      · rw [List.map_cons, Script.collect, run_bind_of done, run_bind_of collected, List.map_append,
          List.map_map]
        rfl
      · refine (distinct.map fun a b same => by simpa using same).append nodup' fun all here there => ?_
        obtain ⟨name, -, rfl⟩ := List.mem_map.1 here
        obtain ⟨names', member, name', same, -⟩ := (spec' _).1 there
        exact fresh ((List.append_inj' same rfl).1 ▸ member)
      · rw [List.mem_append, List.mem_map, spec']
        simp only [List.mem_cons, or_and_right, exists_or, exists_eq_left]
        refine or_congr ⟨?_, ?_⟩ Iff.rfl
        · rintro ⟨name, member, rfl⟩
          exact ⟨name, rfl, (spec name).1 member⟩
        · rintro ⟨name, rfl, holds⟩
          exact ⟨name, (spec name).2 holds, rfl⟩

/-- The names that are found are those of the files of some keys. -/
theorem exists_keys {all : List (List Name)} {P : RecordKey → Prop}
    (each : ∀ names ∈ all, ∃ key, P key ∧ names = fileNames key) :
    ∃ keys : List RecordKey, all = keys.map fileNames ∧ ∀ key ∈ keys, P key := by
  induction all with
  | nil => exact ⟨[], rfl, by simp⟩
  | cons names rest ih =>
      obtain ⟨key, holds, rfl⟩ := each names (by simp)
      obtain ⟨keys, rfl, hold⟩ := ih fun n member => each n (by simp [member])
      exact ⟨key :: keys, rfl, List.forall_mem_cons.2 ⟨holds, hold⟩⟩

/-- Names that lead to a file of a record: a file with the extension, three directories below the index, where each of
the directories has a path. -/
structure Met (d : Disk) (root : Path) (base : Address) (shard digit name : Name) : Prop where
  extended : Name.extension? name = some extension
  home : d.Leading (root.below [recordsPart])
  first : d.Leading (root.below [recordsPart, shard])
  second : d.Leading (root.below [recordsPart, shard, digit])
  file : ∃ id c m, d.node? (name :: digit :: shard :: recordsPart :: base) = some (.file id c m)

/-- A sweep meets each file of a record once, whatever lies beside it. -/
theorem allRecordFiles_any (hosts : w.disk.Hosts root base) (named : w.disk.Named (recordsPart :: base)) :
    ∃ paths : List (List Name), (ofRoot root).allRecordFiles.run w = (paths.map root.below, w) ∧ paths.Nodup ∧
      ∀ names, names ∈ paths ↔
        ∃ shard digit name, names = [recordsPart, shard, digit, name] ∧ Met w.disk root base shard digit name := by
  have shardProper : ∀ {name node}, w.disk.node? (name :: recordsPart :: base) = some node → name.Proper :=
    named (Disk.below_cons _ _)
  have digitProper : ∀ {name shard node}, w.disk.node? (name :: shard :: recordsPart :: base) = some node →
      name.Proper := named ⟨[_, _], by simp, rfl⟩
  obtain ⟨first, done₁, nodup₁, spec₁⟩ := directories_run hosts fit_records.proper fit_records.some_
  have nodupNames : (first.map fun name => [recordsPart] ++ [name]).Nodup :=
    nodup₁.map fun a b same => by simpa using same
  obtain ⟨second, done₂, nodup₂, spec₂⟩ := @collect_run root w directories
    (fun names name => w.disk.Leading (root.below names) ∧
      ∃ m, w.disk.node? (name :: addressOf base names) = some (.directory m))
    _ nodupNames fun names member => by
      obtain ⟨shard, listed, rfl⟩ := List.mem_map.1 member
      obtain ⟨-, m, directory⟩ := (spec₁ shard).1 listed
      exact directories_run hosts (by simpa using ⟨recordsPart_proper, shardProper directory⟩) (by simp)
  obtain ⟨third, done₃, nodup₃, spec₃⟩ := @collect_run root w recordFiles
    (fun names name => w.disk.Leading (root.below names) ∧ ∃ node,
      w.disk.node? (name :: addressOf base names) = some node ∧
        decide (node.kind = .file ∧ Name.extension? name = some extension) = true)
    second nodup₂ fun names member => by
      obtain ⟨names', member', digit, rfl, -, m, directory⟩ := (spec₂ names).1 member
      obtain ⟨shard, listed, rfl⟩ := List.mem_map.1 member'
      obtain ⟨-, m', directory'⟩ := (spec₁ shard).1 listed
      refine listed_run hosts ?_ (by simp) _
      simpa using ⟨recordsPart_proper, shardProper directory', digitProper directory⟩
  refine ⟨third, ?_, nodup₃, fun names => ?_⟩
  · rw [allRecordFiles, root_below, run_bind_of done₁]
    have paths : (first.map fun name => root.below ([recordsPart] ++ [name])) =
        (first.map fun name => [recordsPart] ++ [name]).map root.below := by
      rw [List.map_map]
      rfl
    rw [paths, run_bind_of done₂, done₃]
  · rw [spec₃]
    constructor
    · rintro ⟨names', member', name, rfl, leads₂, node, occupied, holds⟩
      obtain ⟨names'', member'', digit, rfl, leads₁, -⟩ := (spec₂ names').1 member'
      obtain ⟨shard, listed, rfl⟩ := List.mem_map.1 member''
      obtain ⟨leads₀, -⟩ := (spec₁ shard).1 listed
      obtain ⟨kind, extended⟩ := of_decide_eq_true holds
      obtain ⟨id, c, m, rfl⟩ := kind_file.1 kind
      exact ⟨shard, digit, name, rfl, extended, leads₀, leads₁, leads₂, id, c, m, occupied⟩
    · rintro ⟨shard, digit, name, rfl, extended, leads₀, leads₁, leads₂, id, c, m, file⟩
      obtain ⟨m₂, digit'⟩ := hosts.sound.upward file
      obtain ⟨m₁, shard'⟩ := hosts.sound.upward digit'
      have listed : [recordsPart, shard] ∈ first.map fun name => [recordsPart] ++ [name] :=
        List.mem_map.2 ⟨shard, (spec₁ shard).2 ⟨leads₀, m₁, shard'⟩, rfl⟩
      have listed' : [recordsPart, shard, digit] ∈ second :=
        (spec₂ _).2 ⟨_, listed, digit, rfl, leads₁, m₂, digit'⟩
      exact ⟨_, listed', name, rfl, leads₂, _, file, decide_eq_true ⟨kind_file.2 ⟨id, c, m, rfl⟩, extended⟩⟩

/-- The file of a key is met wherever there is one. -/
theorem met_of_file {d : Disk} (hosts : d.Hosts root base) {id : Nat} {c : Bytes} {m : Int}
    (file : d.node? (fileAddress base key) = some (.file id c m)) :
    Met d root base (shardName key) (digitName key) (fileName key) := by
  obtain ⟨m₃, digit⟩ := hosts.sound.upward file
  obtain ⟨m₂, shard⟩ := hosts.sound.upward digit
  obtain ⟨m₁, home⟩ := hosts.sound.upward shard
  exact ⟨extension_fileName key, hosts.leading_of_fit fit_records home, hosts.leading_of_fit (fit_shard key) shard,
    hosts.leading_of_fit (fit_directoryNames key) digit, id, c, m, file⟩

/-- A sweep meets the file of each record once. -/
theorem allRecordFiles_run (shelved : Shelved S root base w.disk l) (distinct : Sha256.DistinctOn S) :
    ∃ keys : List RecordKey, (ofRoot root).allRecordFiles.run w =
        (keys.map (ofRoot root).recordPath, w) ∧ keys.Nodup ∧
      ∀ key, key ∈ keys ↔ (l.get? key).isSome := by
  obtain ⟨paths, done, nodup, spec⟩ := allRecordFiles_any shelved.hosts shelved.named
  obtain ⟨keys, rfl, there⟩ : ∃ keys : List RecordKey, paths = keys.map fileNames ∧
      ∀ key ∈ keys, (l.get? key).isSome := exists_keys fun names member => by
    obtain ⟨shard, digit, name, rfl, met⟩ := (spec names).1 member
    obtain ⟨id, c, m, file⟩ := met.file
    obtain ⟨key, there, same⟩ := shelved.files name digit shard _ file
    obtain ⟨rfl, rfl, rfl⟩ : name = fileName key ∧ digit = digitName key ∧ shard = shardName key := by
      simpa [fileAddress] using same
    exact ⟨key, there, rfl⟩
  refine ⟨keys, ?_, .of_map _ nodup, fun key => ⟨there key, fun some_ => ?_⟩⟩
  · rw [done, List.map_map]
    exact congrArg (·, w) (List.map_congr_left fun key _ => by rw [Function.comp, recordPath_below])
  · obtain ⟨r, stored⟩ := Option.isSome_iff_exists.1 some_
    obtain ⟨id, m, file⟩ := shelved.stored key r stored
    have listed : fileNames key ∈ keys.map fileNames :=
      (spec _).2 ⟨_, _, _, rfl, met_of_file shelved.hosts file⟩
    obtain ⟨key', member, same⟩ := List.mem_map.1 listed
    obtain ⟨r', stored'⟩ := Option.isSome_iff_exists.1 (there key' member)
    exact fileNames_inj distinct (shelved.used key' r' stored') (shelved.used key r stored) same ▸ member

/-- A sweep of the files of some keys removes some of their records, and those alone. Where the verdict
on a URI never changes, it removes the orphans. -/
theorem sweepFiles_run {keep : String → Script Bool} (quiet : ∀ uri w, ((keep uri).run w).2 = w)
    (distinct : Sha256.DistinctOn S) {keys : List RecordKey} (nodup : keys.Nodup)
    (shelved : Shelved S root base w.disk l) (there : ∀ key ∈ keys, (l.get? key).isSome)
    (report : SweepReport) :
    ∃ d removed verdicts, (sweepFiles keep report (keys.map (ofRoot root).recordPath)).run w =
        (⟨report.removed ++ removed, verdicts⟩, { w with disk := d }) ∧
      Shelved S root base d (l.without removed) ∧ Aside base w.disk d ∧
      removed.Sublist ((keys.filterMap l.get?).filter Ledger.isPlaced) ∧
      ∀ kept : String → Bool, keep = (fun uri => return kept uri) → Agree kept report.verdicts →
        removed = (keys.filterMap l.get?).filter (Ledger.isOrphan kept) := by
  induction keys generalizing w l report with
  | nil =>
      exact ⟨w.disk, [], report.verdicts, by rw [List.append_nil]; rfl, shelved, .refl _ _, .slnil,
        fun _ _ _ => rfl⟩
  | cons key keys ih =>
      obtain ⟨fresh, nodup⟩ := List.nodup_cons.1 nodup
      obtain ⟨r, found⟩ := Option.isSome_iff_exists.1 (there key (by simp))
      have used := shelved.used key r found
      have read := readEntry_run shelved distinct used
      have rest := fun k member => there k (List.mem_cons_of_mem key member)
      rw [found] at read
      rw [List.map_cons, sweepFiles, run_bind_of read, List.filterMap_cons_some found]
      simp only
      cases source : r.sourceUri? with
      | none =>
          obtain ⟨d, removed, verdicts, done, shelved', aside, sublist, pure⟩ :=
            ih nodup shelved rest report
          have free : ¬ Ledger.isPlaced r = true := by simp [Ledger.isPlaced, source]
          rw [List.filter_cons_of_neg free]
          refine ⟨d, removed, verdicts, done, shelved', aside, sublist, fun kept same agree => ?_⟩
          rw [pure kept same agree, List.filter_cons_of_neg]
          simp [Ledger.isOrphan, source]
      | some uri =>
          obtain ⟨kept, verdicts, decided⟩ := verdict_quiet quiet report.verdicts uri w
          -- A verdict that never changes is the one that was given.
          have settled : ∀ kept' : String → Bool, keep = (fun uri => return kept' uri) →
              Agree kept' report.verdicts → kept = kept' uri ∧ Agree kept' verdicts := by
            rintro kept' rfl agree
            have decides : ∀ uri, (Script.run (return kept' uri : Script Bool) w) = (kept' uri, w) :=
              fun _ => rfl
            obtain ⟨verdicts', decided', agree'⟩ := verdict_run decides agree uri
            have both := congrArg (·.1) (decided.symm.trans decided')
            obtain ⟨rfl, rfl⟩ := Prod.mk.inj both
            exact ⟨rfl, agree'⟩
          have placed : Ledger.isPlaced r = true := by simp [Ledger.isPlaced, source]
          rw [List.filter_cons_of_pos placed]
          simp only
          rw [run_bind_of decided]
          cases kept with
          | true =>
              obtain ⟨d, removed, verdicts', done, shelved', aside, sublist, pure⟩ :=
                ih nodup shelved rest { report with verdicts := verdicts }
              refine ⟨d, removed, verdicts', done, shelved', aside, sublist.cons r,
                fun kept' same agree => ?_⟩
              obtain ⟨yes, agree'⟩ := settled kept' same agree
              rw [pure kept' same agree', List.filter_cons_of_neg]
              simp [Ledger.isOrphan, source, ← yes]
          | false =>
              obtain ⟨d₁, gone, shelved₁, aside₁⟩ := discard_run shelved distinct used
              obtain ⟨d, removed, verdicts', done, shelved', aside, sublist, pure⟩ :=
                @ih { w with disk := d₁ } _ nodup shelved₁ (fun k member => by
                  have other : key ≠ k := by
                    rintro rfl
                    exact fresh member
                  rw [Ledger.get?_remove, if_neg other]
                  exact rest k member) ⟨report.removed ++ [r], verdicts⟩
              rw [Ledger.filterMap_remove fresh] at sublist pure
              have same : l.without (r :: removed) = (l.remove key).without removed := by
                rw [Ledger.without, List.map_cons, shelved.keyed key r found]
                rfl
              refine ⟨d, r :: removed, verdicts', ?_, same ▸ shelved', aside₁.trans aside,
                sublist.cons_cons r, fun kept' same agree => ?_⟩
              · simp only [Bool.false_eq_true, if_false]
                rw [run_bind_of gone, done, List.append_assoc]
                rfl
              · obtain ⟨no, agree'⟩ := settled kept' same agree
                rw [pure kept' same agree', List.filter_cons_of_pos]
                simp [Ledger.isOrphan, source, ← no]

theorem sweep_run {keep : String → Script Bool} (quiet : ∀ uri w, ((keep uri).run w).2 = w)
    (distinct : Sha256.DistinctOn S) (shelved : Shelved S root base w.disk l) :
    ∃ d removed verdicts, ((ofRoot root).sweep keep).run w =
        (⟨removed, verdicts⟩, { w with disk := d }) ∧
      Shelved S root base d (l.without removed) ∧ Aside base w.disk d ∧
      (∀ r ∈ removed, l.get? r.key = some r ∧ r.sourceUri?.isSome) ∧
      ∀ kept : String → Bool, keep = (fun uri => return kept uri) →
        removed.Perm (l.orphans kept) ∧ l.without removed = l.sweep kept := by
  obtain ⟨keys, listed, nodup, spec⟩ := allRecordFiles_run shelved distinct
  obtain ⟨d, removed, verdicts, done, shelved', aside, sublist, pure⟩ :=
    sweepFiles_run quiet distinct nodup shelved (fun key member => (spec key).1 member) ⟨[], .empty⟩
  have stored : ∀ {r}, r ∈ keys.filterMap l.get? → l.get? r.key = some r := by
    intro r member
    obtain ⟨key, -, found⟩ := List.mem_filterMap.1 member
    exact shelved.keyed key r found ▸ found
  refine ⟨d, removed, verdicts, ?_, shelved', aside, fun r member => ?_, fun kept same => ?_⟩
  · rw [sweep, run_bind_of listed, done]
    rfl
  · obtain ⟨member, placed⟩ := List.mem_filter.1 (sublist.subset member)
    exact ⟨stored member, placed⟩
  · obtain rfl := pure kept same .empty
    have back : ∀ rs : List Record, (∀ r ∈ rs, l.get? r.key = some r) →
        (rs.map Record.key).filterMap l.get? = rs := by
      intro rs each
      rw [List.filterMap_map]
      exact (List.filterMap_eq_map_iff_forall_eq_some.2 each).trans (List.map_id _)
    have each : ∀ r ∈ (keys.filterMap l.get?).filter (Ledger.isOrphan kept), l.get? r.key = some r :=
      fun r member => stored (List.mem_filter.1 member).1
    have keysOf : (keys.filterMap l.get?).map Record.key = keys := by
      rw [List.map_filterMap]
      refine List.filterMap_eq_map_iff_forall_eq_some.2 (fun key member => ?_) |>.trans (List.map_id _)
      obtain ⟨r, found⟩ := Option.isSome_iff_exists.1 ((spec key).1 member)
      rw [found, Option.map_some, shelved.keyed key r found]
      rfl
    have swept := @Ledger.removeAll_orphans l kept
      (((keys.filterMap l.get?).filter (Ledger.isOrphan kept)).map Record.key) shelved.keyed
        (List.Nodup.sublist (List.filter_sublist.map _) (keysOf.symm ▸ nodup)) fun key => ?_
    · rw [back _ each] at swept
      exact swept
    · rw [List.mem_map]
      constructor
      · rintro ⟨r, member, rfl⟩
        exact ⟨r, each r member, (List.mem_filter.1 member).2⟩
      · rintro ⟨r, found, orphan⟩
        have member : key ∈ keys := (spec key).2 (by rw [found]; rfl)
        exact ⟨r, List.mem_filter.2 ⟨List.mem_filterMap.2 ⟨key, member, found⟩, orphan⟩,
          shelved.keyed key r found⟩

/-! ## The store -/

/-- The store of files keeps a ledger, for identifiers with digests of their own. -/
theorem keeps (distinct : Sha256.DistinctOn S) (root : Path) (base : Address) :
    (toStore (ofRoot root)).Keeps S (fun l w => Shelved S root base w.disk l) where
  keyed shelved := shelved.keyed
  get shelved within := by
    rw [toStore, Script.outcome_lift, get_run shelved distinct within.used]
  isFresh shelved used := by
    rw [toStore, Script.outcome_lift, isFresh_run shelved distinct used]
  lastUpdate shelved := by
    rw [toStore, Script.outcome_lift, lastUpdate_run shelved]
  write shelved within := by
    obtain ⟨d, done, shelved', -⟩ := write_run shelved distinct within.key.used
    exact ⟨_, by rw [toStore, Script.outcome_lift, done], shelved'⟩
  writeBatch shelved within := by
    obtain ⟨d, done, shelved', -⟩ := writeAll_run shelved distinct fun r member =>
      (within r member).key.used
    exact ⟨_, by rw [toStore, Script.outcome_lift, done], shelved'⟩
  remove shelved within := by
    obtain ⟨d, done, shelved', -⟩ := discard_run shelved distinct within.used
    exact ⟨_, by rw [toStore, Script.outcome_lift, done], shelved'⟩
  reset shelved := by
    obtain ⟨d, done, shelved', -⟩ := reset_outcome shelved
    exact ⟨_, done, shelved'⟩
  markUpdated shelved := by
    obtain ⟨d, done, shelved', -⟩ := markUpdated_outcome shelved _
    exact ⟨_, done, shelved'⟩
  flush _ := rfl
  sweep shelved := by
    rename_i keep
    have quiet : ∀ uri w, (Script.run (return keep uri : Script Bool) w).2 = w := fun _ _ => rfl
    obtain ⟨d, removed, verdicts, done, shelved', -, -, pure⟩ := sweep_run quiet distinct shelved
    obtain ⟨perm, same⟩ := pure keep rfl
    exact ⟨⟨removed, verdicts⟩, _, by rw [toStore, Script.outcome_lift, done], perm, same ▸ shelved'⟩

end FileStore

end SymbolIndex
