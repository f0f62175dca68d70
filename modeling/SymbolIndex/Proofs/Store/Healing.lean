import SymbolIndex.Proofs.Store.Files
import SymbolIndex.Proofs.System.Changes

/-!
# Proofs.Store.Healing — the directory of records heals from any content

Whatever bytes lie where the file of a record belongs, a lookup takes them for a record only if they
are the text of a record of that very key (`Intact`): then it returns the record and changes nothing.
Anything else is removed as it is met, whether it is no text, no record, or a record of another key,
and nothing else on the disk changes (`get_damaged`). A write that lands afterwards is what the next
lookup returns (`intact_of_lands`), so that damage to a file costs the record in it and no more.

No condition is set on the rest of the directory: other files may be damaged too, and other keys may
share the digest.
-/

namespace SymbolIndex

open Script (outcome run_bind_of)
open SymbolIndex.Text (Bytes encode decode?)
open Disk (Hosts addressOf OnTheWay)

set_option autoImplicit false

namespace FileStore

variable {root : Path} {base : Address} {w : World} {key : RecordKey} {r : Record}

/-- The file of a key is there and holds the text of a record of that key. -/
def Intact (base : Address) (d : Disk) (key : RecordKey) (r : Record) : Prop :=
  ∃ id c m, d.node? (fileAddress base key) = some (.file id c m) ∧
    (decode? c).bind Record.decode? = some r ∧ r.key = key

/-! ## Looking a record up -/

theorem readEntry_decoded {path : Path} {c : Bytes} (read : w.disk.read path = .ok c)
    (decoded : (decode? c).bind Record.decode? = some r) : (readEntry path).run w = (some r, w) := by
  rw [readEntry, run_bind_of (by rw [Script.run_ask, Call.perform, read])]
  simp only [decoded]
  rfl

theorem readEntry_undecoded {path : Path} {c : Bytes} (read : w.disk.read path = .ok c)
    (refused : (decode? c).bind Record.decode? = none) :
    (readEntry path).run w = (none, ((discard path).run w).2) := by
  rw [readEntry, run_bind_of (by rw [Script.run_ask, Call.perform, read])]
  simp only [refused]
  rw [Script.run_bind]
  rfl

theorem get_intact (hosts : w.disk.Hosts root base) (intact : Intact base w.disk key r) :
    ((ofRoot root).get key).run w = (some r, w) := by
  obtain ⟨id, c, m, file, decoded, keyed⟩ := intact
  have read : w.disk.read ((ofRoot root).recordPath key) = .ok c := by
    rw [recordPath_below]
    exact hosts.read_file (fit_fileNames key) file
  rw [FileStore.get, run_bind_of (readEntry_decoded read decoded)]
  simp only [if_pos keyed]
  rfl

theorem get_vacant (hosts : w.disk.Hosts root base)
    (vacant : w.disk.node? (fileAddress base key) = none) :
    ((ofRoot root).get key).run w = (none, w) := by
  obtain ⟨e, missing⟩ := hosts.read_none (fit_fileNames key) vacant
  rw [← recordPath_below] at missing
  rw [FileStore.get, run_bind_of (readEntry_none missing)]
  rfl

/-- What is removed is the file of the key alone. -/
theorem discard_file (hosts : w.disk.Hosts root base) {id : Nat} {c : Bytes} {m : Int}
    (file : w.disk.node? (fileAddress base key) = some (.file id c m)) :
    ∃ d, (discard ((ofRoot root).recordPath key)).run w = ((), { w with disk := d }) ∧
      d.Hosts root base ∧ d.node? (fileAddress base key) = none ∧
      ∀ a, a ≠ fileAddress base key → d.node? a = w.disk.node? a := by
  obtain ⟨d, removed, hosts', effect⟩ := hosts.removeFile_file (fit_fileNames key) file
  rw [addressOf_fileNames] at effect
  refine ⟨d, ?_, hosts', (effect _).trans (if_pos rfl), fun a other => (effect a).trans (if_neg other)⟩
  rw [recordPath_below, discard]
  exact run_bind_of (Script.run_removeFile removed)

/-- What is no record of the key is gone once the key was looked up. -/
theorem get_damaged (hosts : w.disk.Hosts root base)
    (bytes : ∀ m, w.disk.node? (fileAddress base key) ≠ some (.directory m))
    (damaged : ∀ r, ¬ Intact base w.disk key r) :
    ∃ d, ((ofRoot root).get key).run w = (none, { w with disk := d }) ∧ d.Hosts root base ∧
      d.node? (fileAddress base key) = none ∧
      ∀ a, a ≠ fileAddress base key → d.node? a = w.disk.node? a := by
  cases occupied : w.disk.node? (fileAddress base key) with
  | none => exact ⟨w.disk, get_vacant hosts occupied, hosts, occupied, fun _ _ => rfl⟩
  | some node =>
      cases node with
      | directory m => exact absurd occupied (bytes m)
      | link target =>
          refine absurd occupied (hosts.unlinked ?_)
          exact Disk.below_addressOf (fit_fileNames key).some_
      | file id c m =>
          have read : w.disk.read ((ofRoot root).recordPath key) = .ok c := by
            rw [recordPath_below]
            exact hosts.read_file (fit_fileNames key) occupied
          obtain ⟨d, removed, hosts', gone, others⟩ := discard_file hosts occupied
          refine ⟨d, ?_, hosts', gone, others⟩
          rw [FileStore.get]
          cases decoded : (decode? c).bind Record.decode? with
          | none =>
              rw [run_bind_of (readEntry_undecoded read decoded), removed]
              rfl
          | some r =>
              have other : r.key ≠ key := fun keyed => damaged r ⟨id, c, m, occupied, decoded, keyed⟩
              rw [run_bind_of (readEntry_decoded read decoded)]
              simp only [if_neg other]
              rw [run_bind_of removed]
              rfl

/-! ## Writing over it -/

/-- A record whose write landed is intact. -/
theorem intact_of_lands {d d' : Disk} {now : Int} (hosts : d.Hosts root base)
    (lands : (ofRoot root).Lands r now d d') : d'.Hosts root base ∧ Intact base d' r.key r := by
  obtain ⟨d₁, id, d₂, created, opened, renamed⟩ := lands
  rw [recordDirectory_below] at created
  rw [draftPath_below] at opened renamed
  rw [recordPath_below] at renamed
  obtain ⟨hosts₁, -⟩ := hosts.createDirectories_ok (fit_directoryNames r.key) created
  obtain ⟨hosts', time, effect⟩ := hosts₁.replace_ok (fit_draftNames r.key) (fit_fileNames r.key)
    (fileName_ne_draftName _ _).symm opened renamed
  refine ⟨hosts', id, _, time, (effect _).trans (if_pos rfl), ?_, rfl⟩
  rw [Text.decode?_encode, Option.bind_some, Record.decode_encode]

/-- **The store heals.** Where any bytes or none lie in the place of the file of a key, a lookup of the
key never fails. It returns a record exactly if the bytes are the text of a record of the key, and
then leaves the world as it was. Otherwise it returns none; afterwards nothing lies in that place,
the store does not have the key, and every other address holds what it held. A write of a record of
the key whose calls succeed is what a lookup returns from then on. -/
theorem get_heals (hosts : w.disk.Hosts root base)
    (bytes : ∀ m, w.disk.node? (fileAddress base key) ≠ some (.directory m)) :
    ∃ answer d,
      outcome ((toStore (ofRoot root)).get key) w = (.ok answer, { w with disk := d }) ∧
      d.Hosts root base ∧
      (∀ r, answer = some r ↔ Intact base w.disk key r) ∧
      (∀ r, answer = some r → d = w.disk) ∧
      (answer = none → d.node? (fileAddress base key) = none ∧
        outcome ((toStore (ofRoot root)).has key) { w with disk := d } =
          (.ok false, { w with disk := d }) ∧
        ∀ a, a ≠ fileAddress base key → d.node? a = w.disk.node? a) ∧
      ∀ r d', r.key = key → r.isSpeculative = false → (ofRoot root).Lands r w.time d d' →
        outcome ((toStore (ofRoot root)).write r) { w with disk := d } =
          (.ok (), { w with disk := d' }) ∧
        outcome ((toStore (ofRoot root)).get key) { w with disk := d' } =
          (.ok (some r), { w with disk := d' }) := by
  have written : ∀ {d : Disk}, d.Hosts root base → ∀ r d', r.key = key → r.isSpeculative = false →
      (ofRoot root).Lands r w.time d d' →
        outcome ((toStore (ofRoot root)).write r) { w with disk := d } =
          (.ok (), { w with disk := d' }) ∧
        outcome ((toStore (ofRoot root)).get key) { w with disk := d' } =
          (.ok (some r), { w with disk := d' }) := by
    rintro d hosts r d' rfl certain lands
    obtain ⟨hosts', intact⟩ := intact_of_lands hosts lands
    have wrote := @write_lands { w with disk := d } r _ d' certain lands
    have read := @get_intact root base { w with disk := d' } r.key r hosts' intact
    exact ⟨by rw [toStore, Script.outcome_lift, wrote], by rw [toStore, Script.outcome_lift, read]⟩
  by_cases intact : ∃ r, Intact base w.disk key r
  · obtain ⟨r, intact⟩ := intact
    have found := get_intact hosts intact
    refine ⟨some r, w.disk, by rw [toStore, Script.outcome_lift, found], hosts, fun r' => ⟨?_, fun intact' => ?_⟩,
      fun _ _ => rfl, by simp, written hosts⟩
    · rintro ⟨⟩
      exact intact
    · have found' := get_intact hosts intact'
      rw [found] at found'
      exact congrArg Prod.fst found'
  · have damaged : ∀ r, ¬ Intact base w.disk key r := not_exists.1 intact
    obtain ⟨d, done, hosts', gone, others⟩ := get_damaged hosts bytes damaged
    have again := @get_vacant root base { w with disk := d } key hosts' gone
    refine ⟨none, d, by rw [toStore, Script.outcome_lift, done], hosts',
      fun r => ⟨by simp, fun here => absurd here (damaged r)⟩, by simp, fun _ => ⟨gone, ?_, others⟩,
      written hosts'⟩
    have missing : outcome ((toStore (ofRoot root)).get key) { w with disk := d } =
        (.ok none, { w with disk := d }) := by rw [toStore, Script.outcome_lift, again]
    rw [RecordStore.has, Script.outcome_bind_ok missing]
    rfl

/-- A class. -/
def sampleClass : Record := .klass { fqn := "A", classType := some .klass }

/-- A function with the identifier of the class. -/
def sampleFunction : Record := .function { fqn := "A" }

/-- The text of the function lies in the file of the class. -/
def Misfiled (d : Disk) : Prop :=
  ∃ id m, d.node? (fileAddress [[105]] sampleClass.key) =
    some (.file id (encode sampleFunction.encode) m)

/-- A disk on which bytes lie in the place of one key, and nothing else but the directories that lead there. -/
theorem exists_alone (key : RecordKey) (bytes : Bytes) : ∃ d : Disk, d.Hosts ⟨[47, 105]⟩ [[105]] ∧
    (∃ id m, d.node? (fileAddress [[105]] key) = some (.file id bytes m)) ∧
    ∀ a, Disk.Below [[105]] a → a ≠ fileAddress [[105]] key →
      d.node? a = none ∨ OnTheWay [[105]] (directoryNames key) a ∧ ∃ m, d.node? a = some (.directory m) := by
  have bare : ∀ {a}, Disk.Below [[105]] a → (Disk.single [105]).node? a = none := Disk.single_bare
  obtain ⟨-, -, -, d, -, -, -, hosts, file, changed⟩ := exists_laid
    (@Disk.single_hosts [105] (by decide)) key bytes 0
    (fun a on => .inl (bare on.below))
    (fun m there => by cases (bare ⟨[_, _, _, _], by simp, rfl⟩).symm.trans there)
    (fun m there => by cases (bare ⟨[_, _, _, _], by simp, rfl⟩).symm.trans there)
  refine ⟨d, hosts, file, fun a below other => ?_⟩
  rcases changed a other with same | ⟨-, vacant⟩ | directory
  · exact .inl (same.trans (bare below))
  · exact .inl vacant
  · exact .inr directory

/-- A disk on which the text of the function lies in the place of the class. -/
theorem exists_misfiled : ∃ d : Disk, d.Hosts ⟨[47, 105]⟩ [[105]] ∧ Misfiled d ∧
    (∀ a, OnTheWay [[105]] (directoryNames sampleClass.key) a → ∃ m, d.node? a = some (.directory m)) ∧
    d.node? (draftName sampleClass.key :: addressOf [[105]] (directoryNames sampleClass.key)) = none := by
  obtain ⟨d, hosts, ⟨id, time, file⟩, alone⟩ := exists_alone sampleClass.key (encode sampleFunction.encode)
  obtain ⟨m₃, digit⟩ := hosts.sound.upward file
  obtain ⟨m₂, shard⟩ := hosts.sound.upward digit
  obtain ⟨m₁, home⟩ := hosts.sound.upward shard
  refine ⟨d, hosts, ⟨id, time, file⟩, fun a on => ?_, ?_⟩
  · rcases onTheWay_directoryNames.1 on with rfl | rfl | rfl
    · exact ⟨m₁, home⟩
    · exact ⟨m₂, shard⟩
    · exact ⟨m₃, digit⟩
  · have apart : draftName sampleClass.key :: addressOf [[105]] (directoryNames sampleClass.key) ≠
        fileAddress [[105]] sampleClass.key := fun same =>
      fileName_ne_draftName _ _ (List.cons.inj same).1.symm
    rcases alone _ ⟨[_, _, _, _], by simp, rfl⟩ apart with vacant | ⟨way, -⟩
    · exact vacant
    · exact absurd way (not_onTheWay_deep (by simp))

/-- The function is not taken for the class. It is removed, and the class that is written next is what is
found. -/
theorem sample_misfiled_heals :
    ∃ d, d.Hosts ⟨[47, 105]⟩ [[105]] ∧ Misfiled d ∧
      (∀ m, d.node? (fileAddress [[105]] sampleClass.key) ≠ some (.directory m)) ∧
      ∃ d₁ d₂, outcome ((toStore (ofRoot ⟨[47, 105]⟩)).get sampleClass.key) ⟨d, {}, 0⟩ =
          (.ok none, ⟨d₁, {}, 0⟩) ∧
        d₁.node? (fileAddress [[105]] sampleClass.key) = none ∧
        outcome ((toStore (ofRoot ⟨[47, 105]⟩)).write sampleClass) ⟨d₁, {}, 0⟩ =
          (.ok (), ⟨d₂, {}, 0⟩) ∧
        outcome ((toStore (ofRoot ⟨[47, 105]⟩)).get sampleClass.key) ⟨d₂, {}, 0⟩ =
          (.ok (some sampleClass), ⟨d₂, {}, 0⟩) := by
  obtain ⟨d, hosts, ⟨id, m, file⟩, way, draft⟩ := exists_misfiled
  have bytes : ∀ m, d.node? (fileAddress [[105]] sampleClass.key) ≠ some (.directory m) := by simp [file]
  obtain ⟨answer, d₁, done, hosts₁, found, -, healed, written⟩ :=
    @get_heals _ _ ⟨d, {}, 0⟩ sampleClass.key hosts bytes
  have missed : answer = none := by
    cases answer with
    | none => rfl
    | some r =>
        obtain ⟨id', c, m', file', decoded, keyed⟩ := (found r).1 rfl
        rw [file] at file'
        cases file'
        rw [Text.decode?_encode, Option.bind_some, Record.decode_encode] at decoded
        cases decoded
        cases keyed
  subst missed
  obtain ⟨gone, -, others⟩ := healed rfl
  have free : ∀ a, OnTheWay [[105]] (directoryNames sampleClass.key) a →
      d₁.node? a = none ∨ ∃ m, d₁.node? a = some (.directory m) := by
    intro a on
    obtain ⟨m, directory⟩ := way a on
    refine .inr ⟨m, (others a (ne_of_length ?_)).trans directory⟩
    rcases onTheWay_directoryNames.1 on with rfl | rfl | rfl <;> simp [fileAddress]
  have draft₁ : d₁.node? (draftName sampleClass.key ::
      addressOf [[105]] (directoryNames sampleClass.key)) = none := by
    rw [others, draft]
    exact fun same => fileName_ne_draftName _ _ (List.cons.inj same).1.symm
  obtain ⟨d₂, lands, -⟩ := exists_lands hosts₁ sampleClass 0 free (by simp [draft₁]) (by simp [gone])
  obtain ⟨wrote, read⟩ := written _ d₂ rfl rfl lands
  exact ⟨d, hosts, ⟨id, m, file⟩, bytes, d₁, d₂, done, gone, wrote, read⟩

end FileStore

end SymbolIndex
