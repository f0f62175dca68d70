import SymbolIndex.Proofs.Ordered.Map
import SymbolIndex.Proofs.System.Run
import SymbolIndex.Store.Backend

/-!
# Proofs.Store.Ledger — what a record store stands for

A ledger is a map from keys to records and the time of the last build, zero if there was none. Its
operations are those of a record store, each in one line:

* `write` puts a record at its key, and a class without a type nowhere;
* `remove` takes one key, `reset` everything;
* `sweep` takes the records whose URI is not to be kept.

`RecordStore.Keeps` says that a store answers as a ledger does. It is stated for one store, one
collection of identifiers and one relation between ledgers and worlds; `Keeps.run` carries it from
single operations to every sequence of them.
-/

namespace SymbolIndex

open Script (outcome)

set_option autoImplicit false

/-- A map from keys to records, and the time of the last build. -/
structure Ledger where
  records : SortedMap RecordKey Record
  builtAt : Int64

namespace Ledger

/-- Nothing stored, nothing built. -/
def empty : Ledger := ⟨.empty, 0⟩

/-- The record of a key. -/
def get? (l : Ledger) (key : RecordKey) : Option Record := l.records.get? key

/-- Put a record at its key. A class without a type is ignored. -/
def write (l : Ledger) (r : Record) : Ledger :=
  if r.isSpeculative then l else { l with records := l.records.insert r.key r }

/-- Put several records at their keys. -/
def writeAll (l : Ledger) (rs : List Record) : Ledger := rs.foldl write l

/-- Take the record of a key. -/
def remove (l : Ledger) (key : RecordKey) : Ledger := { l with records := l.records.erase key }

/-- Set the time of the last build. -/
def markUpdated (l : Ledger) (time : Int64) : Ledger := { l with builtAt := time }

/-- Whether the file at a path was indexed at the given time or later. -/
def isFresh (l : Ledger) (path : String) (mtime : Int64) : Bool :=
  match l.get? (.ofFile path) with
  | some (.file file) => file.isFreshAt mtime
  | _ => false

/-- Whether a record hangs on a URI that is not to be kept. -/
def isOrphan (keep : String → Bool) (r : Record) : Bool :=
  match r.sourceUri? with
  | some uri => !keep uri
  | none => false

/-- Whether a record hangs on a URI. -/
def isPlaced (r : Record) : Bool := r.sourceUri?.isSome

/-- The records that hang on a URI that is not to be kept. -/
def orphans (l : Ledger) (keep : String → Bool) : List Record :=
  l.records.values.filter (isOrphan keep)

/-- Take the records that hang on a URI that is not to be kept. -/
def sweep (l : Ledger) (keep : String → Bool) : Ledger :=
  { l with records := l.records.filter (fun _ r => !isOrphan keep r) }

/-- Each record stands at its own key. -/
def Keyed (l : Ledger) : Prop := ∀ key r, l.get? key = some r → r.key = key

theorem ext {l l' : Ledger} (records : ∀ key, l.get? key = l'.get? key)
    (time : l.builtAt = l'.builtAt) : l = l' := by
  obtain ⟨m, t⟩ := l
  obtain ⟨m', t'⟩ := l'
  have same : m = m' := SortedMap.ext_get? records
  rw [same, show t = t' from time]

theorem write_speculative {l : Ledger} {r : Record} (speculative : r.isSpeculative = true) :
    l.write r = l := by
  rw [write, if_pos speculative]

theorem get?_write {l : Ledger} {r : Record} (firm : r.isSpeculative = false) (key : RecordKey) :
    (l.write r).get? key = if r.key = key then some r else l.get? key := by
  rw [write, if_neg (by simp [firm])]
  exact SortedMap.get?_insert _ _ _ _

@[simp] theorem builtAt_write (l : Ledger) (r : Record) : (l.write r).builtAt = l.builtAt := by
  rw [write]
  split <;> rfl

@[simp] theorem builtAt_writeAll (l : Ledger) (rs : List Record) :
    (l.writeAll rs).builtAt = l.builtAt := by
  induction rs generalizing l with
  | nil => rfl
  | cons r rs ih => exact (ih _).trans (builtAt_write l r)

/-- Records under keys of their own, put in their places. -/
theorem get?_writeAll {rs : List Record} (firm : ∀ r ∈ rs, r.isSpeculative = false)
    (distinct : (rs.map Record.key).Nodup) (l : Ledger) (key : RecordKey) :
    (l.writeAll rs).get? key = (rs.find? (fun r => r.key = key)).or (l.get? key) := by
  have records : (l.writeAll rs).records = rs.foldl (fun m r => m.insert r.key r) l.records := by
    clear distinct
    induction rs generalizing l with
    | nil => rfl
    | cons r rs ih =>
        have first : l.write r = { l with records := l.records.insert r.key r } := by
          rw [write, if_neg (by simp [firm r])]
        rw [writeAll, List.foldl_cons, List.foldl_cons, first]
        exact ih (fun r' member => firm r' (by simp [member])) _
  rw [get?, records]
  exact SortedMap.get?_foldl_insert distinct l.records key

theorem get?_remove (l : Ledger) (key key' : RecordKey) :
    (l.remove key).get? key' = if key = key' then none else l.get? key' :=
  SortedMap.get?_erase _ _ _

theorem get?_sweep (l : Ledger) (keep : String → Bool) (key : RecordKey) :
    (l.sweep keep).get? key = (l.get? key).filter (fun r => !isOrphan keep r) :=
  SortedMap.get?_filter _ _ _

@[simp] theorem get?_empty (key : RecordKey) : empty.get? key = none := rfl

@[simp] theorem get?_markUpdated (l : Ledger) (time : Int64) (key : RecordKey) :
    (l.markUpdated time).get? key = l.get? key := rfl

theorem mem_orphans {l : Ledger} (keyed : l.Keyed) {keep : String → Bool} {r : Record} :
    r ∈ l.orphans keep ↔ l.get? r.key = some r ∧ isOrphan keep r = true := by
  rw [orphans, List.mem_filter, SortedMap.mem_values]
  refine and_congr_left' ⟨?_, fun there => ⟨_, there⟩⟩
  rintro ⟨key, there⟩
  exact keyed key r there ▸ there

theorem nodup_orphans {l : Ledger} (keyed : l.Keyed) (keep : String → Bool) :
    ((l.orphans keep).map Record.key).Nodup :=
  (SortedMap.nodup_values keyed).sublist (List.filter_sublist.map _)

namespace Keyed

theorem empty : Ledger.empty.Keyed := fun _ _ there => by cases there

variable {l : Ledger}

theorem write (keyed : l.Keyed) (r : Record) : (l.write r).Keyed := by
  cases speculative : r.isSpeculative with
  | true => rwa [write_speculative speculative]
  | false =>
      intro key r' there
      rw [get?_write speculative] at there
      split at there
      next same => exact Option.some.inj there ▸ same
      · exact keyed key r' there

theorem remove (keyed : l.Keyed) (key : RecordKey) : (l.remove key).Keyed := by
  intro key' r there
  rw [get?_remove] at there
  split at there
  · cases there
  · exact keyed key' r there

end Keyed

/-! ### Removing several keys -/

theorem get?_removeAll (l : Ledger) (keys : List RecordKey) (key : RecordKey) :
    (keys.foldl remove l).get? key = if key ∈ keys then none else l.get? key := by
  induction keys generalizing l with
  | nil => simp
  | cons first rest ih =>
      rw [List.foldl_cons, ih, get?_remove]
      by_cases same : first = key
      · simp [same]
      · simp [same, Ne.symm same]

theorem builtAt_removeAll (l : Ledger) (keys : List RecordKey) :
    (keys.foldl remove l).builtAt = l.builtAt := by
  induction keys generalizing l with
  | nil => rfl
  | cons first rest ih => exact ih _

/-- Without some records, by their keys. -/
def without (l : Ledger) (removed : List Record) : Ledger := (removed.map Record.key).foldl remove l

theorem get?_without (l : Ledger) (removed : List Record) (key : RecordKey) :
    (l.without removed).get? key = if key ∈ removed.map Record.key then none else l.get? key :=
  get?_removeAll l _ key

theorem filterMap_remove {l : Ledger} {key : RecordKey} {keys : List RecordKey} (fresh : key ∉ keys) :
    keys.filterMap (l.remove key).get? = keys.filterMap l.get? := by
  refine List.filterMap_congr fun k member => ?_
  rw [get?_remove, if_neg]
  rintro rfl
  exact fresh member

/-- Removing the orphans by their keys is a sweep. -/
theorem removeAll_orphans {l : Ledger} {keep : String → Bool} {keys : List RecordKey} (keyed : l.Keyed)
    (distinct : keys.Nodup)
    (orphaned : ∀ key, key ∈ keys ↔ ∃ r, l.get? key = some r ∧ isOrphan keep r = true) :
    (keys.filterMap l.get?).Perm (l.orphans keep) ∧ keys.foldl remove l = l.sweep keep := by
  constructor
  · have keysOf : (keys.filterMap l.get?).map Record.key = keys := by
      rw [List.map_filterMap]
      refine List.filterMap_eq_map_iff_forall_eq_some.2 (fun key member => ?_) |>.trans (List.map_id _)
      obtain ⟨r, found, -⟩ := (orphaned key).1 member
      rw [found, Option.map_some, keyed key r found]
      rfl
    have nodup : (keys.filterMap l.get?).Nodup := .of_map Record.key (by rwa [keysOf])
    refine (List.perm_ext_iff_of_nodup nodup (.of_map _ (nodup_orphans keyed keep))).2 fun r => ?_
    rw [List.mem_filterMap, mem_orphans keyed]
    constructor
    · rintro ⟨key, member, found⟩
      obtain ⟨r', found', orphan⟩ := (orphaned key).1 member
      obtain rfl : r = r' := Option.some.inj (found.symm.trans found')
      exact ⟨keyed key r found ▸ found, orphan⟩
    · rintro ⟨found, orphan⟩
      exact ⟨r.key, (orphaned r.key).2 ⟨r, found, orphan⟩, found⟩
  · refine ext (fun key => ?_) (builtAt_removeAll l keys)
    rw [get?_removeAll, get?_sweep]
    split
    next member =>
      obtain ⟨r, found, orphan⟩ := (orphaned key).1 member
      rw [found, Option.filter_some, orphan]
      rfl
    next missing =>
      cases found : l.get? key with
      | none => rfl
      | some r =>
          have kept : isOrphan keep r = false := by
            by_contra orphan
            exact missing ((orphaned key).2 ⟨r, found, by simpa using orphan⟩)
          rw [Option.filter_some, kept]
          rfl

theorem isOrphan_iff {keep : String → Bool} {r : Record} :
    isOrphan keep r = true ↔ ∃ uri, r.sourceUri? = some uri ∧ keep uri = false := by
  rw [isOrphan]
  cases r.sourceUri? <;> simp

end Ledger

/-! ## Which keys and records a store is asked about -/

/-- The identifier of a file is the URI its path is known by. -/
def RecordKey.Normal (key : RecordKey) : Prop :=
  key.recordType = .file → Uri.normalize key.identifier = key.identifier

/-- A member has a name. -/
def Record.Named : Record → Prop
  | .member m => m.memberName ≠ ""
  | _ => True

instance (key : RecordKey) : Decidable key.Normal := inferInstanceAs (Decidable (_ → _))

instance (r : Record) : Decidable r.Named := by
  cases r <;> unfold Record.Named <;> infer_instance

/-- A key under which every kind of store finds what was written: it is normal, and that of a member
names one. -/
structure RecordKey.Legible (key : RecordKey) : Prop where
  normal : key.Normal
  parsed : key.recordType = .member → ∃ m, MemberRecord.ofIdentifier key.identifier = .ok m

theorem RecordKey.Legible.of_searchable {key : RecordKey}
    (searchable : key.recordType.isSearchable = true) : key.Legible where
  normal file := by
    rw [file] at searchable
    cases searchable
  parsed member := by
    rw [member] at searchable
    cases searchable

/-- A normal key with one of some identifiers. -/
structure RecordKey.Within (S : String → Prop) (key : RecordKey) : Prop where
  used : S key.identifier
  normal : key.Normal

/-- A named record with such a key. -/
structure Record.Within (S : String → Prop) (r : Record) : Prop where
  key : r.key.Within S
  named : r.Named

/-! ## Stores that keep a ledger -/

namespace RecordStore

/-- What a store answers is what a ledger answers, and asking changes nothing. -/
structure Answers (s : RecordStore) (S : String → Prop) (l : Ledger) (w : World) : Prop where
  get : ∀ key, key.Within S → outcome (s.get key) w = (.ok (l.get? key), w)
  has : ∀ key, key.Within S → outcome (s.has key) w = (.ok (l.get? key).isSome, w)
  isFresh : ∀ path mtime, S (Uri.normalize path) →
    outcome (s.isFresh path mtime) w = (.ok (l.isFresh path mtime), w)
  lastUpdate : outcome s.lastUpdate w = (.ok l.builtAt, w)
  «exists» : outcome s.exists w = (.ok (decide (0 < l.builtAt)), w)

/-- A store keeps a ledger: `I` relates the ledgers to the worlds that stand for them, each operation
succeeds, and leads to a world of the ledger that the operation leads to. -/
structure Keeps (s : RecordStore) (S : String → Prop) (I : Ledger → World → Prop) : Prop where
  keyed {l : Ledger} {w : World} : I l w → l.Keyed
  get {l : Ledger} {w : World} {key : RecordKey} : I l w → key.Within S →
    outcome (s.get key) w = (.ok (l.get? key), w)
  isFresh {l : Ledger} {w : World} {path : String} {mtime : Int64} : I l w →
    S (Uri.normalize path) → outcome (s.isFresh path mtime) w = (.ok (l.isFresh path mtime), w)
  lastUpdate {l : Ledger} {w : World} : I l w → outcome s.lastUpdate w = (.ok l.builtAt, w)
  write {l : Ledger} {w : World} {r : Record} : I l w → r.Within S →
    ∃ w', outcome (s.write r) w = (.ok (), w') ∧ I (l.write r) w'
  writeBatch {l : Ledger} {w : World} {rs : List Record} : I l w → (∀ r ∈ rs, r.Within S) →
    ∃ w', outcome (s.writeBatch rs) w = (.ok (), w') ∧ I (l.writeAll rs) w'
  remove {l : Ledger} {w : World} {key : RecordKey} : I l w → key.Within S →
    ∃ w', outcome (s.remove key) w = (.ok (), w') ∧ I (l.remove key) w'
  reset {l : Ledger} {w : World} : I l w → ∃ w', outcome s.reset w = (.ok (), w') ∧ I .empty w'
  markUpdated {l : Ledger} {w : World} {time : Int64} : I l w →
    ∃ w', outcome (s.markUpdated time) w = (.ok (), w') ∧ I (l.markUpdated time) w'
  flush {l : Ledger} {w : World} : I l w → outcome s.flush w = (.ok (), w)
  sweep {l : Ledger} {w : World} {keep : String → Bool} : I l w →
    ∃ report w', outcome (s.sweep fun uri => return keep uri) w = (.ok report, w') ∧
      report.removed.Perm (l.orphans keep) ∧ I (l.sweep keep) w'

theorem Keeps.answers {s : RecordStore} {S : String → Prop} {I : Ledger → World → Prop}
    {l : Ledger} {w : World} (keeps : s.Keeps S I) (stands : I l w) : s.Answers S l w where
  get key within := keeps.get stands within
  has key within := by
    rw [RecordStore.has, Script.outcome_bind_ok (keeps.get stands within)]
    rfl
  isFresh path mtime used := keeps.isFresh stands used
  lastUpdate := keeps.lastUpdate stands
  «exists» := by
    rw [RecordStore.exists, Script.outcome_bind_ok (keeps.lastUpdate stands)]
    rfl

end RecordStore

/-! ## Sequences of operations -/

/-- An operation that changes a record store. -/
inductive StoreCommand where
  | write (record : Record)
  | writeBatch (records : List Record)
  | remove (key : RecordKey)
  | reset
  | markUpdated (time : Int64)
  | sweep (keep : String → Bool)

namespace StoreCommand

/-- Whether an operation is about records and keys with some identifiers. -/
def Within (S : String → Prop) : StoreCommand → Prop
  | .write r => r.Within S
  | .writeBatch rs => ∀ r ∈ rs, r.Within S
  | .remove key => key.Within S
  | .reset | .markUpdated _ | .sweep _ => True

/-- Perform an operation on a store; the answer is the records that a sweep removed. -/
def perform (s : RecordStore) : StoreCommand → Stored (List Record)
  | .write r => do
    s.write r
    return []
  | .writeBatch rs => do
    s.writeBatch rs
    return []
  | .remove key => do
    s.remove key
    return []
  | .reset => do
    s.reset
    return []
  | .markUpdated time => do
    s.markUpdated time
    return []
  | .sweep keep => do
    let report ← s.sweep fun uri => return keep uri
    return report.removed

/-- Perform operations one after the other. -/
def performAll (s : RecordStore) : List StoreCommand → Stored (List (List Record))
  | [] => return []
  | c :: rest => do
    let removed ← c.perform s
    return removed :: (← performAll s rest)

end StoreCommand

namespace Ledger

/-- The ledger after an operation. -/
def apply (l : Ledger) : StoreCommand → Ledger
  | .write r => l.write r
  | .writeBatch rs => l.writeAll rs
  | .remove key => l.remove key
  | .reset => empty
  | .markUpdated time => l.markUpdated time
  | .sweep keep => l.sweep keep

/-- The records that an operation sweeps out. -/
def swept (l : Ledger) : StoreCommand → List Record
  | .sweep keep => l.orphans keep
  | _ => []

/-- The ledger after some operations. -/
def run (l : Ledger) (commands : List StoreCommand) : Ledger := commands.foldl apply l

/-- The records that each of some operations sweeps out. -/
def sweptAll (l : Ledger) : List StoreCommand → List (List Record)
  | [] => []
  | c :: rest => l.swept c :: (l.apply c).sweptAll rest

end Ledger

namespace RecordStore.Keeps

variable {s : RecordStore} {S : String → Prop} {I : Ledger → World → Prop}

theorem perform (keeps : s.Keeps S I) {l : Ledger} {w : World} (stands : I l w) {c : StoreCommand}
    (within : c.Within S) : ∃ removed w', outcome (c.perform s) w = (.ok removed, w') ∧
      removed.Perm (l.swept c) ∧ I (l.apply c) w' := by
  cases c with
  | write r =>
      obtain ⟨w', done, stands'⟩ := keeps.write stands within
      exact ⟨[], w', Script.outcome_bind_ok done, .nil, stands'⟩
  | writeBatch rs =>
      obtain ⟨w', done, stands'⟩ := keeps.writeBatch stands within
      exact ⟨[], w', Script.outcome_bind_ok done, .nil, stands'⟩
  | remove key =>
      obtain ⟨w', done, stands'⟩ := keeps.remove stands within
      exact ⟨[], w', Script.outcome_bind_ok done, .nil, stands'⟩
  | reset =>
      obtain ⟨w', done, stands'⟩ := keeps.reset stands
      exact ⟨[], w', Script.outcome_bind_ok done, .nil, stands'⟩
  | markUpdated time =>
      obtain ⟨w', done, stands'⟩ := keeps.markUpdated stands
      exact ⟨[], w', Script.outcome_bind_ok done, .nil, stands'⟩
  | sweep keep =>
      obtain ⟨report, w', done, same, stands'⟩ := keeps.sweep stands
      exact ⟨report.removed, w', Script.outcome_bind_ok done, same, stands'⟩

/-- Whatever is done to a store that keeps a ledger, it goes on to keep the ledger to which the same
is done. -/
theorem run (keeps : s.Keeps S I) {commands : List StoreCommand}
    (within : ∀ c ∈ commands, c.Within S) {l : Ledger} {w : World} (stands : I l w) :
    ∃ removed w', outcome (StoreCommand.performAll s commands) w = (.ok removed, w') ∧
      List.Forall₂ List.Perm removed (l.sweptAll commands) ∧ I (l.run commands) w' := by
  induction commands generalizing l w with
  | nil => exact ⟨[], w, rfl, .nil, stands⟩
  | cons c rest ih =>
      obtain ⟨removed, w', done, same, stands'⟩ := keeps.perform stands (within c (by simp))
      obtain ⟨more, w'', done', same', stands''⟩ := ih (fun c' member => within c' (by simp [member]))
        stands'
      refine ⟨removed :: more, w'', ?_, .cons same same', stands''⟩
      rw [StoreCommand.performAll, Script.outcome_bind_ok done, Script.outcome_bind_ok done']
      rfl

end RecordStore.Keeps

end SymbolIndex
