import SymbolIndex.Proofs.Ordered.Map
import SymbolIndex.Proofs.Search.Catalog
import SymbolIndex.Proofs.Search.Condition
import SymbolIndex.Proofs.Store.FileNames
import SymbolIndex.Proofs.System.Files
import SymbolIndex.Proofs.System.Run
import SymbolIndex.Search.FileIndex

/-!
# Proofs.Search.FileIndex — a file of lines stands for a catalog

A file index stands for the catalog that its entries come to once its queue is applied
(`FileIndex.Stands`), so it is no matter when that is done. Each operation on the index is the same
operation on the catalog (`Stands.write`, `Stands.remove`, ...), and a search answers the entries
that the criteria accepts, in the order of their keys (`Stands.search`).

What an operation changes outside of the index is the file and the draft that takes its place
(`FileIndex.Apart`).
-/

namespace SymbolIndex

open Action (outcome)
open SymbolIndex.Text (Bytes encode)
open Disk (Hosts Fit Below addressOf)

set_option autoImplicit false

namespace FileIndex

/-! ## The file and its draft -/

/-- The name of the file, in bytes. -/
def filePart : Name := encode fileName

/-- The name of the draft, in bytes. -/
def draftPart : Name := encode "search.jsonl.tmp"

theorem fit_parts : Fit ([] ++ [filePart]) ∧ Fit ([] ++ [draftPart]) := by decide +kernel

theorem fit_file : Fit ([] ++ [filePart]) := fit_parts.1

theorem fit_draft : Fit ([] ++ [draftPart]) := fit_parts.2

theorem draftPart_ne : draftPart ≠ filePart := SymbolIndex.Text.encode_ne (by decide)

variable {root : Path} {base : Address} {d d' : Disk}

theorem draftPath_below (root : Path) :
    draftPath (root.child fileName) = root.below ([] ++ [draftPart]) := by
  obtain ⟨parts, unslashed⟩ : draftPart = filePart ++ encode ".tmp" ∧ slash ∉ filePart ++ encode ".tmp" := by
    decide +kernel
  show (⟨(root.join filePart).bytes ++ encode ".tmp"⟩ : Path) = root.join draftPart
  rw [parts, Path.join_append unslashed]

/-- Two disks agree apart from the file and its draft. -/
def Apart (base : Address) (d d' : Disk) : Prop :=
  ∀ a, a ≠ filePart :: base → a ≠ draftPart :: base → d'.node? a = d.node? a

theorem Apart.refl (base : Address) (d : Disk) : Apart base d d := fun _ _ _ => rfl

theorem Apart.trans {d₁ d₂ d₃ : Disk} (first : Apart base d₁ d₂) (second : Apart base d₂ d₃) :
    Apart base d₁ d₃ := fun a file draft => (second a file draft).trans (first a file draft)

/-- A disk on which the file can be written. -/
structure Writable (root : Path) (base : Address) (d : Disk) : Prop where
  hosts : d.Hosts root base
  file : ∀ m, d.node? (filePart :: base) ≠ some (.directory m)
  draft : ∀ m, d.node? (draftPart :: base) ≠ some (.directory m)

theorem Writable.of_effect {id : Nat} {c : Bytes} {time : Int} (hosts : d'.Hosts root base)
    (effect : ∀ a, d'.node? a = if a = filePart :: base then some (.file id c time)
      else if a = draftPart :: base then none else d.node? a) :
    Writable root base d' ∧ Apart base d d' := by
  have other : draftPart :: base ≠ filePart :: base := fun same =>
    draftPart_ne (List.cons.inj same).1
  refine ⟨⟨hosts, fun m => ?_, fun m => ?_⟩, fun a file draft => ?_⟩
  · rw [effect, if_pos rfl]
    exact fun same => by cases same
  · rw [effect, if_neg other, if_pos rfl]
    exact fun same => by cases same
  · rw [effect, if_neg file, if_neg draft]

/-! ## Writing the file -/

section Persist

variable {i : FileIndex} {w : World}

/-- The file holds some bytes in place of what it held, and the draft is gone. -/
def Replaced (base : Address) (content : Bytes) (d d' : Disk) : Prop :=
  ∃ id time, ∀ a, d'.node? a = if a = filePart :: base then some (.file id content time)
    else if a = draftPart :: base then none else d.node? a

/-- Every entry is written to the file. -/
theorem persist_replaces (path : i.path = root.child fileName) (writable : Writable root base w.disk) :
    ∃ d, outcome persist i w = (.ok (), i, { w with disk := d }) ∧ d.Hosts root base ∧
      Replaced base (contentOf i.entries) w.disk d := by
  have draft : draftPath i.path = root.below ([] ++ [draftPart]) := by
    rw [path]
    exact draftPath_below root
  have file : i.path = root.below ([] ++ [filePart]) := path
  rw [persist, Action.outcome_bind_ok (Action.outcome_get i w), draft]
  by_cases nothing : i.entries.isEmpty = true
  · obtain ⟨m, parent⟩ := writable.hosts.directory
    obtain ⟨id, d₁, d₂, time, opened, renamed, hosts, effect⟩ :=
      @Hosts.replace_empty w.disk root base [] filePart m writable.hosts _ fit_draft fit_file parent
        writable.draft writable.file draftPart_ne w.time
    have created : outcome (Action.ask SearchError.io (.create (root.below ([] ++ [draftPart])))) i w =
        (.ok id, i, { w with disk := d₁ }) := by
      rw [Action.outcome_ask, Call.perform, opened]
      rfl
    have moved : outcome (Action.ask SearchError.io (.rename (root.below ([] ++ [draftPart])) i.path)) i
        { w with disk := d₁ } = (.ok (), i, { w with disk := d₂ }) := by
      rw [Action.outcome_ask, Call.perform, file, renamed]
      rfl
    have bare : contentOf i.entries = [] := by
      rw [SortedMap.isEmpty_iff.1 nothing]
      rfl
    refine ⟨d₂, ?_, hosts, id, time, by rwa [bare]⟩
    rw [Action.outcome_bind_ok created]
    simp only [nothing, Bool.not_true, Bool.false_eq_true, if_false]
    exact moved
  · obtain ⟨m, parent⟩ := writable.hosts.directory
    obtain ⟨id, d₁, d₂, time, opened, renamed, hosts, effect⟩ :=
      @Hosts.replace w.disk root base [] filePart m writable.hosts _ fit_draft fit_file parent
        writable.draft writable.file draftPart_ne w.time (contentOf i.entries)
    have created : outcome (Action.ask SearchError.io (.create (root.below ([] ++ [draftPart])))) i w =
        (.ok id, i, { w with disk := d₁ }) := by
      rw [Action.outcome_ask, Call.perform, opened]
      rfl
    have appended : outcome (Action.ask SearchError.io (.append id (contentOf i.entries))) i
        { w with disk := d₁ } =
          (.ok (), i, { w with disk := d₁.append w.time id (contentOf i.entries) }) := by
      rw [Action.outcome_ask]
      rfl
    have moved : outcome (Action.ask SearchError.io (.rename (root.below ([] ++ [draftPart])) i.path)) i
        { w with disk := d₁.append w.time id (contentOf i.entries) } =
          (.ok (), i, { w with disk := d₂ }) := by
      rw [Action.outcome_ask, Call.perform, file, renamed]
      rfl
    refine ⟨d₂, ?_, hosts, id, time, effect⟩
    rw [Action.outcome_bind_ok created]
    simp only [nothing, Bool.not_false, if_true]
    rw [Action.outcome_bind_ok appended]
    exact moved

theorem persist_outcome (path : i.path = root.child fileName) (writable : Writable root base w.disk) :
    ∃ d, outcome persist i w = (.ok (), i, { w with disk := d }) ∧ Writable root base d ∧
      Apart base w.disk d := by
  obtain ⟨d, done, hosts, id, time, effect⟩ := persist_replaces path writable
  exact ⟨d, done, Writable.of_effect hosts effect⟩

end Persist

/-! ## The queue -/

section Queue

variable {c c' : Catalog} {i : FileIndex}

/-- Entries stand for a catalog. -/
def Lists (entries : Entries) (c : Catalog) : Prop := ∀ key, entries.get? key = c.get? key

theorem settle_enqueue (i : FileIndex) (change : PendingChange) :
    (i.enqueue change).settle.entries = change.apply i.settle.entries := by
  show (i.pending ++ [change]).foldl PendingChange.apply i.entries = _
  rw [List.foldl_append]
  rfl

theorem settle_of_empty (nothing : i.pending = []) : i.settle = i := by
  obtain ⟨path, entries, pending, batchSize, autoFlush⟩ := i
  obtain rfl : pending = [] := nothing
  rfl

theorem Lists.write {entries : Entries} (lists : Lists entries c) (e : SearchEntry) :
    Lists (PendingChange.apply entries (.write e)) (c.put e) := by
  intro key
  show (entries.insert e.key e).get? key = _
  rw [SortedMap.get?_insert, Catalog.get?_put, lists key]

theorem apply_remove_none {entries : Entries} {key : RecordKey} (missing : entries.get? key = none)
    (classType : Option ClassType) :
    PendingChange.apply entries (.remove key classType) = entries := by
  simp only [PendingChange.apply, missing]

theorem apply_remove_some {entries : Entries} {key : RecordKey} {e : SearchEntry}
    (there : entries.get? key = some e) (classType : Option ClassType) :
    PendingChange.apply entries (.remove key classType) =
      if e.classType = classType then entries.erase key else entries := by
  simp only [PendingChange.apply, there]

theorem get?_remove (entries : Entries) (key : RecordKey) (classType : Option ClassType)
    (k : RecordKey) : (PendingChange.apply entries (.remove key classType)).get? k =
      (entries.get? k).filter fun e => !(decide (k = key) && decide (e.classType = classType)) := by
  by_cases here : k = key
  · subst here
    cases there : entries.get? k with
    | none =>
        rw [apply_remove_none there, there]
        rfl
    | some e =>
        rw [apply_remove_some there, Option.filter_some]
        by_cases typed : e.classType = classType
        · rw [if_pos typed, SortedMap.get?_erase_self, if_neg (by simp [typed])]
        · rw [if_neg typed, there, if_pos (by simp [typed])]
  · have all_pass : (fun e : SearchEntry => !(decide (k = key) && decide (e.classType = classType))) =
        fun _ => true := by
      funext e
      rw [decide_eq_false here, Bool.false_and, Bool.not_false]
    have same : (entries.get? k).filter (fun _ => true) = entries.get? k := by
      cases entries.get? k <;> rfl
    rw [all_pass, same]
    cases there : entries.get? key with
    | none => rw [apply_remove_none there]
    | some e =>
        rw [apply_remove_some there]
        split
        · exact SortedMap.get?_erase_of_ne _ (Ne.symm here)
        · rfl

theorem Lists.remove {entries : Entries} (lists : Lists entries c) (key : RecordKey)
    (classType : Option ClassType) :
    Lists (PendingChange.apply entries (.remove key classType)) (c.drop key classType) := by
  intro k
  rw [get?_remove, lists k, Catalog.drop, Catalog.get?_filter]
  cases there : c.get? k with
  | none => rfl
  | some e => rw [Option.filter_some, Option.filter_some, Catalog.key_of_get? there]

theorem Lists.filter {entries : Entries} (lists : Lists entries c) (p : SearchEntry → Bool) :
    Lists (entries.filter fun _ e => p e) (c.filter p) := by
  intro key
  rw [SortedMap.get?_filter, lists key, Catalog.get?_filter]

/-- The entries in the order of their keys are the entries of the catalog in another order. -/
theorem Lists.values {entries : Entries} (lists : Lists entries c) :
    entries.values.Perm c.entries ∧ entries.values.Pairwise (fun e f => e.key < f.key) := by
  have keyed : ∀ key e, entries.get? key = some e → e.key = key := fun key e found =>
    Catalog.key_of_get? ((lists key).symm.trans found)
  refine ⟨?_, ?_⟩
  · refine (List.perm_ext_iff_of_nodup (SortedMap.nodup_values keyed).of_map c.distinct.of_map).2
      fun e => ?_
    rw [SortedMap.mem_values, Catalog.mem_iff]
    constructor
    · rintro ⟨key, found⟩
      rw [keyed key e found, ← lists key]
      exact found
    · exact fun found => ⟨e.key, (lists e.key).trans found⟩
  · unfold SortedMap.values
    rw [List.pairwise_map]
    refine entries.ascending.imp_of_mem fun {a b} here there before => ?_
    rw [keyed a.1 a.2 (SortedMap.mem_toList.1 here), keyed b.1 b.2 (SortedMap.mem_toList.1 there)]
    exact before

end Queue

/-! ## Operations -/

/-- An index stands for a catalog: its entries do once the queue is applied, and its file can be
written. -/
structure Stands (root : Path) (base : Address) (c : Catalog) (i : FileIndex) (w : World) : Prop where
  path : i.path = root.child fileName
  writable : Writable root base w.disk
  lists : Lists i.settle.entries c

namespace Stands

variable {c : Catalog} {i : FileIndex} {w : World}

theorem congr (stands : Stands root base c i w) {w' : World} (writable : Writable root base w'.disk) :
    Stands root base c i w' :=
  ⟨stands.path, writable, stands.lists⟩

/-- One more change waits. -/
theorem enqueue (stands : Stands root base c i w) {change : PendingChange} {c' : Catalog}
    (changed : Lists (change.apply i.settle.entries) c') :
    Stands root base c' (i.enqueue change) w := by
  refine ⟨stands.path, stands.writable, ?_⟩
  rw [settle_enqueue]
  exact changed

theorem flush (stands : Stands root base c i w) :
    ∃ d, outcome FileIndex.flush i w = (.ok (), i.settle, { w with disk := d }) ∧
      Stands root base c i.settle { w with disk := d } ∧ Apart base w.disk d := by
  rw [FileIndex.flush, Action.outcome_bind_ok (Action.outcome_get i w)]
  by_cases nothing : i.pending.isEmpty = true
  · refine ⟨w.disk, ?_, ⟨stands.path, stands.writable, stands.lists⟩, .refl _ _⟩
    rw [if_pos nothing, settle_of_empty (List.isEmpty_iff.1 nothing)]
    rfl
  · obtain ⟨d, written, writable, apart⟩ :=
      @persist_outcome root base i.settle w stands.path stands.writable
    refine ⟨d, ?_, ⟨stands.path, writable, stands.lists⟩, apart⟩
    rw [if_neg nothing]
    exact (Action.outcome_bind_ok (Action.outcome_set i i.settle w)).trans written

theorem write (stands : Stands root base c i w) (r : Record) :
    ∃ i' d, outcome (FileIndex.write r) i w = (.ok (), i', { w with disk := d }) ∧
      Stands root base (c.write r) i' { w with disk := d } ∧ Apart base w.disk d := by
  rw [FileIndex.write, Catalog.write]
  cases SearchEntry.ofRecord? r with
  | none => exact ⟨i, w.disk, rfl, stands, .refl _ _⟩
  | some e =>
      have queued : Stands root base (c.put e) (i.enqueue (.write e)) w :=
        stands.enqueue (stands.lists.write e)
      show ∃ i' d, outcome (do
        modify (·.enqueue (.write e))
        let i ← get
        if i.autoFlush && i.isFull then FileIndex.flush) i w = _ ∧ _
      rw [Action.outcome_bind_ok (Action.outcome_modify _ _ _),
        Action.outcome_bind_ok (Action.outcome_get _ _)]
      by_cases full : ((i.enqueue (.write e)).autoFlush && (i.enqueue (.write e)).isFull) = true
      · obtain ⟨d, flushed, stands', apart⟩ := queued.flush
        refine ⟨_, d, ?_, stands', apart⟩
        rw [if_pos full]
        exact flushed
      · refine ⟨_, w.disk, ?_, queued, .refl _ _⟩
        rw [if_neg full]
        rfl

theorem remove (stands : Stands root base c i w) (r : Record) :
    outcome (FileIndex.remove r) i w = (.ok (), i.enqueue (.remove r.key r.classType?), w) ∧
      Stands root base (c.remove r) (i.enqueue (.remove r.key r.classType?)) w :=
  ⟨rfl, stands.enqueue (stands.lists.remove r.key r.classType?)⟩

theorem reset (stands : Stands root base c i w) :
    ∃ i' d, outcome FileIndex.reset i w = (.ok (), i', { w with disk := d }) ∧
      Stands root base c.reset i' { w with disk := d } ∧ i'.pending = [] ∧ Apart base w.disk d := by
  obtain ⟨d, flushed, stands₁, apart⟩ := stands.flush
  let i' : FileIndex := { i.settle with
    entries := i.settle.entries.filter (fun _ e => e.recordType != .klass) }
  obtain ⟨d', written, writable, apart'⟩ :=
    @persist_outcome root base i' { w with disk := d } stands₁.path stands₁.writable
  have lists : Lists i'.settle.entries c.reset := stands₁.lists.filter (·.recordType != .klass)
  refine ⟨i', d', ?_, ⟨stands₁.path, writable, lists⟩, rfl, apart.trans apart'⟩
  rw [FileIndex.reset, Action.outcome_bind_ok flushed]
  exact (Action.outcome_bind_ok (Action.outcome_modify _ _ _)).trans written

theorem setAutoFlush (stands : Stands root base c i w) (enabled : Bool) :
    Stands root base c (i.setAutoFlush enabled) w :=
  ⟨stands.path, stands.writable, stands.lists⟩

/-- A search answers the entries of the catalog that the criteria accepts, in the order of their
keys. -/
theorem search (stands : Stands root base c i w) (criteria : Criteria) :
    ∃ (found : List SearchEntry) (d : Disk), outcome (FileIndex.search criteria) i w =
        (.ok (found.map .ok), i.settle, { w with disk := d }) ∧
      found.Perm (c.entries.filter criteria.accepts) ∧
      found.Pairwise (fun e f => e.key < f.key) ∧
      Stands root base c i.settle { w with disk := d } ∧ Apart base w.disk d := by
  obtain ⟨d, flushed, stands', apart⟩ := stands.flush
  obtain ⟨same, ascending⟩ := stands'.lists.values
  refine ⟨i.settle.entries.values.filter criteria.accepts, d, ?_, same.filter _,
    ascending.filter _, stands', apart⟩
  have narrowed : (i.settle.entries.values.filter fun e => criteria.admits e && criteria.accepts e) =
      i.settle.entries.values.filter criteria.accepts := by
    refine List.filter_congr fun e _ => ?_
    cases accepted : criteria.accepts e with
    | false => exact Bool.and_false _
    | true => rw [Criteria.admits_of_accepts accepted, Bool.and_true]
  rw [FileIndex.search, Action.outcome_bind_ok flushed,
    Action.outcome_bind_ok (Action.outcome_get _ _), Action.outcome_pure, narrowed]

end Stands

/-- A new index, in a directory where its file is missing. -/
theorem open_outcome {w : World} (writable : Writable root base w.disk)
    (missing : w.disk.node? (filePart :: base) = none) (batchSize : Nat) :
    Script.outcome (FileIndex.open root batchSize) w =
        (.ok ⟨root.child fileName, .empty, [], max batchSize 1, true⟩, w) ∧
      Stands root base .empty ⟨root.child fileName, .empty, [], max batchSize 1, true⟩ w := by
  have created : Script.run (Script.ask (.createDirectories root)) w = (.ok (), w) :=
    Script.run_createDirectories writable.hosts.createDirectories_self
  obtain ⟨m, parent⟩ := writable.hosts.directory
  have absent : w.disk.read (root.child fileName) = .error .notFound :=
    @Hosts.read_vacant _ _ _ [] filePart m writable.hosts fit_file parent missing
  refine ⟨?_, rfl, writable, fun _ => rfl⟩
  have made : Script.outcome (ExceptT.lift (Script.ask (.createDirectories root)) :
      ExceptT SearchError Script _) w = (.ok (.ok ()), w) := by
    rw [Script.outcome_lift, created]
  have looked : Script.outcome (ExceptT.lift (Script.ask (.read (root.child fileName))) :
      ExceptT SearchError Script _) w = (.ok (.error .notFound), w) := by
    rw [Script.outcome_lift, Script.run_ask, Call.perform, absent]
  rw [FileIndex.open, Script.outcome_bind_ok made, Script.outcome_bind_ok looked]
  rfl

end FileIndex

end SymbolIndex
