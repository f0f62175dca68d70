import SymbolIndex.Proofs.Search.Reopening
import SymbolIndex.Proofs.System.Changes
import SymbolIndex.Proofs.System.Faults

/-!
# Proofs.Search.Durable — when the file of an index holds what is in memory

The file is written beside the old one and takes its place as a whole, so that it can be read whatever fails: it holds
the entries as they were when it was last written (`FileIndex.goes_persist`). What fails is not made good, though. A
flush takes the queue into memory before it writes the file, and a flush of an empty queue writes nothing. So from an
operation that has failed on, the file is behind (`FileIndex.Course`), and stays so until something is written again.

An index whose flush has succeeded is durable if a change was waiting, or if the file was not behind
(`FileIndex.flush_durable`). Otherwise the flush has done nothing at all, and its success says nothing
(`FileIndex.lost_after_failure`).
-/

namespace SymbolIndex

open Action (outcome)
open SymbolIndex.Text (Bytes)
open Disk (Hosts addressOf)

set_option autoImplicit false

namespace FileIndex

variable {root : Path} {base : Address} {i i' : FileIndex} {w w' : World} {t : List Answered} {r : Except SearchError Unit}
  {behind : Bool}

/-! ## Writing the file -/

/-- The draft is empty when it is opened. -/
theorem draft_of_openFile {d d' : Disk} {now : Int} {id : Nat} (hosts : d.Hosts root base)
    (opened : d.openFile now true (root.below ([] ++ [draftPart])) = .ok (id, d')) :
    d'.Hosts root base ∧ ∃ time, ∀ a, d'.node? a = if a = draftPart :: base then some (.file id [] time) else d.node? a := by
  obtain ⟨front, name, m, parts, parent, leaf⟩ := hosts.target_of_openFile fit_draft opened
  obtain ⟨rfl, last⟩ := List.append_inj' parts rfl
  obtain rfl := (List.cons.inj last).1
  obtain ⟨id', c, time, d'', opened', hosts', rfl, effect⟩ := hosts.openFile_spec fit_draft now true parent leaf
  rw [opened'] at opened
  cases opened
  exact ⟨hosts', time, effect⟩

/-- The draft takes the place of the file. -/
theorem file_of_rename {d d' : Disk} {id : Nat} {c : Bytes} {time : Int} (hosts : d.Hosts root base)
    (draft : d.node? (draftPart :: base) = some (.file id c time))
    (renamed : d.rename (root.below ([] ++ [draftPart])) (root.below ([] ++ [filePart])) = .ok d') :
    d'.Hosts root base ∧ ∀ a, d'.node? a = if a = filePart :: base then some (.file id c time)
      else if a = draftPart :: base then none else d.node? a := by
  have apart : draftPart :: base ≠ filePart :: base := fun same => draftPart_ne (List.cons.inj same).1
  obtain ⟨front, name, m, parts, parent, leaf⟩ := hosts.target_of_rename fit_draft fit_file draft apart renamed
  obtain ⟨rfl, last⟩ := List.append_inj' parts rfl
  obtain rfl := (List.cons.inj last).1
  obtain ⟨d'', renamed', hosts', effect⟩ := hosts.rename_file fit_draft fit_file draft parent leaf apart
  rw [renamed'] at renamed
  cases renamed
  exact ⟨hosts', effect⟩

/-- The file holds a content in place of what it held, or there was an error and the file is as it was. -/
def Landed (base : Address) (content : Bytes) (r : Except SearchError Unit) (d d' : Disk) : Prop :=
  (r = .ok () ∧ Replaced base content d d') ∨
    (∃ e, r = .error e) ∧ d'.node? (filePart :: base) = d.node? (filePart :: base)

theorem filePart_ne (base : Address) : filePart :: base ≠ draftPart :: base := fun same =>
  draftPart_ne (List.cons.inj same).1.symm

/-- The draft takes the place of the file, with what is in it by then. -/
theorem goes_rename {d : Disk} {file : Nat} {content : Bytes} {time : Int} (hosts : w.disk.Hosts root base)
    (effect : ∀ a, w.disk.node? a = if a = draftPart :: base then some (.file file content time) else d.node? a)
    (goes : (Action.ask SearchError.io (.rename (root.below ([] ++ [draftPart])) (root.child fileName)) :
      Action FileIndex SearchError Unit).Goes i w t r i' w') :
    i' = i ∧ w'.disk.Hosts root base ∧ Landed base content r d w'.disk := by
  obtain ⟨rfl, answer, rfl, -, called⟩ := Action.goes_ask.1 goes
  obtain ⟨d', rfl, renamed, rfl⟩ | ⟨⟨e, rfl⟩, rfl⟩ := called.withDisk rfl fun _ => id
  · obtain ⟨hosts', effect'⟩ := file_of_rename hosts ((effect _).trans (if_pos rfl)) renamed
    refine ⟨rfl, hosts', .inl ⟨rfl, file, time, fun a => ?_⟩⟩
    rw [effect']
    split
    · rfl
    · split
      · rfl
      next other => rw [effect, if_neg other]
  · exact ⟨rfl, hosts, .inr ⟨⟨_, rfl⟩, (effect _).trans (if_neg (filePart_ne base))⟩⟩

/-- **The file is written as a whole or not at all**, whatever call fails. -/
theorem goes_persist (path : i.path = root.child fileName) (hosts : w.disk.Hosts root base)
    (goes : persist.Goes i w t r i' w') :
    i' = i ∧ w'.disk.Hosts root base ∧ Landed base (contentOf i.entries) r w.disk w'.disk := by
  replace goes := Action.goes_get_bind.1 goes
  rw [path, draftPath_below] at goes
  rcases Action.goes_ask_bind goes with ⟨e, rfl, rfl, called⟩ | ⟨file, w₁, t₁, called, rest⟩
  · obtain ⟨_, _, same, -⟩ | ⟨-, rfl⟩ := called.onDisk rfl fun _ => id
    · cases same
    · exact ⟨rfl, hosts, .inr ⟨⟨_, rfl⟩, rfl⟩⟩
  obtain ⟨_, d₁, same, opened, rfl⟩ | ⟨⟨_, same⟩, -⟩ := called.onDisk rfl fun _ => id
  all_goals cases same
  obtain ⟨hosts₁, time₁, effect₁⟩ := draft_of_openFile hosts opened
  by_cases nothing : i.entries.isEmpty = true
  · have bare : contentOf i.entries = [] := by
      rw [SortedMap.isEmpty_iff.1 nothing]
      rfl
    rw [nothing] at rest
    rw [bare]
    exact goes_rename hosts₁ effect₁ rest
  rw [Bool.not_eq_true] at nothing
  rw [nothing] at rest
  have here : d₁.node? (draftPart :: base) = some (.file file [] time₁) := (effect₁ _).trans (if_pos rfl)
  rcases Action.goes_ask_bind rest with ⟨e, rfl, rfl, called⟩ | ⟨_, w₂, t₂, called, rest⟩
  · obtain ⟨_, same, -⟩ | ⟨-, rfl⟩ := called.withDisk rfl fun _ => id
    · cases same
    · exact ⟨rfl, hosts₁, .inr ⟨⟨_, rfl⟩, (effect₁ _).trans (if_neg (filePart_ne base))⟩⟩
  obtain ⟨d₂, -, appended, rfl⟩ | ⟨⟨_, same⟩, -⟩ := called.withDisk rfl fun _ => id
  · cases appended
    obtain ⟨hosts₂, effect₂⟩ := hosts₁.append_file w.time (Disk.below_cons _ _) here (contentOf i.entries)
    have effect : ∀ a, (d₁.append w.time file (contentOf i.entries)).node? a =
        if a = draftPart :: base then some (.file file (contentOf i.entries) w.time) else w.disk.node? a := by
      intro a
      rw [effect₂]
      split
      · rfl
      next other => rw [effect₁, if_neg other]
    exact goes_rename hosts₂ effect rest
  · cases same

/-! ## Operations -/

/-- There was an error. -/
def failed {α : Type} : Except SearchError α → Bool
  | .ok _ => false
  | .error _ => true

/-- The file of an index can be read, and holds the entries in memory unless it is behind. -/
structure Tracks (root : Path) (base : Address) (behind : Bool) (i : FileIndex) (w : World) : Prop where
  path : i.path = root.child fileName
  hosts : w.disk.Hosts root base
  catalogued : ∃ c, Lists i.entries c
  opens : ∃ kept, loaded root w.disk = .ok kept ∧ (behind = false → kept = i.entries)

namespace Tracks

/-- The queue is not in the file. -/
theorem congr (tracks : Tracks root base behind i w) (path : i'.path = i.path) (entries : i'.entries = i.entries) :
    Tracks root base behind i' w :=
  ⟨path.trans tracks.path, tracks.hosts, entries ▸ tracks.catalogued, entries ▸ tracks.opens⟩

/-- To change the entries in memory is to leave the file behind. -/
theorem memory (tracks : Tracks root base behind i w) (path : i'.path = i.path) (catalogued : ∃ c, Lists i'.entries c) :
    Tracks root base true i' w := by
  obtain ⟨kept, opens, -⟩ := tracks.opens
  exact ⟨path.trans tracks.path, tracks.hosts, catalogued, kept, opens, nofun⟩

/-- A file that was written is not behind any more, and one that could not be written is. -/
theorem persist (tracks : Tracks root base behind i w) (goes : FileIndex.persist.Goes i w t r i' w') :
    i' = i ∧ Tracks root base (failed r) i w' := by
  obtain ⟨c, lists⟩ := tracks.catalogued
  obtain ⟨kept, opens, -⟩ := tracks.opens
  obtain ⟨rfl, hosts, ⟨rfl, replaced⟩ | ⟨⟨e, rfl⟩, same⟩⟩ := goes_persist tracks.path tracks.hosts goes
  · have written := replaced.loaded hosts fun key e found => Catalog.key_of_get? ((lists key).symm.trans found)
    exact ⟨rfl, tracks.path, hosts, ⟨c, lists⟩, _, written, fun _ => rfl⟩
  · exact ⟨rfl, tracks.path, hosts, ⟨c, lists⟩, kept, (loaded_congr tracks.hosts hosts same).trans opens, nofun⟩

end Tracks

theorem exists_lists_apply {entries : Entries} (catalogued : ∃ c, Lists entries c) (change : PendingChange) :
    ∃ c, Lists (change.apply entries) c := by
  obtain ⟨c, lists⟩ := catalogued
  cases change with
  | write e => exact ⟨_, lists.write e⟩
  | remove key classType => exact ⟨_, lists.remove key classType⟩

theorem exists_lists_settle {i : FileIndex} (catalogued : ∃ c, Lists i.entries c) : ∃ c, Lists i.settle.entries c := by
  show ∃ c, Lists (i.pending.foldl PendingChange.apply i.entries) c
  generalize i.entries = entries at catalogued
  induction i.pending generalizing entries with
  | nil => exact catalogued
  | cons change rest ih => exact ih _ (exists_lists_apply catalogued change)

/-- A flush with nothing to do does nothing; else the queue is in memory, whatever becomes of the file. -/
theorem Tracks.flush (tracks : Tracks root base behind i w) (goes : FileIndex.flush.Goes i w t r i' w') :
    (i.pending = [] ∧ t = [] ∧ r = .ok () ∧ i' = i ∧ w' = w) ∨
      i.pending ≠ [] ∧ i' = i.settle ∧ Tracks root base (failed r) i' w' := by
  replace goes := Action.goes_get_bind.1 goes
  split at goes
  next nothing =>
    obtain ⟨rfl, rfl, rfl, rfl⟩ := Action.goes_pure.1 goes
    exact .inl ⟨List.isEmpty_iff.1 nothing, rfl, rfl, rfl, rfl⟩
  next waiting =>
    have settled : Tracks root base true i.settle w := tracks.memory rfl (exists_lists_settle tracks.catalogued)
    obtain ⟨rfl, tracks'⟩ := settled.persist (Action.goes_set_bind.1 goes)
    exact .inr ⟨fun nothing => waiting (List.isEmpty_iff.2 nothing), rfl, tracks'⟩

end FileIndex

namespace SearchCommand

/-- An operation on an index in a file, without its answers. -/
def onFile : SearchCommand → Action FileIndex SearchError Unit
  | .write record => FileIndex.write record
  | .remove record => FileIndex.remove record
  | .flush => FileIndex.flush
  | .reset => FileIndex.reset
  | .setAutoFlush enabled => modify (·.setAutoFlush enabled)
  | .search criteria => do
    let _ ← FileIndex.search criteria
    return ()

/-- An operation writes the file. -/
def writesFile (i : FileIndex) : SearchCommand → Bool
  | .write record =>
    match SearchEntry.ofRecord? record with
    | some e => i.autoFlush && (i.enqueue (.write e)).isFull
    | none => false
  | .flush | .search _ => !i.pending.isEmpty
  | .reset => true
  | .remove _ | .setAutoFlush _ => false

/-- An operation hands over what waits: a flush, or a search, which begins with one. -/
def HandsOver : SearchCommand → Prop
  | .flush | .search _ => True
  | .write _ | .remove _ | .reset | .setAutoFlush _ => False

variable {root : Path} {base : Address} {i i' : FileIndex} {w w' : World} {t : List Answered} {r : Except SearchError Unit}
  {behind : Bool} {command : SearchCommand}

/-- A search is a flush, and then an answer from memory. -/
theorem flush_of_handsOver (hands : command.HandsOver) (goes : command.onFile.Goes i w t r i' w') :
    FileIndex.flush.Goes i w t r i' w' := by
  cases command with
  | flush => exact goes
  | search criteria =>
      obtain ⟨r₁, rfl, searched⟩ := Action.goes_bind_pure.1 goes
      rcases Action.goes_bind.1 searched with ⟨e, rfl, flushed⟩ | ⟨_, i₁, w₁, t₁, t₂, rfl, flushed, answered⟩
      · exact flushed
      · replace answered := Action.goes_get_bind.1 answered
        obtain ⟨rfl, rfl, rfl, rfl⟩ := Action.goes_pure.1 answered
        rwa [List.append_nil]
  | write _ | remove _ | reset | setAutoFlush _ => exact hands.elim

end SearchCommand

namespace FileIndex

open SearchCommand (onFile writesFile HandsOver)

variable {root : Path} {base : Address} {i i' : FileIndex} {w w' : World} {t : List Answered} {r : Except SearchError Unit}
  {behind : Bool} {command : SearchCommand}

theorem Tracks.handOver (tracks : Tracks root base behind i w) (writes : command.writesFile i = !i.pending.isEmpty)
    (goes : FileIndex.flush.Goes i w t r i' w') :
    Tracks root base (failed r || behind && !command.writesFile i) i' w' := by
  rcases tracks.flush goes with ⟨nothing, -, rfl, rfl, rfl⟩ | ⟨waiting, -, tracks'⟩
  · simpa [writes, nothing, failed] using tracks
  · have some_ : i.pending.isEmpty = false := by simpa using waiting
    simpa [writes, some_] using tracks'

/-- A write waits, or completes a batch, and then the file is written. -/
theorem Tracks.write (tracks : Tracks root base behind i w) {record : Record}
    (goes : (FileIndex.write record).Goes i w t r i' w') :
    Tracks root base (failed r || behind && !writesFile i (.write record)) i' w' := by
  rw [FileIndex.write] at goes
  rw [writesFile]
  cases projected : SearchEntry.ofRecord? record with
  | none =>
      rw [projected] at goes
      obtain ⟨-, rfl, rfl, rfl⟩ := Action.goes_pure.1 goes
      simpa [failed] using tracks
  | some e =>
      rw [projected] at goes
      replace goes := Action.goes_get_bind.1 (Action.goes_modify_bind.1 goes)
      have queued : Tracks root base behind (i.enqueue (.write e)) w := tracks.congr rfl rfl
      split at goes
      next full =>
        have full' : (i.autoFlush && (i.enqueue (.write e)).isFull) = true := full
        rcases queued.flush goes with ⟨nothing, -⟩ | ⟨-, -, tracks'⟩
        · exact absurd nothing (by simp [enqueue])
        · simpa [full'] using tracks'
      next short =>
        have short' : (i.autoFlush && (i.enqueue (.write e)).isFull) = false := Bool.not_eq_true _ ▸ short
        obtain ⟨-, rfl, rfl, rfl⟩ := Action.goes_pure.1 goes
        simpa [failed, short'] using queued

/-- A reset flushes, narrows what is in memory and writes the file. -/
theorem Tracks.reset (tracks : Tracks root base behind i w) (goes : FileIndex.reset.Goes i w t r i' w') :
    Tracks root base (failed r) i' w' := by
  rcases Action.goes_bind.1 goes with ⟨e, rfl, flushing⟩ | ⟨_, i₁, w₁, t₁, t₂, -, flushing, rest⟩
  · rcases tracks.flush flushing with ⟨-, -, same, -⟩ | ⟨-, -, tracks'⟩
    · cases same
    · exact tracks'
  · obtain ⟨_, tracks₁⟩ : ∃ behind, Tracks root base behind i₁ w₁ := by
      rcases tracks.flush flushing with ⟨-, -, -, rfl, rfl⟩ | ⟨-, -, tracks'⟩
      · exact ⟨_, tracks⟩
      · exact ⟨_, tracks'⟩
    obtain ⟨c, lists⟩ := tracks₁.catalogued
    let left : FileIndex := { i₁ with entries := i₁.entries.filter (fun _ e => e.recordType != .klass) }
    have narrowed : Tracks root base true left w₁ :=
      tracks₁.memory rfl ⟨_, lists.filter (·.recordType != .klass)⟩
    obtain ⟨rfl, tracks'⟩ := narrowed.persist (Action.goes_modify_bind.1 rest)
    exact tracks'

/-- **One operation.** The file is behind after an operation that has failed, and is not after one that has written it. -/
theorem Tracks.perform (tracks : Tracks root base behind i w) (goes : command.onFile.Goes i w t r i' w') :
    Tracks root base (failed r || behind && !command.writesFile i) i' w' := by
  cases command with
  | flush => exact tracks.handOver rfl goes
  | search criteria =>
      have hands : HandsOver (.search criteria) := trivial
      exact tracks.handOver rfl (SearchCommand.flush_of_handsOver hands goes)
  | setAutoFlush enabled =>
      obtain ⟨-, rfl, rfl, rfl⟩ := Action.goes_modify.1 goes
      have same : Tracks root base behind (i.setAutoFlush enabled) w' := tracks.congr rfl rfl
      simpa [failed, writesFile] using same
  | remove record =>
      obtain ⟨-, rfl, rfl, rfl⟩ := Action.goes_modify.1 goes
      have queued : Tracks root base behind (i.enqueue (.remove record.key record.classType?)) w' := tracks.congr rfl rfl
      simpa [failed, writesFile] using queued
  | write record => exact tracks.write goes
  | reset => simpa [writesFile] using tracks.reset goes

/-! ## Courses -/

/-- What can become of an index: it was opened, operations were performed on it in each of which calls may have failed,
and anything else may have happened in the meantime, to a draft that was left as well, but not to the file. The mark
says that the file is behind: an operation has failed, and none has written the file since. -/
inductive Course (root : Path) (base : Address) : FileIndex → World → Bool → Prop where
  | opened {batchSize : Nat} {w w' : World} {i : FileIndex}
      (opened : Script.outcome (FileIndex.open root batchSize) w = (.ok i, w')) (hosts : w'.disk.Hosts root base) :
      Course root base i w' false
  | performed {i i' : FileIndex} {w w' : World} {behind : Bool} {t : List Answered} {r : Except SearchError Unit}
      (course : Course root base i w behind) (command : SearchCommand) (goes : command.onFile.Goes i w t r i' w') :
      Course root base i' w' (failed r || behind && !command.writesFile i)
  | elsewhere {i : FileIndex} {w w' : World} {behind : Bool} (course : Course root base i w behind)
      (hosts : w'.disk.Hosts root base)
      (same : w'.disk.node? (filePart :: base) = w.disk.node? (filePart :: base)) : Course root base i w' behind

theorem Course.tracks (course : Course root base i w behind) : Tracks root base behind i w := by
  induction course with
  | opened opened hosts =>
      obtain ⟨path, -, kept, keyed⟩ := loaded_of_open opened
      exact ⟨path, hosts, exists_lists keyed, _, kept, fun _ => rfl⟩
  | performed _ _ goes ih => exact ih.perform goes
  | elsewhere _ hosts same ih =>
      obtain ⟨kept, opens, current⟩ := ih.opens
      exact ⟨ih.path, hosts, ih.catalogued, kept, (loaded_congr ih.hosts hosts same).trans opens, current⟩

/-- **A flush that has succeeded is durable, unless it had nothing to do since an operation failed.** Whatever has
failed before, an index can be opened after a flush, or a search, that succeeds. It has the entries that are in memory
if a change was waiting, or if the file was not behind. If nothing was waiting, no call was made, and nothing has
changed. -/
theorem flush_durable (course : Course root base i w behind) (hands : command.HandsOver)
    (goes : command.onFile.Goes i w t (.ok ()) i' w') :
    (∃ entries : Entries,
      (∀ n, Script.outcome (FileIndex.open root n) w' =
        (.ok ⟨root.child fileName, entries, [], max n 1, true⟩, w')) ∧
      (i.pending ≠ [] ∨ behind = false → entries = i'.entries)) ∧
    (i.pending = [] → t = [] ∧ i' = i ∧ w' = w) := by
  have tracks' := course.tracks.perform goes
  have writes : command.writesFile i = !i.pending.isEmpty := by cases command <;> first | rfl | exact hands.elim
  obtain ⟨entries, kept, current⟩ := tracks'.opens
  refine ⟨⟨entries, fun n => ?_, fun durable => current ?_⟩, fun nothing => ?_⟩
  · rw [open_loaded tracks'.hosts, kept]
    rfl
  · rw [writes]
    rcases durable with waiting | rfl
    · have some_ : i.pending.isEmpty = false := by simpa using waiting
      simp [failed, some_]
    · simp [failed]
  · rcases course.tracks.flush (SearchCommand.flush_of_handsOver hands goes) with ⟨-, none_, -, rfl, rfl⟩ | ⟨waiting, -⟩
    · exact ⟨none_, rfl, rfl⟩
    · exact absurd nothing waiting

/-! ## Poles -/

/-- A new index in `/i` to which a function was written. -/
def sampleWaiting : FileIndex := ⟨newRoot.child fileName, .empty, [.write ⟨.function, "f", none, 0⟩], 100, true⟩

theorem sampleWaiting_course : Course newRoot [[105]] sampleWaiting newIndex false := by
  have opened := (open_outcome newIndex_writable (newIndex_missing _) 100).1
  have written : outcome (FileIndex.write (.function ⟨"f", none⟩)) ⟨newRoot.child fileName, .empty, [], 100, true⟩
      newIndex = (.ok (), sampleWaiting, newIndex) := rfl
  obtain ⟨t, goes⟩ := Action.goes_of_outcome written
  exact .performed (.opened opened newIndex_fresh.hosts) (.write (.function ⟨"f", none⟩)) goes

/-- The first call of a flush may fail. The function is in memory then, and the file is still missing. -/
theorem sample_failed_course : Course newRoot [[105]] sampleWaiting.settle newIndex true := by
  have fault : (Call.create (draftPath sampleWaiting.settle.path)).Fault (.error .isDirectory) :=
    ⟨.isDirectory, by decide, rfl⟩
  have goes : FileIndex.flush.Goes sampleWaiting newIndex _ (.error (.io .isDirectory)) sampleWaiting.settle newIndex :=
    Action.goes_get_bind.2 (Action.goes_set_bind.2 (Action.goes_get_bind.2 (Action.goes_bind.2 (.inl
      ⟨_, rfl, Action.goes_ask.2 ⟨rfl, _, rfl, rfl, .failed fault⟩⟩))))
  exact .performed sampleWaiting_course .flush goes

/-- After a flush that has failed, another function is written, and the next flush succeeds. -/
theorem sample_flush_durable :
    ∃ i t i' w', Course newRoot [[105]] i newIndex true ∧ i.pending ≠ [] ∧
      SearchCommand.flush.onFile.Goes i newIndex t (.ok ()) i' w' ∧
      Script.outcome (FileIndex.open newRoot 7) w' = (.ok ⟨newRoot.child fileName, i'.entries, [], 7, true⟩, w') := by
  let i : FileIndex := sampleWaiting.settle.enqueue (.write ⟨.function, "g", none, 0⟩)
  have written : outcome (FileIndex.write (.function ⟨"g", none⟩)) sampleWaiting.settle newIndex =
      (.ok (), i, newIndex) := rfl
  obtain ⟨t, goes⟩ := Action.goes_of_outcome written
  have course : Course newRoot [[105]] i newIndex true :=
    .performed sample_failed_course (.write (.function ⟨"g", none⟩)) goes
  obtain ⟨c, lists⟩ := exists_lists_settle course.tracks.catalogued
  have stands : Stands newRoot [[105]] c i newIndex := ⟨rfl, newIndex_writable, lists⟩
  obtain ⟨d, flushed, -⟩ := stands.flush
  obtain ⟨t', goes'⟩ := Action.goes_of_outcome flushed
  have hands : HandsOver .flush := trivial
  obtain ⟨⟨entries, opens, current⟩, -⟩ := flush_durable course hands goes'
  have waiting : i.pending ≠ [] := nofun
  rw [current (.inl waiting)] at opens
  exact ⟨i, t', _, _, course, waiting, goes', opens 7⟩

/-- A function is written and its flush fails. The next flush succeeds, with the function in memory, and a new index does
not have it. -/
theorem lost_after_failure :
    ∃ t, Course newRoot [[105]] sampleWaiting.settle newIndex true ∧
      SearchCommand.flush.onFile.Goes sampleWaiting.settle newIndex t (.ok ()) sampleWaiting.settle newIndex ∧
      sampleWaiting.settle.entries.values = [⟨.function, "f", none, 0⟩] ∧
      Script.outcome (FileIndex.open newRoot 100) newIndex =
        (.ok ⟨newRoot.child fileName, .empty, [], 100, true⟩, newIndex) := by
  have idle : outcome FileIndex.flush sampleWaiting.settle newIndex = (.ok (), sampleWaiting.settle, newIndex) := rfl
  obtain ⟨t, goes⟩ := Action.goes_of_outcome idle
  exact ⟨t, sample_failed_course, goes, rfl, (open_outcome newIndex_writable (newIndex_missing _) 100).1⟩

end FileIndex

end SymbolIndex
