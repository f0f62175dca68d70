import SymbolIndex.Proofs.Search.Entry
import SymbolIndex.Proofs.Search.Index
import SymbolIndex.Proofs.Store.Shelf
import SymbolIndex.Proofs.Text.Lines

/-!
# Proofs.Search.Persisted — what a search index keeps outside of memory

An index in a file keeps what a new one would be opened with: what the lines of its file are read as
(`FileIndex.loaded`, `FileIndex.open_loaded`). Each entry is written on a line of its own, for a JSON text has no
line feed, and the file is read back as the entries it was written from (`FileIndex.entriesOf_contentOf`). An index in
a table keeps the rows.

The entries in memory and those in the file are the same (`SearchIndex.Synced`), and no operation changes that: the
queue is not among them, and what hands it over writes the file (`Stands.flush_synced`, `remove_synced`,
`reset_synced`).
-/

namespace SymbolIndex

open Action (outcome)
open SymbolIndex.Text (Bytes encode decode?)
open Disk (Hosts)
open Written

set_option autoImplicit false

/-! ## An entry is a line -/

namespace Written

theorem hexDigit_ne_feed : ∀ n < 16, Text.hexDigit n ≠ '\n' := by decide

/-- A string literal has no line feed: controls are escaped. -/
theorem feed_not_mem_literal (s : String) : '\n' ∉ (literal s).toList := by
  have escaped : ∀ c, '\n' ∉ Json.escapeChar c := by
    intro c
    unfold Json.escapeChar
    repeat' split
    all_goals simp only [List.mem_cons, List.not_mem_nil, or_false]
    all_goals try decide
    next control =>
      have high := hexDigit_ne_feed (c.toNat / 16) (by omega)
      have low := hexDigit_ne_feed (c.toNat % 16) (by omega)
      simp [high.symm, low.symm]
    next feed _ _ _ => exact Ne.symm feed
  simp [literal, Json.stringChars, escaped]

/-- A number has no line feed. -/
theorem feed_not_mem_nat (n : Nat) : '\n' ∉ (toString n).toList := by
  intro feed
  have written : (toString n).toList = Json.digitsOf n := String.toList_ofList
  rw [written] at feed
  exact absurd (Json.isDigit_of_mem_digitsOf feed) (by decide)

theorem feed_not_mem_intercalate {items : List String} (each : ∀ item ∈ items, '\n' ∉ item.toList) :
    '\n' ∉ (String.intercalate "," items).toList := by
  induction items with
  | nil => simp
  | cons item items ih =>
      have rest := ih fun other member => each other (by simp [member])
      have first := each item (by simp)
      cases items with
      | nil => simpa using first
      | cons next items =>
          rw [String.intercalate_cons_cons]
          simp only [String.toList_append, List.mem_append]
          rintro ((feed | feed) | feed)
          · exact first feed
          · exact absurd feed (by decide)
          · exact rest feed

/-- A layout has no line feed if no value has one. -/
theorem feed_not_mem_braced {fields : Layout} (each : ∀ e ∈ fields, ∀ value ∈ e.2, '\n' ∉ value.toList) :
    '\n' ∉ (braced fields).toList := by
  have inner : '\n' ∉ (String.intercalate ","
      (fields.filterMap fun e => e.2.map fun value => literal e.1 ++ ":" ++ value)).toList := by
    refine feed_not_mem_intercalate fun item member => ?_
    obtain ⟨e, listed, some_⟩ := List.mem_filterMap.1 member
    obtain ⟨value, there, rfl⟩ := Option.map_eq_some_iff.1 some_
    simp [feed_not_mem_literal, each e listed value there]
  simp only [braced, String.toList_append, List.mem_append, not_or]
  exact ⟨⟨by decide, inner⟩, by decide⟩

end Written

theorem SearchEntry.feed_not_mem_encode (e : SearchEntry) : '\n' ∉ e.encode.toList := by
  rw [encode_eq]
  refine feed_not_mem_braced fun field member value there => ?_
  simp only [layout, List.mem_cons, List.not_mem_nil, or_false] at member
  rcases member with rfl | rfl | rfl | rfl
  · cases there
    exact feed_not_mem_literal _
  · cases there
    exact feed_not_mem_literal _
  · obtain ⟨t, -, rfl⟩ := Option.map_eq_some_iff.1 there
    exact feed_not_mem_literal _
  · cases there
    exact feed_not_mem_nat _

/-- The text of an entry stands between braces. -/
theorem SearchEntry.encode_braced (e : SearchEntry) :
    ∃ inner, e.encode.toList = '\x7b' :: inner ++ ['\x7d'] := by
  rw [encode_eq, braced, String.toList_append, String.toList_append]
  exact ⟨_, rfl⟩

namespace Text

/-- What holds a character that is not blank is more than blank. -/
theorem trimChars_ne_nil {cs : List Char} {c : Char} (member : c ∈ cs) (solid : isBlank c = false) :
    trimChars cs ≠ [] := by
  intro nothing
  have blank : ∀ l : List Char, l.dropWhile isBlank = [] → ∀ c ∈ l, isBlank c = true := fun l =>
    List.dropWhile_eq_nil_iff.1
  rw [trimChars, List.reverse_eq_nil_iff] at nothing
  have kept := blank _ nothing
  rw [← List.takeWhile_append_dropWhile (p := isBlank) (l := cs), List.mem_append] at member
  rcases member with front | back
  · rw [List.mem_takeWhile_imp front] at solid
    cases solid
  · rw [kept c (List.mem_reverse.2 back)] at solid
    cases solid

/-- A text without a line feed is a line, and its own only one, if it does not end in a carriage return. -/
theorem lines_line {line : List Char} (whole : '\n' ∉ line) (last : line.getLast? ≠ some '\r') :
    lines (String.ofList (line ++ ['\n'])) = [String.ofList line] := by
  have unbroken : ∀ c ∈ line, (c == '\n') = false := by
    intro c member
    rw [beq_eq_false_iff_ne]
    rintro rfl
    exact whole member
  rw [lines_of_feed, splitAt_of_not_mem unbroken, List.map_singleton, dropReturn, if_neg last]

end Text

namespace FileIndex

/-! ## The file -/

theorem contentOf_eq (es : List SearchEntry) :
    (es.flatMap fun e => encode e.encode ++ [10]) =
      encode (String.ofList (es.flatMap fun e => e.encode.toList ++ ['\n'])) := by
  induction es with
  | nil => rfl
  | cons e es ih =>
      have feed : encode "\n" = [10] := by decide +kernel
      have line : String.ofList (e.encode.toList ++ ['\n']) = e.encode ++ "\n" := by simp
      rw [List.flatMap_cons, List.flatMap_cons, String.ofList_append, Text.encode_append, line, Text.encode_append,
        feed, ih]

theorem lines_entries (es : List SearchEntry) :
    Text.lines (String.ofList (es.flatMap fun e => e.encode.toList ++ ['\n'])) = es.map SearchEntry.encode := by
  induction es with
  | nil => rfl
  | cons e es ih =>
      obtain ⟨inner, shape⟩ := e.encode_braced
      have last : e.encode.toList.getLast? ≠ some '\r' := by
        rw [shape, List.getLast?_concat]
        decide
      rw [List.flatMap_cons, String.ofList_append, Text.lines_append, Text.lines_line e.feed_not_mem_encode last, ih,
        String.ofList_toList]
      rfl

/-- The lines of entries are read as these entries. -/
theorem entriesOfLines_encode (es : List SearchEntry) :
    entriesOfLines (es.map SearchEntry.encode) = es.foldl (fun entries e => entries.insert e.key e) .empty := by
  have solid : ∀ e : SearchEntry, Text.trimChars e.encode.toList ≠ [] := by
    intro e
    obtain ⟨inner, shape⟩ := e.encode_braced
    exact Text.trimChars_ne_nil (c := '\x7b') (by simp [shape]) (by decide)
  rw [entriesOfLines]
  generalize (SortedMap.empty : Entries) = entries
  induction es generalizing entries with
  | nil => rfl
  | cons e es ih =>
      rw [List.map_cons, List.foldl_cons, List.foldl_cons, if_neg (solid e), SearchEntry.decode_encode]
      exact ih _

/-- **The file of some entries is read back as these entries.** -/
theorem entriesOf_contentOf {entries : Entries} (keyed : ∀ key e, entries.get? key = some e → e.key = key) :
    entriesOf (contentOf entries) = .ok entries := by
  have back : entries.values.foldl (fun entries e => entries.insert e.key e) .empty = entries := by
    refine SortedMap.ext_get? fun key => ?_
    rw [SortedMap.get?_foldl_insert (SortedMap.nodup_values keyed), SortedMap.find?_values keyed]
    simp
  rw [contentOf, contentOf_eq, entriesOf, Text.decode?_encode]
  simp only
  rw [lines_entries, entriesOfLines_encode, back]

/-! ## What is kept -/

/-- The entries that an index under a root would be opened with. A file that is missing holds none. -/
def loaded (root : Path) (d : Disk) : Except DiskError Entries :=
  match d.read (root.child fileName) with
  | .error .notFound => .ok .empty
  | .error e => .error e
  | .ok content => entriesOf content

variable {root : Path} {base : Address} {d d' : Disk} {w w' : World} {i i' : FileIndex} {c : Catalog}

/-- To open an index is to read what is kept. -/
theorem open_loaded (hosts : w.disk.Hosts root base) (batchSize : Nat) :
    Script.outcome (FileIndex.open root batchSize) w =
      (((loaded root w.disk).map fun entries => ⟨root.child fileName, entries, [], max batchSize 1, true⟩).mapError .io,
        w) := by
  have made : Script.outcome (ExceptT.lift (Script.ask (.createDirectories root)) :
      ExceptT SearchError Script _) w = (.ok (.ok ()), w) := by
    rw [Script.outcome_lift, Script.run_createDirectories hosts.createDirectories_self]
  have looked : Script.outcome (ExceptT.lift (Script.ask (.read (root.child fileName))) :
      ExceptT SearchError Script _) w = (.ok (w.disk.read (root.child fileName)), w) := by
    rw [Script.outcome_lift, Script.run_ask, Call.perform]
  rw [FileIndex.open, Script.outcome_bind_ok made, Script.outcome_bind_ok looked, loaded]
  cases w.disk.read (root.child fileName) with
  | error e => cases e <;> rfl
  | ok content =>
      simp only
      cases entriesOf content <;> rfl

theorem loaded_missing (hosts : d.Hosts root base) (missing : d.node? (filePart :: base) = none) :
    loaded root d = .ok .empty := by
  obtain ⟨m, parent⟩ := hosts.directory
  have absent : d.read (root.child fileName) = .error .notFound :=
    @Hosts.read_vacant _ _ _ [] filePart m hosts fit_file parent missing
  rw [loaded, absent]

theorem loaded_file (hosts : d.Hosts root base) {id : Nat} {content : Bytes} {time : Int}
    (file : d.node? (filePart :: base) = some (.file id content time)) : loaded root d = entriesOf content := by
  have there : d.read (root.child fileName) = .ok content := hosts.read_file fit_file file
  rw [loaded, there]

theorem loaded_directory (hosts : d.Hosts root base) {m : Int} (there : d.node? (filePart :: base) = some (.directory m)) :
    loaded root d = .error .isDirectory := by
  have found : d.find true (root.child fileName) = .ok (filePart :: base, .directory m) := hosts.find_some fit_file there
  rw [loaded, Disk.read, found]

/-- What is kept hangs on the file alone. -/
theorem loaded_congr (hosts : d.Hosts root base) (hosts' : d'.Hosts root base)
    (same : d'.node? (filePart :: base) = d.node? (filePart :: base)) : loaded root d' = loaded root d := by
  cases there : d.node? (filePart :: base) with
  | none => rw [loaded_missing hosts there, loaded_missing hosts' (same.trans there)]
  | some node =>
      cases node with
      | file id content time => rw [loaded_file hosts there, loaded_file hosts' (same.trans there)]
      | directory m => rw [loaded_directory hosts there, loaded_directory hosts' (same.trans there)]
      | link target => exact absurd there (hosts.unlinked (Disk.below_cons _ _))

/-- What is written is what is kept. -/
theorem Replaced.loaded {entries : Entries} (replaced : Replaced base (contentOf entries) d d')
    (hosts : d'.Hosts root base) (keyed : ∀ key e, entries.get? key = some e → e.key = key) :
    loaded root d' = .ok entries := by
  obtain ⟨id, time, effect⟩ := replaced
  rw [loaded_file hosts ((effect _).trans (if_pos rfl)), entriesOf_contentOf keyed]

/-- The file of an index holds the entries of a catalog. -/
def Persisted (root : Path) (c : Catalog) (d : Disk) : Prop := ∃ entries, loaded root d = .ok entries ∧ Lists entries c

/-- When the queue has been handed over, the file holds the entries in memory. -/
theorem Stands.flush_loaded (stands : Stands root base c i w) (synced : loaded root w.disk = .ok i.entries)
    (done : outcome FileIndex.flush i w = (.ok (), i', w')) :
    i' = i.settle ∧ loaded root w'.disk = .ok i'.entries := by
  rw [FileIndex.flush, Action.outcome_bind_ok (Action.outcome_get i w)] at done
  by_cases nothing : i.pending.isEmpty = true
  · rw [if_pos nothing] at done
    obtain ⟨-, rfl, rfl⟩ : (Except.ok () : Except SearchError Unit) = .ok () ∧ i = i' ∧ w = w' := by
      simpa using done
    exact ⟨(settle_of_empty (List.isEmpty_iff.1 nothing)).symm, synced⟩
  · obtain ⟨d, written, hosts, replaced⟩ := @persist_replaces root base i.settle w stands.path stands.writable
    rw [if_neg nothing] at done
    have whole : outcome FileIndex.persist i.settle w = (.ok (), i', w') := by
      rwa [Action.outcome_bind_ok (Action.outcome_set i i.settle w)] at done
    rw [written] at whole
    cases whole
    exact ⟨rfl, replaced.loaded hosts fun key e found => Catalog.key_of_get? ((stands.lists key).symm.trans found)⟩

/-- A reset writes the file anew, with the entries in memory. -/
theorem Stands.reset_loaded (stands : Stands root base c i w)
    (done : outcome FileIndex.reset i w = (.ok (), i', w')) :
    i'.autoFlush = i.autoFlush ∧ loaded root w'.disk = .ok i'.entries := by
  obtain ⟨d, flushed, stands₁, -⟩ := stands.flush
  let left : FileIndex := { i.settle with
    entries := i.settle.entries.filter (fun _ e => e.recordType != .klass) }
  obtain ⟨d', written, hosts, replaced⟩ :=
    @persist_replaces root base left { w with disk := d } stands₁.path stands₁.writable
  have lists : Lists left.entries c.reset := stands₁.lists.filter (·.recordType != .klass)
  have whole : outcome FileIndex.persist left { w with disk := d } = (.ok (), i', w') := by
    rwa [FileIndex.reset, Action.outcome_bind_ok flushed, Action.outcome_bind_ok (Action.outcome_modify _ _ _)] at done
  obtain ⟨-, rfl, rfl⟩ : (Except.ok () : Except SearchError Unit) = .ok () ∧ left = i' ∧
      { w with disk := d' } = w' := by
    simpa using written.symm.trans whole
  exact ⟨rfl, replaced.loaded hosts fun key e found => Catalog.key_of_get? ((lists key).symm.trans found)⟩

end FileIndex

/-! ## Either kind -/

namespace SearchIndex

variable {root : Path} {base : Address} {backend : Backend} {c : Catalog} {index index' : SearchIndex} {w w' : World}

/-- What an index of a kind keeps outside of memory is a catalog. -/
def Persists (root : Path) (c : Catalog) (w : World) : Backend → Prop
  | .file => FileIndex.Persisted root c w.disk
  | .sqlite => TableIndex.Holds w.database c

/-- Nothing waits in an index. -/
def Idle : SearchIndex → Prop
  | .file i => i.pending = []
  | .table i => i.pending = []

/-- An index hands over on its own what makes a batch. -/
def autoFlush : SearchIndex → Bool
  | .file i => i.autoFlush
  | .table i => i.autoFlush

/-- The file of an index holds the entries in memory; the queue is not among them. -/
def Synced (root : Path) (d : Disk) : SearchIndex → Prop
  | .file i => FileIndex.loaded root d = .ok i.entries
  | .table _ => True

/-- When the queue of an index has been handed over, nothing waits, and the file holds the entries in memory. -/
theorem Stands.flush_synced (stands : Stands root base c w backend index) (synced : index.Synced root w.disk)
    (done : outcome SearchIndex.flush index w = (.ok (), index', w')) :
    index'.Synced root w'.disk ∧ index'.Idle ∧ index'.autoFlush = index.autoFlush := by
  cases stands with
  | @file i stands =>
      rw [SearchIndex.flush, outcome_onEither_file] at done
      rcases ran : outcome FileIndex.flush i w with ⟨r, i', w₁⟩
      rw [ran] at done
      cases done
      obtain ⟨rfl, kept⟩ := stands.flush_loaded synced ran
      exact ⟨kept, rfl, rfl⟩
  | @table i stands =>
      obtain ⟨db, flushed, -⟩ := stands.flush
      rw [SearchIndex.flush, outcome_onEither_table, flushed] at done
      cases done
      exact ⟨trivial, rfl, rfl⟩

/-- To remove an entry leaves the file as it is. -/
theorem Stands.remove_synced (stands : Stands root base c w backend index) (synced : index.Synced root w.disk)
    {r : Record} (done : outcome (SearchIndex.remove r) index w = (.ok (), index', w')) :
    index'.Synced root w'.disk ∧ index'.autoFlush = index.autoFlush := by
  cases stands with
  | @file i stands =>
      rw [SearchIndex.remove, outcome_onEither_file, (stands.remove r).1] at done
      cases done
      exact ⟨synced, rfl⟩
  | @table i stands =>
      obtain ⟨db, removed, -⟩ := stands.remove r
      rw [SearchIndex.remove, outcome_onEither_table, removed] at done
      cases done
      exact ⟨trivial, rfl⟩

theorem Stands.reset_synced (stands : Stands root base c w backend index)
    (done : outcome SearchIndex.reset index w = (.ok (), index', w')) :
    index'.Synced root w'.disk ∧ index'.autoFlush = index.autoFlush := by
  cases stands with
  | @file i stands =>
      rw [SearchIndex.reset, outcome_onEither_file] at done
      rcases ran : outcome FileIndex.reset i w with ⟨r, i', w₁⟩
      rw [ran] at done
      cases done
      exact (stands.reset_loaded ran).symm
  | @table i stands =>
      obtain ⟨db, removed, -⟩ := stands.reset
      rw [SearchIndex.reset, outcome_onEither_table, removed] at done
      cases done
      exact ⟨trivial, rfl⟩

end SearchIndex

end SymbolIndex
