import Mathlib.Logic.Relation
import SymbolIndex.Proofs.Search.Exactness
import SymbolIndex.Proofs.Search.FileLines

/-!
# Proofs.Search.Reopening — an index in a file is opened again as it was

The entries in memory are those that a new index would be opened with, before and after every operation
(`SearchCommand.perform_synced`): what waits in the queue is in neither. After a flush, a reset or a search nothing
waits, and so an index that is opened then has every entry, under the key it was written with
(`SearchCommand.reopens`). This holds of all identifiers, for the text of an entry has no line feed of its own.

Lines that are blank or no entry may be put between the lines of the file, or after the last one
(`FileIndex.Padded`). They are passed over.
-/

namespace SymbolIndex

open Action (outcome)
open SymbolIndex.Text (Bytes encode decode? rawLines trimChars)

set_option autoImplicit false

namespace FileIndex

/-! ## Lines that are passed over -/

/-- A line that is text, and blank or no entry. -/
structure PassedOver (line : Bytes) : Prop where
  whole : 10 ∉ line
  text : ∃ s, decode? line = some s ∧ (trimChars s.toList = [] ∨ SearchEntry.decode? s = none)

/-- Where a line begins: at the beginning, and after a line feed. -/
def LineStart (front : Bytes) : Prop := front = [] ∨ front.getLast? = some 10

/-- A line that is passed over has been put into a file: before what was a line, with a line feed, or after all lines,
with or without one. -/
inductive LineInserted : Bytes → Bytes → Prop where
  | before {front line : Bytes} (start : LineStart front) (passed : PassedOver line) (back : Bytes) :
      LineInserted (front ++ back) (front ++ (line ++ 10 :: back))
  | last {front line : Bytes} (start : LineStart front) (passed : PassedOver line) : LineInserted front (front ++ line)

/-- Any number of lines that are passed over have been put into a file. -/
def Padded : Bytes → Bytes → Prop := Relation.ReflTransGen LineInserted

theorem LineStart.rawLines_append {front : Bytes} (start : LineStart front) :
    ∃ lines, ∀ back, rawLines (front ++ back) = lines ++ rawLines back := by
  rcases start with rfl | ended
  · exact ⟨[], fun back => rfl⟩
  · obtain ⟨front, rfl⟩ := List.getLast?_eq_some_iff.1 ended
    refine ⟨rawLines front, fun back => ?_⟩
    rw [List.append_assoc, List.singleton_append, Text.rawLines_append]

namespace PassedOver

variable {line : Bytes}

theorem isSome (passed : PassedOver line) : (decode? line).isSome = true := by
  obtain ⟨s, read, -⟩ := passed.text
  rw [read]
  rfl

theorem entryOfLine? (passed : PassedOver line) : entryOfLine? line = none := by
  obtain ⟨s, read, blank | other⟩ := passed.text
  · have none_ := SearchEntry.decode?_of_trim blank
    rw [String.ofList_toList] at none_
    rw [FileIndex.entryOfLine?, read, Option.bind_some, none_]
  · rw [FileIndex.entryOfLine?, read, Option.bind_some, other]

end PassedOver

theorem passedOver_nil : PassedOver [] where
  whole := List.not_mem_nil
  text := ⟨"", by decide +kernel, .inl rfl⟩

/-- Two files hold the same if they differ in a line that is passed over in both. -/
theorem entriesOf_congr {content content' : Bytes} {front back passed passed' : List Bytes}
    (lines : rawLines content = front ++ passed ++ back) (lines' : rawLines content' = front ++ passed' ++ back)
    (each : ∀ line ∈ passed, PassedOver line) (each' : ∀ line ∈ passed', PassedOver line) :
    entriesOf content' = entriesOf content := by
  have nothing : ∀ {l : List Bytes}, (∀ line ∈ l, PassedOver line) → l.filterMap entryOfLine? = [] := fun each =>
    List.filterMap_eq_nil_iff.2 fun line member => (each line member).entryOfLine?
  have texts : ∀ {l : List Bytes}, (∀ line ∈ l, PassedOver line) →
      ((∀ line ∈ l, (decode? line).isSome = true) ↔ True) := fun each =>
    iff_true_intro fun line member => (each line member).isSome
  have legible : Legible content' ↔ Legible content := by
    rw [Legible, Legible, lines, lines']
    simp only [List.forall_mem_append, texts each, texts each']
  have same : entriesIn content' = entriesIn content := by
    rw [entriesIn, entriesIn, lines, lines', List.filterMap_append, List.filterMap_append, List.filterMap_append,
      List.filterMap_append, nothing each, nothing each']
  rw [entriesOf_eq, entriesOf_eq, same]
  exact if_congr legible rfl rfl

theorem LineInserted.entriesOf {content content' : Bytes} (inserted : LineInserted content content') :
    entriesOf content' = entriesOf content := by
  cases inserted with
  | @before front line start passed back =>
      obtain ⟨lines, cut⟩ := start.rawLines_append
      refine @entriesOf_congr _ _ lines (rawLines back) [] [line] ?_ ?_ (by simp) (by simpa using passed)
      · rw [cut, List.append_nil]
      · rw [cut, Text.rawLines_append, Text.rawLines_of_whole passed.whole, List.append_assoc]
  | @last _ line start passed =>
      obtain ⟨lines, cut⟩ := start.rawLines_append
      have bare := cut []
      rw [List.append_nil] at bare
      refine @entriesOf_congr _ _ lines [] [[]] [line] ?_ ?_ (by simpa using passedOver_nil) (by simpa using passed)
      · rw [bare, List.append_nil]
        rfl
      · rw [cut, Text.rawLines_of_whole passed.whole, List.append_nil]

theorem Padded.entriesOf {content content' : Bytes} (padded : Padded content content') :
    entriesOf content' = entriesOf content := by
  induction padded with
  | refl => rfl
  | tail _ inserted ih => rw [inserted.entriesOf, ih]

/-! ## What is in memory is in the file -/

variable {root : Path} {base : Address} {c : Catalog} {i i' : FileIndex} {w w' : World}

/-- Entries that stand under their own keys are those of a catalog. -/
theorem exists_lists {entries : Entries} (keyed : ∀ key e, entries.get? key = some e → e.key = key) :
    ∃ c, Lists entries c :=
  ⟨⟨entries.values, SortedMap.nodup_values keyed⟩, fun key => (SortedMap.find?_values keyed key).symm⟩

theorem keyed_collect (es : List SearchEntry) (key : RecordKey) (e : SearchEntry)
    (found : (collect es).get? key = some e) : e.key = key := by
  rw [get?_collect] at found
  simpa using (List.mem_filter.1 (List.mem_of_getLast? found)).2

/-- An index that was opened has the entries of its file, each under its own key, and nothing waits. -/
theorem loaded_of_open {batchSize : Nat} (opened : Script.outcome (FileIndex.open root batchSize) w = (.ok i, w')) :
    i.path = root.child fileName ∧ i.pending = [] ∧ loaded root w'.disk = .ok i.entries ∧
      ∀ key e, i.entries.get? key = some e → e.key = key := by
  rcases made : Script.run (Script.ask (.createDirectories root)) w with ⟨r, w₁⟩
  have created : Script.outcome (ExceptT.lift (Script.ask (.createDirectories root)) :
      ExceptT SearchError Script _) w = (.ok r, w₁) := by
    rw [Script.outcome_lift, made]
  rw [FileIndex.open, Script.outcome_bind_ok created] at opened
  cases r with
  | error e => cases opened
  | ok =>
      have looked : Script.outcome (ExceptT.lift (Script.ask (.read (root.child fileName))) :
          ExceptT SearchError Script _) w₁ = (.ok (w₁.disk.read (root.child fileName)), w₁) := by
        rw [Script.outcome_lift, Script.run_ask, Call.perform]
      rw [Script.outcome_bind_ok looked] at opened
      cases read : w₁.disk.read (root.child fileName) with
      | error e =>
          rw [read] at opened
          cases e <;> cases opened
          exact ⟨rfl, rfl, by rw [loaded, read], fun key e found => by cases found⟩
      | ok content =>
          rw [read] at opened
          simp only at opened
          have parsed := entriesOf_eq content
          cases held : entriesOf content with
          | error e =>
              rw [held] at opened
              cases opened
          | ok entries =>
              rw [held] at opened parsed
              cases opened
              refine ⟨rfl, rfl, by rw [loaded, read]; exact held, ?_⟩
              split at parsed
              · cases parsed
                exact keyed_collect _
              · cases parsed

/-- A write hands over what makes a batch, or leaves the entries and the file as they are. -/
theorem Stands.write_loaded (stands : Stands root base c i w) (synced : loaded root w.disk = .ok i.entries) {r : Record}
    (done : outcome (FileIndex.write r) i w = (.ok (), i', w')) : loaded root w'.disk = .ok i'.entries := by
  rw [FileIndex.write] at done
  cases projected : SearchEntry.ofRecord? r with
  | none =>
      rw [projected] at done
      cases done
      exact synced
  | some e =>
      rw [projected] at done
      have queued : Stands root base (c.put e) (i.enqueue (.write e)) w := stands.enqueue (stands.lists.write e)
      simp only [] at done
      rw [Action.outcome_bind_ok (Action.outcome_modify _ _ _), Action.outcome_bind_ok (Action.outcome_get _ _)] at done
      split at done
      · exact (queued.flush_loaded synced done).2
      · cases done
        exact synced

/-- A search hands over the queue. -/
theorem Stands.search_loaded (stands : Stands root base c i w) (synced : loaded root w.disk = .ok i.entries)
    {criteria : Criteria} {hits : List (Hit SearchEntry)}
    (done : outcome (FileIndex.search criteria) i w = (.ok hits, i', w')) :
    i' = i.settle ∧ loaded root w'.disk = .ok i'.entries := by
  obtain ⟨d, flushed, -⟩ := stands.flush
  rw [FileIndex.search, Action.outcome_bind_ok flushed, Action.outcome_bind_ok (Action.outcome_get _ _)] at done
  cases done
  exact stands.flush_loaded synced flushed

end FileIndex

namespace FileIndex

variable {root : Path} {content content' : Bytes} {entries : Entries} {d : Disk} {w w₁ : World}

/-- The content of the file of an index. A file that is missing is taken for an empty one. -/
def Content (root : Path) (d : Disk) (content : Bytes) : Prop :=
  d.read (root.child fileName) = .ok content ∨ d.read (root.child fileName) = .error .notFound ∧ content = []

theorem exists_content (kept : loaded root d = .ok entries) :
    ∃ content, Content root d content ∧ entriesOf content = .ok entries := by
  rw [loaded] at kept
  cases read : d.read (root.child fileName) with
  | ok content =>
      rw [read] at kept
      exact ⟨content, .inl read, kept⟩
  | error e =>
      rw [read] at kept
      cases e <;> cases kept
      exact ⟨[], .inr ⟨read, rfl⟩, rfl⟩

/-- A file into which lines were put that are passed over is read as what it was. -/
theorem Padded.open_ok (padded : Padded content content') (held : FileIndex.entriesOf content = .ok entries)
    (made : Script.run (Script.ask (.createDirectories root)) w = (.ok (), w₁))
    (there : w₁.disk.read (root.child fileName) = .ok content') (batchSize : Nat) :
    Script.outcome (FileIndex.open root batchSize) w =
      (.ok ⟨root.child fileName, entries, [], max batchSize 1, true⟩, w₁) := by
  rw [open_of_read made there, padded.entriesOf, held]
  rfl

end FileIndex

/-! ## Operations -/

namespace SearchCommand

open FileIndex (loaded)

variable {root : Path} {base : Address} {c : Catalog} {i : FileIndex} {w : World}

/-- An operation after which nothing waits. -/
def Settles : SearchCommand → Prop
  | .flush | .reset | .search _ => True
  | .write _ | .remove _ | .setAutoFlush _ => False

/-- What is done to an index in a file. -/
theorem onFile_ok {α : Type} {onFile : Action FileIndex SearchError α} {onTable : Action TableIndex SearchError α}
    {i' : FileIndex} {w' : World} {a : α} (done : outcome onFile i w = (.ok a, i', w')) :
    outcome (SearchIndex.onEither onFile onTable) (.file i) w = (.ok a, .file i', w') := by
  rw [SearchIndex.outcome_onEither_file, done]

/-- **One operation.** It succeeds, and the file still holds the entries in memory. -/
theorem perform_synced (stands : FileIndex.Stands root base c i w) (synced : loaded root w.disk = .ok i.entries)
    (command : SearchCommand) :
    ∃ answers i' w', outcome command.perform (.file i) w = (.ok answers, .file i', w') ∧
      FileIndex.Stands root base (after c command) i' w' ∧ loaded root w'.disk = .ok i'.entries ∧
      (command.Settles → i'.pending = []) := by
  cases command with
  | write r =>
      obtain ⟨i', d, done, stands', -⟩ := stands.write r
      exact ⟨[], i', _, Action.outcome_bind_ok (onFile_ok done), stands', stands.write_loaded synced done, False.elim⟩
  | remove r =>
      obtain ⟨done, stands'⟩ := stands.remove r
      exact ⟨[], _, _, Action.outcome_bind_ok (onFile_ok done), stands', synced, False.elim⟩
  | flush =>
      obtain ⟨d, done, stands', -⟩ := stands.flush
      exact ⟨[], _, _, Action.outcome_bind_ok (onFile_ok done), stands', (stands.flush_loaded synced done).2,
        fun _ => rfl⟩
  | reset =>
      obtain ⟨i', d, done, stands', settled, -⟩ := stands.reset
      exact ⟨[], i', _, Action.outcome_bind_ok (onFile_ok done), stands', (stands.reset_loaded done).2,
        fun _ => settled⟩
  | setAutoFlush enabled =>
      exact ⟨[], _, w, Action.outcome_bind_ok (Action.outcome_modify _ _ _), stands.setAutoFlush enabled, synced,
        False.elim⟩
  | search criteria =>
      obtain ⟨found, d, done, -, -, stands', -⟩ := stands.search criteria
      exact ⟨[found.map .ok], _, _, Action.outcome_bind_ok (onFile_ok done), stands',
        (stands.search_loaded synced done).2, fun _ => rfl⟩

/-- Any number of operations. -/
theorem performAll_synced (stands : FileIndex.Stands root base c i w) (synced : loaded root w.disk = .ok i.entries)
    (commands : List SearchCommand) :
    ∃ answers i' w' c', outcome (performAll commands) (.file i) w = (.ok answers, .file i', w') ∧
      FileIndex.Stands root base c' i' w' ∧ loaded root w'.disk = .ok i'.entries ∧
      ∀ last ∈ commands.getLast?, last.Settles → i'.pending = [] := by
  induction commands generalizing c i w with
  | nil => exact ⟨[], i, w, c, rfl, stands, synced, fun last member => nomatch member⟩
  | cons command rest ih =>
      obtain ⟨answers, i₁, w₁, done, stands₁, synced₁, settled⟩ := perform_synced stands synced command
      obtain ⟨more, i₂, w₂, c₂, done', stands₂, synced₂, settled'⟩ := ih stands₁ synced₁
      refine ⟨answers ++ more, i₂, w₂, c₂, ?_, stands₂, synced₂, ?_⟩
      · rw [performAll, Action.outcome_bind_ok done, Action.outcome_bind_ok done']
        rfl
      · intro last member settles
        cases rest with
        | nil =>
            cases done'
            cases member
            exact settled settles
        | cons next rest => exact settled' last member settles

/-- **An index in a file survives being opened again.** Whatever was there when it was opened, and whatever was done
since, all of it succeeds, and after a flush, a reset or a search nothing waits and a new index has the same entries,
with lines of blanks or without an entry put into the file or not. -/
theorem reopens {batchSize : Nat} {index : SearchIndex} {w₀ : World}
    (opened : Script.outcome (SearchIndex.open .file root batchSize) w₀ = (.ok index, w))
    (writable : FileIndex.Writable root base w.disk) {commands : List SearchCommand} {last : SearchCommand}
    (ended : commands.getLast? = some last) (settles : last.Settles) :
    ∃ answers i w', outcome (performAll commands) index w = (.ok answers, .file i, w') ∧ i.pending = [] ∧
      (∀ n, Script.outcome (FileIndex.open root n) w' =
        (.ok ⟨root.child FileIndex.fileName, i.entries, [], max n 1, true⟩, w')) ∧
      ∃ content, FileIndex.Content root w'.disk content ∧
        ∀ content' w₁ w₂ n, FileIndex.Padded content content' →
          Script.run (Script.ask (.createDirectories root)) w₁ = (.ok (), w₂) →
          w₂.disk.read (root.child FileIndex.fileName) = .ok content' →
          Script.outcome (FileIndex.open root n) w₁ =
            (.ok ⟨root.child FileIndex.fileName, i.entries, [], max n 1, true⟩, w₂) := by
  rcases ran : Script.outcome (FileIndex.open root batchSize) w₀ with ⟨r, w₁⟩
  rw [SearchIndex.open, Script.outcome_bind, ran] at opened
  cases r with
  | error e => cases opened
  | ok i =>
      cases opened
      obtain ⟨path, nothing, synced, keyed⟩ := FileIndex.loaded_of_open ran
      obtain ⟨c, lists⟩ := FileIndex.exists_lists keyed
      have stands : FileIndex.Stands root base c i w := by
        refine ⟨path, writable, ?_⟩
        rw [FileIndex.settle_of_empty nothing]
        exact lists
      obtain ⟨answers, i', w', c', done, stands', synced', settled⟩ := performAll_synced stands synced commands
      obtain ⟨content, there, held⟩ := FileIndex.exists_content synced'
      refine ⟨answers, i', w', done, settled last ended settles, fun n => ?_, content, there,
        fun content' w₁ w₂ n padded made read => padded.open_ok held made read n⟩
      rw [FileIndex.open_loaded stands'.writable.hosts, synced']
      rfl

/-! ## Poles -/

/-- Names with a line feed, a carriage return, a quote and a NUL, a change of mind, and a flush. -/
def sampleLines : List SearchCommand :=
  [.write (.function ⟨"a\n\"b\r", none⟩), .setAutoFlush false, .write (.klass ⟨"\x00", some .klass, none, 1⟩),
    .remove (.function ⟨"a", none⟩), .flush]

/-- A line with a blank, before all others. -/
theorem sample_padded (content : Bytes) : FileIndex.Padded content (encode " " ++ 10 :: content) := by
  have blank : FileIndex.PassedOver (encode " ") := ⟨by decide +kernel, " ", Text.decode?_encode " ", .inl (by decide)⟩
  exact .single (.before (.inl rfl) blank content)

/-- The operations on a new index in `/i`, with batches of two. -/
theorem sample_reopens :
    ∃ index w₀ answers i w' content d,
      Script.outcome (SearchIndex.open .file FileIndex.newRoot 2) newIndex = (.ok index, w₀) ∧
      outcome (performAll sampleLines) index w₀ = (.ok answers, .file i, w') ∧ i.pending = [] ∧
      Script.outcome (FileIndex.open FileIndex.newRoot 7) w' =
        (.ok ⟨FileIndex.newRoot.child FileIndex.fileName, i.entries, [], 7, true⟩, w') ∧
      FileIndex.Content FileIndex.newRoot w'.disk content ∧
      FileIndex.Holding FileIndex.newRoot [[105]] (encode " " ++ 10 :: content) d ∧
      Script.outcome (FileIndex.open FileIndex.newRoot 7) { w' with disk := d } =
        (.ok ⟨FileIndex.newRoot.child FileIndex.fileName, i.entries, [], 7, true⟩, { w' with disk := d }) := by
  obtain ⟨index, w₀, opened, stands⟩ := open_fresh newIndex_fresh .file 2
  cases stands with
  | file stands =>
      obtain ⟨answers, i, w', done, settled, again, content, there, padded⟩ :=
        @reopens _ _ _ _ _ _ opened stands.writable sampleLines _ rfl trivial
      obtain ⟨d, holding⟩ := FileIndex.sample_holding (encode " " ++ 10 :: content)
      exact ⟨_, w₀, answers, i, w', content, d, opened, done, settled, again 7, there, holding,
        padded _ { w' with disk := d } _ 7 (sample_padded content) holding.made holding.read⟩

end SearchCommand

end SymbolIndex
