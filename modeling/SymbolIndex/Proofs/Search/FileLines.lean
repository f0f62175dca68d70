import SymbolIndex.Proofs.Json.Blank
import SymbolIndex.Proofs.Search.Persisted
import SymbolIndex.Proofs.Store.Opening
import SymbolIndex.Proofs.Text.RawLines

/-!
# Proofs.Search.FileLines — what an index is opened with, for any bytes in its file

Each line of the file stands for itself: it is an entry or it is passed over (`FileIndex.entryOfLine?`), and of two
entries with one key the later stands (`FileIndex.collect`). How lines end makes no difference, for a carriage return
after an entry is a blank of its text, and a line of blanks is no entry in any case (`entriesOf_eq`).

A line that is not even text is another matter. The reader stops there, and the index is not opened, whatever the other
lines are (`open_any_content`).
-/

namespace SymbolIndex

open Action (outcome)
open SymbolIndex.Text (Bytes encode decode? rawLines splitAt dropReturn trimChars)
open Disk (Hosts)

set_option autoImplicit false

/-! ## Lines as text -/

namespace SearchEntry

/-- A carriage return after an entry is passed over. -/
theorem decode?_dropReturn (line : List Char) :
    decode? (String.ofList (dropReturn line)) = decode? (String.ofList line) := by
  rw [dropReturn]
  split
  next last =>
    obtain ⟨front, rfl⟩ := List.getLast?_eq_some_iff.1 last
    rw [List.dropLast_concat, decode?, decode?, Json.parse?_push (by decide)]
  · rfl

/-- A line of blanks is no entry. -/
theorem decode?_of_trim {line : List Char} (blank : trimChars line = []) : decode? (String.ofList line) = none := by
  have each : ∀ c ∈ line, Text.isBlank c = true := by
    intro c member
    by_contra solid
    exact Text.trimChars_ne_nil member (Bool.eq_false_iff.2 solid) blank
  rw [decode?, Json.parse?_of_blank each]
  rfl

end SearchEntry

namespace FileIndex

/-- Entries by their keys, of those with one key the last. -/
def collect (es : List SearchEntry) : Entries := es.foldl (fun entries e => entries.insert e.key e) .empty

theorem get?_collect (es : List SearchEntry) (key : RecordKey) :
    (collect es).get? key = (es.filter (·.key = key)).getLast? := by
  rw [collect, SortedMap.get?_foldl_insert_last, SortedMap.get?_empty, Option.or_none]

theorem entriesOfLines_eq (lines : List String) :
    entriesOfLines lines = collect (lines.filterMap SearchEntry.decode?) := by
  rw [entriesOfLines, collect, List.foldl_filterMap]
  congr 1
  funext entries line
  by_cases blank : trimChars line.toList = []
  · have none_ := SearchEntry.decode?_of_trim blank
    rw [String.ofList_toList] at none_
    rw [if_pos blank, none_]
  · rw [if_neg blank]
    cases SearchEntry.decode? line <;> rfl

/-- The lines of a text hold the entries that its pieces hold. -/
theorem filterMap_lines (cs : List Char) :
    (Text.lines (String.ofList cs)).filterMap SearchEntry.decode? =
      (splitAt (· == '\n') cs).filterMap fun l => SearchEntry.decode? (String.ofList l) := by
  obtain ⟨front, last, pieces⟩ : ∃ front last, splitAt (· == '\n') cs = front ++ [last] :=
    ⟨_, _, (List.dropLast_append_getLast (Text.splitAt_ne_nil _ cs)).symm⟩
  have ended : ((front.map fun l => String.ofList (dropReturn l)).filterMap SearchEntry.decode?) =
      front.filterMap fun l => SearchEntry.decode? (String.ofList l) := by
    rw [List.filterMap_map]
    exact List.filterMap_congr fun l _ => SearchEntry.decode?_dropReturn l
  rw [Text.lines, String.toList_ofList, pieces, List.dropLast_concat, List.getLast?_concat, List.filterMap_append,
    List.filterMap_append, ended]
  cases last with
  | nil =>
    have none_ : SearchEntry.decode? (String.ofList []) = none := SearchEntry.decode?_of_trim rfl
    simp [none_]
  | cons c last => rfl

/-! ## Lines as bytes -/

/-- The entry of a line. -/
def entryOfLine? (line : Bytes) : Option SearchEntry := (decode? line).bind SearchEntry.decode?

/-- The entries of a file, line by line. -/
def entriesIn (content : Bytes) : List SearchEntry := (rawLines content).filterMap entryOfLine?

/-- Every line of a file is text. -/
def Legible (content : Bytes) : Prop := ∀ line ∈ rawLines content, (decode? line).isSome = true

instance (content : Bytes) : Decidable (Legible content) := inferInstanceAs (Decidable (∀ _ ∈ _, _))

/-- **What a file holds.** If every line is text, the entries among the lines, of those with one key the last. -/
theorem entriesOf_eq (content : Bytes) :
    entriesOf content = if Legible content then .ok (collect (entriesIn content)) else .error .invalidText := by
  have text : (decode? content).isSome = true ↔ Legible content := Text.decode?_isSome_iff content
  rw [entriesOf]
  cases read : decode? content with
  | none =>
    rw [read] at text
    rw [if_neg fun legible => absurd (text.2 legible) (by simp)]
  | some s =>
    rw [read] at text
    obtain rfl := Text.decode?_eq_some.1 read
    have same : (Text.lines s).filterMap SearchEntry.decode? = entriesIn (encode s) := by
      rw [entriesIn, ← String.ofList_toList (s := s), filterMap_lines, Text.rawLines_encode, List.filterMap_map]
      refine List.filterMap_congr fun l _ => ?_
      rw [Function.comp_apply, entryOfLine?, Text.decode?_encode]
      rfl
    rw [if_pos (text.1 rfl), ← same, ← entriesOfLines_eq]

/-! ## Opening -/

variable {root : Path} {base : Address} {content : Bytes} {w w₁ : World}

/-- To open an index is to read its file. -/
theorem open_of_read (made : Script.run (Script.ask (.createDirectories root)) w = (.ok (), w₁))
    (there : w₁.disk.read (root.child fileName) = .ok content) (batchSize : Nat) :
    Script.outcome (FileIndex.open root batchSize) w =
      (((entriesOf content).map fun entries => ⟨root.child fileName, entries, [], max batchSize 1, true⟩).mapError .io,
        w₁) := by
  have created : Script.outcome (ExceptT.lift (Script.ask (.createDirectories root)) :
      ExceptT SearchError Script _) w = (.ok (.ok ()), w₁) := by
    rw [Script.outcome_lift, made]
  have looked : Script.outcome (ExceptT.lift (Script.ask (.read (root.child fileName))) :
      ExceptT SearchError Script _) w₁ = (.ok (.ok content), w₁) := by
    rw [Script.outcome_lift, Script.run_ask, Call.perform, there]
  rw [FileIndex.open, Script.outcome_bind_ok created, Script.outcome_bind_ok looked]
  simp only
  cases entriesOf content <;> rfl

/-- **An index is opened with the entries of its file, whatever the other lines are, as long as they are text.** The
last entry of each key stands, and every other line is passed over. A line that is not text keeps the index from being
opened. To open it changes nothing but that the directory is made. -/
theorem open_any_content (made : Script.run (Script.ask (.createDirectories root)) w = (.ok (), w₁))
    (there : w₁.disk.read (root.child fileName) = .ok content) (batchSize : Nat) :
    (Legible content → ∃ entries : Entries,
      Script.outcome (FileIndex.open root batchSize) w =
        (.ok ⟨root.child fileName, entries, [], max batchSize 1, true⟩, w₁) ∧
      ∀ key, entries.get? key = ((entriesIn content).filter (·.key = key)).getLast?) ∧
    (¬ Legible content → Script.outcome (FileIndex.open root batchSize) w = (.error (.io .invalidText), w₁)) := by
  have opened := open_of_read made there batchSize
  rw [entriesOf_eq] at opened
  constructor
  · intro legible
    rw [if_pos legible] at opened
    exact ⟨collect (entriesIn content), opened, get?_collect _⟩
  · intro torn
    rwa [if_neg torn] at opened

/-- The file of an index is there, with some content. -/
structure Holding (root : Path) (base : Address) (content : Bytes) (d : Disk) : Prop where
  hosts : d.Hosts root base
  file : ∃ id time, d.node? (filePart :: base) = some (.file id content time)

/-- Any bytes may be in the file. -/
theorem Writable.exists_holding {d : Disk} (writable : Writable root base d) (content : Bytes) :
    ∃ d', Holding root base content d' := by
  obtain ⟨m, parent⟩ := writable.hosts.directory
  obtain ⟨id, d₁, d₂, time, -, -, hosts, effect⟩ := @Hosts.replace d root base [] filePart m writable.hosts _
    fit_draft fit_file parent writable.draft writable.file draftPart_ne 0 content
  exact ⟨d₂, hosts, id, time, (effect _).trans (if_pos rfl)⟩

namespace Holding

theorem made (holding : Holding root base content w.disk) :
    Script.run (Script.ask (.createDirectories root)) w = (.ok (), w) :=
  Script.run_createDirectories holding.hosts.createDirectories_self

theorem read {d : Disk} (holding : Holding root base content d) : d.read (root.child fileName) = .ok content := by
  obtain ⟨id, time, file⟩ := holding.file
  exact holding.hosts.read_file fit_file file

end Holding

/-! ## Poles -/

/-- A function, a line of blanks, the function again with flags and a carriage return, and a line that is cut off. -/
def sampleContent : Bytes :=
  encode (SearchEntry.encode ⟨.function, "f", none, 0⟩ ++ "\n\u00a0\n" ++
    SearchEntry.encode ⟨.function, "f", none, 2⟩ ++ "\r\n[1")

/-- A function, and a line that is not text. -/
def tornContent : Bytes := encode (SearchEntry.encode ⟨.function, "f", none, 0⟩ ++ "\n") ++ [255]

theorem sampleContent_entries : Legible sampleContent ∧
    entriesIn sampleContent = [⟨.function, "f", none, 0⟩, ⟨.function, "f", none, 2⟩] := by decide +kernel

theorem tornContent_entries : ¬ Legible tornContent ∧ entriesIn tornContent = [⟨.function, "f", none, 0⟩] := by
  decide +kernel

/-- The root `/i`, under which there is nothing in a new index. -/
def newRoot : Path := ⟨[47, 105]⟩

theorem newIndex_missing (name : Name) : newIndex.disk.node? [name, [105]] = none :=
  newIndex_fresh.bare (Disk.below_cons name [[105]])

theorem newIndex_writable : Writable newRoot [[105]] newIndex.disk where
  hosts := newIndex_fresh.hosts
  file := fun m => by simp [newIndex_missing]
  draft := fun m => by simp [newIndex_missing]

/-- A file of an index in `/i`. -/
theorem sample_holding (content : Bytes) : ∃ d, Holding newRoot [[105]] content d :=
  newIndex_writable.exists_holding content

theorem sample_open_any_content :
    (∃ d, Holding newRoot [[105]] sampleContent d ∧ Legible sampleContent ∧ ∃ entries : Entries,
      Script.outcome (FileIndex.open newRoot 100) { newIndex with disk := d } =
        (.ok ⟨newRoot.child fileName, entries, [], 100, true⟩, { newIndex with disk := d }) ∧
      entries.get? ⟨.function, "f"⟩ = some ⟨.function, "f", none, 2⟩) ∧
    ∃ d, Holding newRoot [[105]] tornContent d ∧ ¬ Legible tornContent ∧
      Script.outcome (FileIndex.open newRoot 100) { newIndex with disk := d } =
        (.error (.io .invalidText), { newIndex with disk := d }) := by
  obtain ⟨legible, listed⟩ := sampleContent_entries
  obtain ⟨torn, -⟩ := tornContent_entries
  constructor
  · obtain ⟨d, holding⟩ := sample_holding sampleContent
    obtain ⟨entries, opened, last⟩ :=
      (open_any_content (w := { newIndex with disk := d }) holding.made holding.read 100).1 legible
    refine ⟨d, holding, legible, entries, opened, ?_⟩
    rw [last, listed]
    decide +kernel
  · obtain ⟨d, holding⟩ := sample_holding tornContent
    exact ⟨d, holding, torn,
      (open_any_content (w := { newIndex with disk := d }) holding.made holding.read 100).2 torn⟩

/-- One line that is not text keeps the entry before it from being read: the index is not opened at all. -/
theorem torn_line_blocks :
    ∃ d, Holding newRoot [[105]] tornContent d ∧ entriesIn tornContent = [⟨.function, "f", none, 0⟩] ∧
      ¬ ∃ index w', Script.outcome (FileIndex.open newRoot 100) { newIndex with disk := d } = (.ok index, w') := by
  obtain ⟨torn, listed⟩ := tornContent_entries
  obtain ⟨d, holding⟩ := sample_holding tornContent
  refine ⟨d, holding, listed, ?_⟩
  rintro ⟨index, w', opened⟩
  have failed := open_of_read (w := { newIndex with disk := d }) holding.made holding.read 100
  rw [entriesOf_eq, if_neg torn, opened] at failed
  cases failed

end FileIndex

end SymbolIndex
