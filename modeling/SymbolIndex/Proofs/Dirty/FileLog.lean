import SymbolIndex.Dirty.FileLog
import SymbolIndex.Proofs.System.Files
import SymbolIndex.Proofs.System.Run
import SymbolIndex.Proofs.Text.Lines
import SymbolIndex.Proofs.Text.Utf8
import SymbolIndex.Proofs.Uri.FileUri

/-!
# Proofs.Dirty.FileLog — a log of lines stands for the entries it lists

A log in a file stands for some entries when its lines are these (`FileLog.Stands`). A mark adds the lines
of a URI (`linesOf`) at the end, clearing takes one entry out, and a drain answers the entries and leaves
none (`Stands.mark`, `Stands.clear`, `Stands.drain`). A URI without line feeds and without blanks at its
ends is its own line (`IsLine`), so the URI of an absolute path is (`isLine_normalize`).

What an operation changes besides is the draft and the place where the log is moved to be drained
(`FileLog.Apart`).
-/

namespace SymbolIndex

open Action (outcome)
open SymbolIndex.Text (Bytes encode decode?)
open Disk (Hosts Fit Below addressOf contentAt)

set_option autoImplicit false

theorem mem_firstOccurrences {uri : String} {entries : List String} :
    uri ∈ firstOccurrences entries ↔ uri ∈ entries :=
  List.mem_eraseDups

namespace FileLog

/-! ## Entries and lines -/

/-- The entries that a mark adds. -/
def linesOf (uri : String) : List String := entriesOf (uri ++ "\n")

/-- A URI that a mark adds as it is. -/
def IsLine (uri : String) : Prop := linesOf uri = [uri]

instance (uri : String) : Decidable (IsLine uri) := inferInstanceAs (Decidable (_ = _))

/-- The text of some marks. -/
def textOf (marks : List String) : String := String.ofList (marks.flatMap fun e => e.toList ++ ['\n'])

theorem textOf_cons (uri : String) (marks : List String) :
    textOf (uri :: marks) = String.ofList (uri.toList ++ ['\n']) ++ textOf marks := by
  rw [textOf, List.flatMap_cons, String.ofList_append]
  rfl

theorem contentOf_eq (marks : List String) : contentOf marks = encode (textOf marks) := by
  induction marks with
  | nil => rfl
  | cons uri marks ih =>
      have feed : encode "\n" = [10] := by decide +kernel
      have line : String.ofList (uri.toList ++ ['\n']) = uri ++ "\n" := by simp
      rw [textOf_cons, Text.encode_append, line, Text.encode_append, feed, ← ih]
      rfl

theorem contentOf_append (marks more : List String) :
    contentOf (marks ++ more) = contentOf marks ++ contentOf more := by
  simp [contentOf]

/-- The entries of some marks are the lines of each. -/
theorem entriesOf_textOf (marks : List String) : entriesOf (textOf marks) = marks.flatMap linesOf := by
  induction marks with
  | nil => rfl
  | cons uri marks ih =>
      have line : String.ofList (uri.toList ++ ['\n']) = uri ++ "\n" := by simp
      rw [textOf_cons, entriesOf, Text.lines_append, List.map_append, List.filter_append,
        List.flatMap_cons, ← ih, line]
      rfl

theorem decode?_contentOf (marks : List String) :
    (decode? (contentOf marks)).map entriesOf = some (marks.flatMap linesOf) := by
  rw [contentOf_eq, Text.decode?_encode, Option.map_some, entriesOf_textOf]

/-- An entry is a line of its own. -/
theorem isLine_of_mem {uri entry : String} (member : entry ∈ linesOf uri) : IsLine entry := by
  have line : uri ++ "\n" = String.ofList (uri.toList ++ ['\n']) := by simp
  rw [linesOf, entriesOf, line, Text.lines_of_feed, List.mem_filter, List.mem_map] at member
  obtain ⟨⟨_, listed, rfl⟩, some_⟩ := member
  obtain ⟨piece, inside, rfl⟩ := List.mem_map.1 listed
  have whole : '\n' ∉ Text.dropReturn piece := by
    intro feed
    have inPiece : '\n' ∈ piece := by
      rw [Text.dropReturn] at feed
      split at feed
      · exact (List.dropLast_sublist _).subset feed
      · exact feed
    exact absurd (Text.not_mem_splitAt inside _ inPiece) (by decide)
  have shape : Text.trim (String.ofList (Text.dropReturn piece)) =
      String.ofList (Text.trimChars (Text.dropReturn piece)) := by
    rw [Text.trim, String.toList_ofList]
  have own : Text.trim (String.ofList (Text.dropReturn piece)) ++ "\n" =
      String.ofList (Text.trimChars (Text.dropReturn piece) ++ ['\n']) := by
    rw [shape]
    simp
  rw [IsLine, linesOf, entriesOf, own, Text.lines_trim whole, List.map_singleton, ← shape,
    Text.trim_trim]
  exact List.filter_eq_self.2 (by simpa using some_)

/-- A text of visible characters is a line of its own. -/
theorem isLine_of_visible {uri : String} (some_ : uri ≠ "") (visible : ∀ c ∈ uri.toList, Uri.IsVisible c) :
    IsLine uri := by
  have solid : ∀ c ∈ uri.toList, Text.isBlank c = false := by
    intro c member
    obtain ⟨low, high⟩ := visible c member
    simp only [Text.isBlank, Bool.or_eq_false_iff, Bool.and_eq_false_iff, decide_eq_false_iff_not, beq_eq_false_iff_ne]
    omega
  have own : Text.trimChars uri.toList = uri.toList := Text.trimChars_of_solid solid
  have whole : '\n' ∉ uri.toList := fun feed => absurd (solid _ feed) (by decide)
  have line : uri ++ "\n" = String.ofList (Text.trimChars uri.toList ++ ['\n']) := by rw [own]; simp
  rw [IsLine, linesOf, entriesOf, line, Text.lines_trim whole, own, String.ofList_toList,
    List.map_singleton, Text.trim, own, String.ofList_toList]
  simpa using some_

/-- The URI of a file is a line of its own. -/
theorem isLine_normalize {path : String} (named : Uri.NamesFile path) : IsLine (Uri.normalize path) :=
  isLine_of_visible named.ne_empty named.visible

theorem flatMap_linesOf {entries : List String} (lines : ∀ e ∈ entries, IsLine e) :
    entries.flatMap linesOf = entries := by
  induction entries with
  | nil => rfl
  | cons e entries ih =>
      have own : linesOf e = [e] := lines e (by simp)
      rw [List.flatMap_cons, own, ih fun e' member => lines e' (by simp [member])]
      rfl

/-! ## The files -/

/-- The name of the log, in bytes. -/
def logPart : Name := encode fileName

/-- The name of the draft, in bytes. -/
def draftPart : Name := encode "dirty.tmp"

/-- The name that the log has while it is drained, in bytes. -/
def drainingPart : Name := encode "dirty.draining"

theorem fit_parts : Fit ([] ++ [logPart]) ∧ Fit ([] ++ [draftPart]) ∧ Fit ([] ++ [drainingPart]) := by decide +kernel

theorem fit_log : Fit ([] ++ [logPart]) := fit_parts.1

theorem fit_draft : Fit ([] ++ [draftPart]) := fit_parts.2.1

theorem fit_draining : Fit ([] ++ [drainingPart]) := fit_parts.2.2

theorem parts_distinct : logPart ≠ draftPart ∧ logPart ≠ drainingPart ∧ draftPart ≠ drainingPart :=
  ⟨Text.encode_ne (by decide), Text.encode_ne (by decide), Text.encode_ne (by decide)⟩

theorem draftPath_below (root : Path) :
    draftPath (root.child fileName) = root.below ([] ++ [draftPart]) := by
  obtain ⟨parts, unslashed⟩ : draftPart = logPart ++ encode ".tmp" ∧ slash ∉ logPart ++ encode ".tmp" := by
    decide +kernel
  show (⟨(root.join logPart).bytes ++ encode ".tmp"⟩ : Path) = root.join draftPart
  rw [parts, Path.join_append unslashed]

theorem drainingPath_below (root : Path) :
    drainingPath (root.child fileName) = root.below ([] ++ [drainingPart]) := by
  obtain ⟨parts, unslashed⟩ :
      drainingPart = logPart ++ encode ".draining" ∧ slash ∉ logPart ++ encode ".draining" := by
    decide +kernel
  show (⟨(root.join logPart).bytes ++ encode ".draining"⟩ : Path) = root.join drainingPart
  rw [parts, Path.join_append unslashed]

variable {root : Path} {base : Address} {d d' : Disk} {marks : List String}

/-! ## Reading -/

/-- The entries in a file of marks. -/
theorem entriesAt_file {log : FileLog} {w : World} {name : Name} {id : Nat} {raw : List String}
    {time : Int} (hosts : w.disk.Hosts root base) (fit : Fit ([] ++ [name]))
    (file : w.disk.node? (name :: base) = some (.file id (contentOf raw) time)) :
    outcome (entriesAt (root.below ([] ++ [name]))) log w = (.ok (raw.flatMap linesOf), log, w) := by
  have there : w.disk.read (root.below ([] ++ [name])) = .ok (contentOf raw) :=
    hosts.read_file fit file
  have asked : (Script.ask (.read (root.below ([] ++ [name])))).run w = (.ok (contentOf raw), w) := by
    rw [Script.run_ask, Call.perform, there]
  obtain ⟨text, same, entries⟩ := Option.map_eq_some_iff.1 (decode?_contentOf raw)
  have run : (readEntries (root.below ([] ++ [name]))).run w = (.ok (raw.flatMap linesOf), w) := by
    rw [readEntries, Script.run_bind_of asked]
    simp only [same, entries]
    rfl
  have mapped : Script.run ((readEntries (root.below ([] ++ [name]))).bind fun r =>
      .done (r.mapError DirtyError.io)) w = (.ok (raw.flatMap linesOf), w) := Script.run_bind_of run
  rw [entriesAt, Action.outcome_ofScript, mapped]

/-- A file that is missing has no entries. -/
theorem entriesAt_missing {log : FileLog} {w : World} {name : Name} (hosts : w.disk.Hosts root base)
    (fit : Fit ([] ++ [name])) (vacant : w.disk.node? (name :: base) = none) :
    outcome (entriesAt (root.below ([] ++ [name]))) log w = (.ok [], log, w) := by
  obtain ⟨m, parent⟩ := hosts.directory
  have missing : w.disk.read (root.below ([] ++ [name])) = .error .notFound :=
    @Hosts.read_vacant _ _ _ [] name m hosts fit parent vacant
  have asked : (Script.ask (.read (root.below ([] ++ [name])))).run w = (.error .notFound, w) := by
    rw [Script.run_ask, Call.perform, missing]
  have run : (readEntries (root.below ([] ++ [name]))).run w = (.ok [], w) := by
    rw [readEntries, Script.run_bind_of asked]
    rfl
  have mapped : Script.run ((readEntries (root.below ([] ++ [name]))).bind fun r =>
      .done (r.mapError DirtyError.io)) w = (.ok [], w) := Script.run_bind_of run
  rw [entriesAt, Action.outcome_ofScript, mapped]

/-! ## Logs -/

/-- Two disks agree apart from the log, its draft and the place where it is drained. -/
def Apart (base : Address) (d d' : Disk) : Prop :=
  ∀ a, a ≠ logPart :: base → a ≠ draftPart :: base → a ≠ drainingPart :: base → d'.node? a = d.node? a

theorem Apart.refl (base : Address) (d : Disk) : Apart base d d := fun _ _ _ _ => rfl

/-- The files of a log that lists some entries. A log that is missing lists none, and none is being
drained. -/
structure Logged (root : Path) (base : Address) (marks : List String) (d : Disk) : Prop where
  hosts : d.Hosts root base
  file : ∀ m, d.node? (logPart :: base) ≠ some (.directory m)
  draft : ∀ m, d.node? (draftPart :: base) ≠ some (.directory m)
  draining : d.node? (drainingPart :: base) = none
  content : ∃ raw, d.contentAt (logPart :: base) = contentOf raw ∧ marks = raw.flatMap linesOf

namespace Logged

theorem isLine (logged : Logged root base marks d) : ∀ e ∈ marks, IsLine e := by
  obtain ⟨raw, -, rfl⟩ := logged.content
  intro e member
  obtain ⟨uri, -, listed⟩ := List.mem_flatMap.1 member
  exact isLine_of_mem listed

/-- What lies elsewhere does not matter. -/
theorem congr (logged : Logged root base marks d) (hosts : d'.Hosts root base)
    (log : d'.node? (logPart :: base) = d.node? (logPart :: base))
    (draft : d'.node? (draftPart :: base) = d.node? (draftPart :: base))
    (draining : d'.node? (drainingPart :: base) = d.node? (drainingPart :: base)) :
    Logged root base marks d' where
  hosts := hosts
  file m := by rw [log]; exact logged.file m
  draft m := by rw [draft]; exact logged.draft m
  draining := by rw [draining]; exact logged.draining
  content := by rw [contentAt, log]; exact logged.content

/-- A log is a file or missing. -/
theorem cases (logged : Logged root base marks d) :
    (d.node? (logPart :: base) = none ∧ marks = []) ∨
      ∃ id raw m, d.node? (logPart :: base) = some (.file id (contentOf raw) m) ∧
        marks = raw.flatMap linesOf := by
  obtain ⟨raw, content, same⟩ := logged.content
  cases occupied : d.node? (logPart :: base) with
  | none =>
      rw [contentAt, occupied] at content
      cases raw with
      | nil => exact .inl ⟨rfl, same⟩
      | cons uri raw => simp [contentOf] at content
  | some node =>
      cases node with
      | directory m => exact absurd occupied (logged.file m)
      | link target => exact absurd occupied (logged.hosts.unlinked (Disk.below_cons _ _))
      | file id c m =>
          rw [contentAt, occupied] at content
          obtain rfl : c = contentOf raw := content
          exact .inr ⟨id, raw, m, rfl, same⟩

/-- A log that was written anew. -/
theorem written (logged : Logged root base marks d) (hosts : d'.Hosts root base) {id : Nat}
    {raw : List String} {time : Int}
    (log : d'.node? (logPart :: base) = some (.file id (contentOf raw) time))
    (draft : d'.node? (draftPart :: base) = none ∨
      d'.node? (draftPart :: base) = d.node? (draftPart :: base))
    (others : ∀ a, a ≠ logPart :: base → a ≠ draftPart :: base → d'.node? a = d.node? a) :
    Logged root base (raw.flatMap linesOf) d' ∧ Apart base d d' := by
  obtain ⟨-, apart, apart'⟩ := parts_distinct
  refine ⟨⟨hosts, fun m => ?_, fun m => ?_, ?_, raw, ?_, rfl⟩, fun a log' draft' _ => others a log' draft'⟩
  · rw [log]
    simp
  · rcases draft with gone | same
    · rw [gone]
      simp
    · rw [same]
      exact logged.draft m
  · rw [others _ (fun same => apart (List.cons.inj same).1.symm)
      (fun same => apart' (List.cons.inj same).1.symm)]
    exact logged.draining
  · rw [contentAt, log]

/-- Reading the log answers its entries. -/
theorem entriesAt_outcome {l : FileLog} {w : World} (logged : Logged root base marks w.disk)
    (named : l.path = root.below ([] ++ [logPart])) :
    outcome (entriesAt l.path) l w = (.ok marks, l, w) := by
  rw [named]
  rcases logged.cases with ⟨vacant, rfl⟩ | ⟨id, raw, time, file, rfl⟩
  · exact entriesAt_missing logged.hosts fit_log vacant
  · exact entriesAt_file logged.hosts fit_log file

/-- The entries are written to a draft that takes the place of the log. -/
theorem rewrite_outcome {l : FileLog} {w : World} (logged : Logged root base marks w.disk)
    (named : l.path = root.below ([] ++ [logPart])) (entries : List String) :
    ∃ d, outcome (do
        let file ← Action.ask DirtyError.io (.create (draftPath l.path))
        if contentOf entries ≠ [] then Action.ask DirtyError.io (.append file (contentOf entries))
        Action.ask DirtyError.io (.rename (draftPath l.path) l.path)) l w =
          (.ok (), l, { w with disk := d }) ∧
      Logged root base (entries.flatMap linesOf) d ∧ Apart base w.disk d := by
  obtain ⟨m, parent⟩ := logged.hosts.directory
  obtain ⟨apart, -, -⟩ := parts_distinct
  have draftAt : draftPath l.path = root.below ([] ++ [draftPart]) := by
    rw [show l.path = root.child fileName from named]
    exact draftPath_below root
  rw [draftAt, named]
  -- Whatever is written to the draft takes the place of the log.
  have settled : ∀ {d₂ : Disk} {id : Nat} {time : Int}, d₂.Hosts root base → (∀ a, d₂.node? a =
      if a = logPart :: base then some (.file id (contentOf entries) time)
      else if a = draftPart :: base then none else w.disk.node? a) →
      Logged root base (entries.flatMap linesOf) d₂ ∧ Apart base w.disk d₂ := by
    intro d₂ id time hosts effect
    have other : draftPart :: base ≠ logPart :: base := fun same => apart (List.cons.inj same).1.symm
    refine logged.written hosts (by rw [effect, if_pos rfl])
      (.inl (by rw [effect, if_neg other, if_pos rfl])) fun a log draft => ?_
    rw [effect, if_neg log, if_neg draft]
  by_cases nothing : contentOf entries = []
  · obtain ⟨id, d₁, d₂, time, opened, renamed, hosts, effect⟩ :=
      @Hosts.replace_empty w.disk root base [] logPart m logged.hosts _ fit_draft fit_log parent
        logged.draft logged.file apart.symm w.time
    rw [← nothing] at effect
    have created : outcome (Action.ask DirtyError.io (.create (root.below ([] ++ [draftPart])))) l w =
        (.ok id, l, { w with disk := d₁ }) := by
      rw [Action.outcome_ask, Call.perform, opened]
      rfl
    have moved : outcome (Action.ask DirtyError.io (.rename (root.below ([] ++ [draftPart]))
        (root.below ([] ++ [logPart])))) l { w with disk := d₁ } =
          (.ok (), l, { w with disk := d₂ }) := by
      rw [Action.outcome_ask, Call.perform, renamed]
      rfl
    refine ⟨d₂, ?_, settled hosts effect⟩
    rw [Action.outcome_bind_ok created]
    simp only [nothing, ne_eq, not_true_eq_false, if_false]
    exact moved
  · obtain ⟨id, d₁, d₂, time, opened, renamed, hosts, effect⟩ :=
      @Hosts.replace w.disk root base [] logPart m logged.hosts _ fit_draft fit_log parent
        logged.draft logged.file apart.symm w.time (contentOf entries)
    have created : outcome (Action.ask DirtyError.io (.create (root.below ([] ++ [draftPart])))) l w =
        (.ok id, l, { w with disk := d₁ }) := by
      rw [Action.outcome_ask, Call.perform, opened]
      rfl
    let w₂ : World := { w with disk := d₁.append w.time id (contentOf entries) }
    have appended : outcome (Action.ask DirtyError.io (.append id (contentOf entries))) l
        { w with disk := d₁ } = (.ok (), l, w₂) := by
      rw [Action.outcome_ask]
      rfl
    have moved : outcome (Action.ask DirtyError.io (.rename (root.below ([] ++ [draftPart]))
        (root.below ([] ++ [logPart])))) l w₂ = (.ok (), l, { w with disk := d₂ }) := by
      rw [Action.outcome_ask, Call.perform, renamed]
      rfl
    refine ⟨d₂, ?_, settled hosts effect⟩
    rw [Action.outcome_bind_ok created]
    simp only [nothing, ne_eq, not_false_eq_true, if_true]
    rw [Action.outcome_bind_ok appended]
    exact moved

end Logged

/-! ## Operations -/

theorem contains_iff {s : SortedSet String} {k : String} : s.contains k = true ↔ k ∈ s :=
  List.contains_iff_mem

variable {log : FileLog} {w : World}

/-- A handle does not make a mark again that it remembers. -/
theorem mark_known {path : String} (known : log.pending.contains (Uri.normalize path) = true) :
    outcome (FileLog.mark path) log w = (.ok (), log, w) := by
  rw [FileLog.mark, Action.outcome_bind_ok (Action.outcome_get _ _), if_pos known]
  rfl

namespace Logged

/-- A mark that the handle does not remember adds its lines. -/
theorem mark_new (logged : Logged root base marks w.disk)
    (named : log.path = root.below ([] ++ [logPart])) {path : String}
    (unknown : ¬ log.pending.contains (Uri.normalize path) = true) :
    ∃ d, outcome (FileLog.mark path) log w = (.ok (),
        { log with pending := log.pending.insert (Uri.normalize path) }, { w with disk := d }) ∧
      Logged root base (marks ++ linesOf (Uri.normalize path)) d ∧ Apart base w.disk d := by
  obtain ⟨m, parent⟩ := logged.hosts.directory
  obtain ⟨id, c, time, d₁, opened, hosts₁, content, effect₁⟩ :=
    @Hosts.openFile_spec _ _ _ [] logPart m logged.hosts fit_log w.time false parent logged.file
  obtain ⟨raw, listed, rfl⟩ := logged.content
  obtain rfl : c = contentOf raw := content.trans listed
  have file₁ : d₁.node? (logPart :: base) = some (.file id (contentOf raw) time) :=
    (effect₁ _).trans (if_pos rfl)
  obtain ⟨hosts₂, effect₂⟩ := hosts₁.append_file w.time (Disk.below_cons logPart base) file₁
    (contentOf [Uri.normalize path])
  have others : ∀ a, a ≠ logPart :: base →
      (d₁.append w.time id (contentOf [Uri.normalize path])).node? a = w.disk.node? a := by
    intro a other
    rw [effect₂, if_neg other]
    exact (effect₁ a).trans (if_neg other)
  have file₂ := effect₂ (logPart :: base)
  rw [if_pos rfl, ← contentOf_append] at file₂
  obtain ⟨draft, -⟩ := parts_distinct
  obtain ⟨logged', apart⟩ := logged.written hosts₂ file₂
    (.inr (others _ fun same => draft (List.cons.inj same).1.symm)) fun a other _ => others a other
  rw [List.flatMap_append, List.flatMap_singleton] at logged'
  have created : outcome (Action.ask DirtyError.io (.openAppend log.path)) log w =
      (.ok id, log, { w with disk := d₁ }) := by
    rw [Action.outcome_ask, Call.perform, named, opened]
    rfl
  have appended : outcome (Action.ask DirtyError.io (.append id (contentOf [Uri.normalize path]))) log
      { w with disk := d₁ } = (.ok (), log,
        { w with disk := d₁.append w.time id (contentOf [Uri.normalize path]) }) := by
    rw [Action.outcome_ask]
    rfl
  refine ⟨_, ?_, logged', apart⟩
  rw [FileLog.mark, Action.outcome_bind_ok (Action.outcome_get _ _), if_neg unknown,
    Action.outcome_bind_ok created, Action.outcome_bind_ok appended, Action.outcome_modify]

/-- Clearing a URI takes it out of the entries, and the handle forgets it. -/
theorem clear (logged : Logged root base marks w.disk)
    (named : log.path = root.below ([] ++ [logPart])) (path : String) :
    ∃ d, outcome (FileLog.clear path) log w = (.ok (),
        { log with pending := log.pending.erase (Uri.normalize path) }, { w with disk := d }) ∧
      Logged root base (marks.filter (· ≠ Uri.normalize path)) d ∧ Apart base w.disk d := by
  let log' : FileLog := { log with pending := log.pending.erase (Uri.normalize path) }
  rw [FileLog.clear, Action.outcome_bind_ok (Action.outcome_modify _ _ _),
    Action.outcome_bind_ok (Action.outcome_get _ _),
    Action.outcome_bind_ok (logged.entriesAt_outcome (l := log') named)]
  by_cases marked : marks.contains (Uri.normalize path) = true
  · have kept : (marks.filter (· ≠ Uri.normalize path)).flatMap linesOf =
        marks.filter (· ≠ Uri.normalize path) :=
      flatMap_linesOf fun e member => logged.isLine e (List.mem_filter.1 member).1
    obtain ⟨d, done, logged', apart⟩ :=
      logged.rewrite_outcome (l := log') named (marks.filter (· ≠ Uri.normalize path))
    rw [kept] at logged'
    simp only [marked, Bool.not_true, Bool.false_eq_true, if_false]
    exact ⟨d, done, logged', apart⟩
  · have absent : marks.filter (· ≠ Uri.normalize path) = marks := by
      rw [List.filter_eq_self]
      intro e member
      simp only [ne_eq, decide_not, Bool.not_eq_true', decide_eq_false_iff_not]
      rintro rfl
      exact marked (List.contains_iff_mem.2 member)
    simp only [marked, Bool.not_false, if_true]
    rw [absent]
    exact ⟨w.disk, rfl, logged, .refl _ _⟩

/-- A drain answers every entry where it stands first, and leaves none. The handle forgets what it
marked. -/
theorem drain (logged : Logged root base marks w.disk)
    (named : log.path = root.below ([] ++ [logPart])) :
    ∃ d, outcome FileLog.drain log w = (.ok (firstOccurrences marks),
        { log with pending := .empty }, { w with disk := d }) ∧
      Logged root base [] d ∧ Apart base w.disk d := by
  obtain ⟨m, parent⟩ := logged.hosts.directory
  obtain ⟨-, apart, apart'⟩ := parts_distinct
  have drainingAt : drainingPath log.path = root.below ([] ++ [drainingPart]) := by
    rw [show log.path = root.child fileName from named]
    exact drainingPath_below root
  have left : outcome (entriesAt (drainingPath log.path)) log w = (.ok [], log, w) := by
    rw [drainingAt]
    exact entriesAt_missing logged.hosts fit_draining logged.draining
  rw [FileLog.drain, Action.outcome_bind_ok (Action.outcome_get _ _), Action.outcome_bind_ok left]
  rcases logged.cases with ⟨vacant, rfl⟩ | ⟨id, raw, time, file, rfl⟩
  · -- There is no log to be moved, and none to be removed.
    have still : outcome moveAside log w = (.ok false, log, w) := by
      have missing : w.disk.find false (root.below ([] ++ [logPart])) = .error .notFound := by
        have located : w.disk.locate false (root.below ([] ++ [logPart])) = .ok (.vacant _) :=
          @Hosts.locate_vacant _ _ _ [] logPart false m logged.hosts fit_log parent vacant
        rw [Disk.find, located]
      have refused : w.disk.rename (root.below ([] ++ [logPart])) (root.below ([] ++ [drainingPart])) =
          .error .notFound := by
        rw [Disk.rename, missing]
      have asked : outcome (Action.ofPlain (Script.ask (.rename log.path (drainingPath log.path))) :
          Action FileLog DirtyError _) log w = (.ok (.error .notFound), log, w) := by
        rw [Action.outcome_ofPlain, Script.run_ask, Call.perform, drainingAt, named, refused]
        rfl
      rw [moveAside, Action.outcome_bind_ok (Action.outcome_get _ _), Action.outcome_bind_ok asked]
      rfl
    have removed : outcome removeDraining log w = (.ok (), log, w) := by
      have missing : w.disk.find false (root.below ([] ++ [drainingPart])) = .error .notFound := by
        have located : w.disk.locate false (root.below ([] ++ [drainingPart])) = .ok (.vacant _) :=
          @Hosts.locate_vacant _ _ _ [] drainingPart false m logged.hosts fit_draining parent
            logged.draining
        rw [Disk.find, located]
      have refused : w.disk.removeFile (root.below ([] ++ [drainingPart])) = .error .notFound := by
        rw [Disk.removeFile, missing]
      have asked : outcome (Action.ofPlain (Script.ask (.removeFile (drainingPath log.path))) :
          Action FileLog DirtyError _) log w =
          (.ok (.error .notFound), log, w) := by
        rw [Action.outcome_ofPlain, drainingAt, Script.run_removeFile_error refused]
      rw [removeDraining, Action.outcome_bind_ok (Action.outcome_get _ _),
        Action.outcome_bind_ok asked]
      rfl
    refine ⟨w.disk, ?_, logged, .refl _ _⟩
    rw [Action.outcome_bind_ok still]
    simp only [Bool.false_eq_true, if_false]
    rw [Action.outcome_bind_ok (Action.outcome_pure _ _ _), Action.outcome_bind_ok removed,
      Action.outcome_bind_ok (Action.outcome_modify _ _ _), Action.outcome_pure]
    rfl
  · have differs : logPart :: base ≠ drainingPart :: base := fun same => apart (List.cons.inj same).1
    have differs' : draftPart :: base ≠ drainingPart :: base := fun same =>
      apart' (List.cons.inj same).1
    obtain ⟨d₁, renamed, hosts₁, effect₁⟩ := @Hosts.rename_file w.disk root base [] drainingPart time
      logged.hosts _ fit_log fit_draining id (contentOf raw) m file parent
      (fun m' there => by cases logged.draining.symm.trans there) differs
    have aside : d₁.node? (drainingPart :: base) = some (.file id (contentOf raw) time) :=
      (effect₁ _).trans (if_pos rfl)
    obtain ⟨d₂, removed, hosts₂, effect₂⟩ := hosts₁.removeFile_file fit_draining aside
    have gone : d₂.node? (drainingPart :: base) = none := (effect₂ _).trans (if_pos rfl)
    have taken : d₂.node? (logPart :: base) = none := by
      rw [(effect₂ _).trans (if_neg differs), (effect₁ _).trans (if_neg differs)]
      exact if_pos rfl
    have others : ∀ a, a ≠ logPart :: base → a ≠ drainingPart :: base →
        d₂.node? a = w.disk.node? a := by
      intro a log draining
      rw [(effect₂ _).trans (if_neg draining), (effect₁ _).trans (if_neg draining)]
      exact if_neg log
    have moved : outcome moveAside log w = (.ok true, log, { w with disk := d₁ }) := by
      have asked : outcome (Action.ofPlain (Script.ask (.rename log.path (drainingPath log.path))) :
          Action FileLog DirtyError _) log w = (.ok (.ok ()), log, { w with disk := d₁ }) := by
        rw [Action.outcome_ofPlain, drainingAt, named, Script.run_rename renamed]
      rw [moveAside, Action.outcome_bind_ok (Action.outcome_get _ _), Action.outcome_bind_ok asked]
      rfl
    have read : outcome (entriesAt (drainingPath log.path)) log { w with disk := d₁ } =
        (.ok (raw.flatMap linesOf), log, { w with disk := d₁ }) := by
      rw [drainingAt]
      exact entriesAt_file hosts₁ fit_draining aside
    have dropped : outcome removeDraining log { w with disk := d₁ } =
        (.ok (), log, { w with disk := d₂ }) := by
      have asked : outcome (Action.ofPlain (Script.ask (.removeFile (drainingPath log.path))) :
          Action FileLog DirtyError _) log { w with disk := d₁ } = (.ok (.ok ()), log, { w with disk := d₂ }) := by
        rw [Action.outcome_ofPlain, drainingAt, Script.run_removeFile removed]
      rw [removeDraining, Action.outcome_bind_ok (Action.outcome_get _ _),
        Action.outcome_bind_ok asked]
      rfl
    refine ⟨d₂, ?_, ⟨hosts₂, ?_, ?_, gone, [], ?_, rfl⟩, fun a log _ draining => others a log draining⟩
    · rw [Action.outcome_bind_ok moved]
      simp only [if_true]
      rw [Action.outcome_bind_ok read, Action.outcome_bind_ok dropped,
        Action.outcome_bind_ok (Action.outcome_modify _ _ _), Action.outcome_pure]
      rfl
    · simp [taken]
    · intro m'
      rw [others _ (fun same => parts_distinct.1 (List.cons.inj same).1.symm) differs']
      exact logged.draft m'
    · rw [contentAt, taken]
      rfl

end Logged

/-- A log stands for some entries. What its handle remembers to have marked is among them, as far as it
is a line. -/
structure Stands (root : Path) (base : Address) (marks : List String) (log : FileLog) (w : World) :
    Prop where
  path : log.path = root.below ([] ++ [logPart])
  logged : Logged root base marks w.disk
  pending : ∀ uri ∈ log.pending, IsLine uri → uri ∈ marks

namespace Stands

/-- A mark adds its lines, unless this handle has made it already. -/
theorem mark (stands : Stands root base marks log w) (path : String) :
    ∃ marks' log' d, outcome (FileLog.mark path) log w = (.ok (), log', { w with disk := d }) ∧
      Stands root base marks' log' { w with disk := d } ∧ Apart base w.disk d ∧
      (marks' = marks ∨ marks' = marks ++ linesOf (Uri.normalize path)) ∧
      (IsLine (Uri.normalize path) → Uri.normalize path ∈ marks') := by
  obtain ⟨named, logged, pending⟩ := stands
  by_cases known : log.pending.contains (Uri.normalize path) = true
  · exact ⟨marks, log, w.disk, mark_known known, ⟨named, logged, pending⟩, .refl _ _, .inl rfl,
      pending _ (contains_iff.1 known)⟩
  · obtain ⟨d, done, logged', apart⟩ := logged.mark_new named known
    refine ⟨_, _, d, done, ⟨named, logged', fun uri member line => ?_⟩, apart, .inr rfl,
      fun line => ?_⟩
    · rcases SortedSet.mem_insert.1 member with rfl | member
      · exact List.mem_append_right _ (by rw [show linesOf _ = _ from line]; simp)
      · exact List.mem_append_left _ (pending uri member line)
    · exact List.mem_append_right _ (by rw [show linesOf _ = _ from line]; simp)

/-- Clearing a URI takes it out of the entries. -/
theorem clear (stands : Stands root base marks log w) (path : String) :
    ∃ log' d, outcome (FileLog.clear path) log w = (.ok (), log', { w with disk := d }) ∧
      Stands root base (marks.filter (· ≠ Uri.normalize path)) log' { w with disk := d } ∧
      Apart base w.disk d := by
  obtain ⟨named, logged, pending⟩ := stands
  obtain ⟨d, done, logged', apart⟩ := logged.clear named path
  refine ⟨_, d, done, ⟨named, logged', fun uri member line => ?_⟩, apart⟩
  obtain ⟨member, other⟩ := SortedSet.mem_erase.1 member
  exact List.mem_filter.2 ⟨pending uri member line, by simpa using other⟩

/-- A drain answers every entry where it stands first, and leaves none. -/
theorem drain (stands : Stands root base marks log w) :
    ∃ log' d, outcome FileLog.drain log w = (.ok (firstOccurrences marks), log', { w with disk := d }) ∧
      Stands root base [] log' { w with disk := d } ∧ Apart base w.disk d := by
  obtain ⟨d, done, logged', apart⟩ := stands.logged.drain stands.path
  exact ⟨_, d, done, ⟨stands.path, logged', fun uri member => absurd member (by simp)⟩, apart⟩

end Stands

end FileLog

end SymbolIndex
