import SymbolIndex.Proofs.Index.Searching
import SymbolIndex.Query

/-!
# Proofs.Index.References — the files that a member lists

Each member lists the URIs of the files that refer to it. Applying a document changes these lists at the URI
of the document alone: it is listed where the document refers to the member now, and is no longer where its
stored record referred to the member and the document does not (`mem_referencesOf_applied`).

So no list lacks a stored file that refers to the member (`Holdings.Linked`), whatever was indexed, swept and
reset, and a query that looks only into the files of the list finds every place of use
(`History.references_exact`). A list can name files that do not refer to the member: a sweep removes the record
of a file and leaves the lists, and without the record the next indexing does not know what to take back
(`History.references_reindexed`).
-/

namespace SymbolIndex

open Action (outcome)
open Ledger (referencesOf)

set_option autoImplicit false

namespace Holdings

variable {h : Holdings} {uri v i : String} {records : List Record} {now : Int64}

/-! ## One document -/

theorem mem_referencesOf_declare {known : Option MemberRecord} {r : Record} :
    v ∈ referencesOf (declare i known r) ↔
      v ∈ referencesOf known ∨ ∃ m, r = .member m ∧ m.identifier = i ∧ v ∈ m.references := by
  cases r with
  | member m =>
      rw [declare]
      by_cases own : m.identifier = i
      · simp [own, or_comm]
      · simp [own]
  | klass c => simp [declare]
  | function f => simp [declare]
  | constant c => simp [declare]
  | file f => simp [declare]

/-- What a document declares is added to what is known. -/
theorem mem_referencesOf_declared {known : Option MemberRecord} :
    v ∈ referencesOf (records.foldl (declare i) known) ↔
      v ∈ referencesOf known ∨ ∃ m, .member m ∈ records ∧ m.identifier = i ∧ v ∈ m.references := by
  induction records generalizing known with
  | nil => simp
  | cons r records ih =>
      rw [List.foldl_cons, ih, mem_referencesOf_declare, or_assoc]
      refine or_congr_right ⟨?_, ?_⟩
      · rintro (⟨m, rfl, own, listed⟩ | ⟨m, member, own, listed⟩)
        · exact ⟨m, by simp, own, listed⟩
        · exact ⟨m, by simp [member], own, listed⟩
      · rintro ⟨m, member, own, listed⟩
        rcases List.mem_cons.1 member with same | member
        · exact .inl ⟨m, same.symm, own, listed⟩
        · exact .inr ⟨m, member, own, listed⟩

theorem referencesOf_orEmpty (i : String) (known : Option MemberRecord) :
    referencesOf (Gathered.orEmpty i known) = referencesOf known := by
  cases known with
  | some m => rfl
  | none =>
      rw [Gathered.orEmpty, Option.none_or, MemberRecord.ofIdentifier]
      cases RecordKey.parseMember i <;> rfl

theorem mem_referencesOf_added {known : Option MemberRecord} (there : known.isSome = true) :
    v ∈ referencesOf (known.map (Gathered.added uri)) ↔ v = uri ∨ v ∈ referencesOf known := by
  obtain ⟨m, rfl⟩ := Option.isSome_iff_exists.1 there
  simp [Gathered.added]

theorem mem_referencesOf_dropped {known : Option MemberRecord} :
    v ∈ referencesOf (known.map (Gathered.dropped uri)) ↔ v ∈ referencesOf known ∧ v ≠ uri := by
  cases known <;> simp [Gathered.dropped]

/-- **A document changes the files that a member lists at its own URI alone.** -/
theorem mem_referencesOf_applied (keyed : h.ledger.Keyed) (uri : String) (records : List Record) (now : Int64)
    {m : MemberRecord} (read : MemberRecord.ofIdentifier i = .ok m) :
    v ∈ referencesOf ((h.applied uri records now).ledger.member? i) ↔
      v = uri ∧ i ∈ (h.stamped uri records now).memberReferences ∨
        v ∈ referencesOf (records.foldl (declare i) (h.ledger.member? i)) ∧
          ¬ (v = uri ∧ i ∈ Indexer.droppedReferences (h.ledger.file? uri) (h.stamped uri records now)) := by
  rw [member?_applied keyed uri records now read, member?_referred]
  generalize records.foldl (declare i) (h.ledger.member? i) = known
  by_cases refers : i ∈ (h.stamped uri records now).memberReferences
  · have there : (Gathered.orEmpty i known).isSome = true := by
      cases known with
      | some m => rfl
      | none => rw [Gathered.orEmpty, Option.none_or, read]; rfl
    have kept : i ∉ Indexer.droppedReferences (h.ledger.file? uri) (h.stamped uri records now) := fun gone => by
      obtain ⟨f, -, -, left⟩ := mem_droppedReferences.1 gone
      exact left refers
    rw [if_pos refers, mem_referencesOf_added there, referencesOf_orEmpty]
    simp [refers, kept]
  · rw [if_neg refers]
    by_cases gone : i ∈ Indexer.droppedReferences (h.ledger.file? uri) (h.stamped uri records now)
    · rw [if_pos gone, mem_referencesOf_dropped]
      simp [refers, gone]
    · rw [if_neg gone]
      simp [refers, gone]

/-! ## The invariant -/

/-- The URIs of files are their own, and a file is listed by the members that it refers to. -/
structure Linked (site : Site) (h : Holdings) : Prop where
  path : ∀ u f, h.ledger.get? ⟨.file, u⟩ = some (.file f) → f.path = u ∧ Uri.normalize u = u
  listed : ∀ u f i m, h.ledger.get? ⟨.file, u⟩ = some (.file f) → i ∈ f.memberReferences →
    MemberRecord.ofIdentifier i = .ok m → u ∈ referencesOf (h.ledger.member? i)
  normal : ∀ i m, MemberRecord.ofIdentifier i = .ok m → ∀ u ∈ referencesOf (h.ledger.member? i),
    Uri.normalize u = u ∧ site.used u

end Holdings

/-- A document has no record of another file, and its members list URIs in the form in which files are
stored. -/
def Terms.own (site : Site) : Terms where
  extracted uri records := (∀ f, .file f ∈ records → f.path = uri) ∧
    ∀ m, .member m ∈ records → ∀ u ∈ m.references, Uri.normalize u = u ∧ site.used u
  clock _ := True

namespace Holdings.Linked

variable {site : Site} {h h' : Holdings} {uri : String} {records : List Record}

theorem empty (site : Site) : Linked site .empty where
  path _ _ found := by cases found
  listed _ _ _ _ found := by cases found
  normal i m read u member := by
    rw [Ledger.member?_of_ofIdentifier read] at member
    exact absurd member (SortedSet.not_mem_empty u)

/-- Only the files that are stored and the members matter. -/
theorem congr (linked : Linked site h)
    (files : ∀ u f, h'.ledger.get? ⟨.file, u⟩ = some (.file f) → h.ledger.get? ⟨.file, u⟩ = some (.file f))
    (members : ∀ i m, MemberRecord.ofIdentifier i = .ok m → h'.ledger.member? i = h.ledger.member? i) :
    Linked site h' where
  path u f found := linked.path u f (files u f found)
  listed u f i m found refers read := by
    rw [members i m read]
    exact linked.listed u f i m (files u f found) refers read
  normal i m read u member := by
    rw [members i m read] at member
    exact linked.normal i m read u member

/-- No other file is written than the document. -/
theorem get?_applied_otherFile (keyed : h.ledger.Keyed) (normal : Uri.normalize uri = uri)
    (own : ∀ f, .file f ∈ records → f.path = uri) {u : String} (other : u ≠ uri) (now : Int64) :
    (h.applied uri records now).ledger.get? ⟨.file, u⟩ = h.ledger.get? ⟨.file, u⟩ := by
  rw [get?_applied_other normal keyed records now (by simp) (by simpa using other)]
  refine get?_gathered_other fun r member offered same => ?_
  cases r with
  | file f =>
      rw [isOffered, decide_eq_true_eq] at offered
      exact offered (own f member)
  | klass c => cases congrArg RecordKey.recordType same
  | function f => cases congrArg RecordKey.recordType same
  | constant c => cases congrArg RecordKey.recordType same
  | member m => cases congrArg RecordKey.recordType same

theorem applied (linked : Linked site h) (keyed : h.ledger.Keyed) (admits : site.Admits uri records)
    (extracted : (Terms.own site).extracted uri records) (now : Int64) :
    Linked site (h.applied uri records now) := by
  obtain ⟨own, emitted⟩ := extracted
  have self := get?_applied_file admits.normal keyed records now
  have others := fun {u : String} (other : u ≠ uri) => get?_applied_otherFile keyed admits.normal own other now
  constructor
  · intro u f found
    by_cases here : u = uri
    · subst here
      rw [self] at found
      cases found
      exact ⟨path_stamped admits.normal h records now, admits.normal⟩
    · rw [others here] at found
      exact linked.path u f found
  · intro u f i m found refers read
    rw [mem_referencesOf_applied keyed uri records now read]
    by_cases here : u = uri
    · subst here
      rw [self] at found
      cases found
      exact .inl ⟨rfl, refers⟩
    · rw [others here] at found
      refine .inr ⟨mem_referencesOf_declared.2 (.inl ?_), fun gone => here gone.1⟩
      exact linked.listed u f i m found refers read
  · intro i m read u member
    rw [mem_referencesOf_applied keyed uri records now read] at member
    rcases member with ⟨rfl, -⟩ | ⟨member, -⟩
    · exact ⟨admits.normal, admits.document⟩
    · rcases mem_referencesOf_declared.1 member with known | ⟨m', there, -, listed⟩
      · exact linked.normal i m read u known
      · exact emitted m' there u listed

/-- A sweep removes no member: a member hangs on no URI. -/
theorem swept (linked : Linked site h) {removed : List Record}
    (stored : ∀ r ∈ removed, h.ledger.get? r.key = some r ∧ r.sourceUri?.isSome = true) :
    Linked site (h.swept removed) := by
  have ledger : ∀ key, (h.swept removed).ledger.get? key =
      if key ∈ removed.map Record.key then none else h.ledger.get? key := h.ledger.get?_without removed
  refine linked.congr (fun u f found => ?_) fun i m _ => Ledger.member?_congr (fun key isMember => ?_) i
  · rw [ledger] at found
    split at found
    · cases found
    · exact found
  · rw [ledger, if_neg]
    intro gone
    obtain ⟨r, member, rfl⟩ := List.mem_map.1 gone
    have placed := (stored r member).2
    cases r with
    | member m => cases placed
    | file f => cases isMember
    | klass c => cases isMember
    | function f => cases isMember
    | constant c => cases isMember

end Holdings.Linked

/-- **Every step keeps the files listed by the members that they refer to.** -/
theorem Holdings.Reached.linked {site : Site} {h : Holdings} (reached : Reached site (.own site) h) :
    h.Linked site := by
  induction reached with
  | empty => exact .empty site
  | document before admits extracted ticked ih =>
      exact (ih.applied before.keyed admits extracted _).congr (fun _ _ found => found) fun _ _ _ => rfl
  | marked before marks ih => exact ih.congr (fun _ _ found => found) fun _ _ _ => rfl
  | built before time ih => exact ih.congr (fun _ _ found => found) fun _ _ _ => rfl
  | swept before stored ih => exact ih.swept stored
  | reset before ih => exact (Linked.empty site).congr (fun _ _ found => found) fun _ _ _ => rfl

/-! ## The places of use -/

theorem atMost_append {α : Type} (limit : Option Nat) (l more : List α) :
    atMost limit (l ++ more) =
      atMost limit l ++ atMost (limit.map (· - (atMost limit l).length)) more := by
  cases limit with
  | none => rfl
  | some n =>
      have room : n - min n l.length = n - l.length := by omega
      simp [atMost, List.take_append, room]

/-- The places of use in some files, one after the other. -/
theorem run_referencesFrom {get : RecordReader} {enhance : Enhancer} {container : Option String} {i : String}
    {l : Ledger} {uris : List String} {w : World}
    (each : ∀ u ∈ uris, Script.outcome (get (.ofFile u)) w = (.ok (l.get? (.ofFile u)), w))
    (limit : Option Nat) :
    (RecordReader.referencesFrom get enhance container i limit uris).run w =
      ((atMost limit ((uris.filterMap l.file?).flatMap
        (RecordReader.referencesIn enhance container i))).map .ok, w) := by
  induction uris generalizing limit with
  | nil =>
      rw [List.filterMap_nil, List.flatMap_nil, atMost_nil]
      rcases limit with _ | _ | n <;> rfl
  | cons u uris ih =>
      have rest := ih fun u' member => each u' (by simp [member])
      by_cases full : limit = some 0
      · subst full
        simp [RecordReader.referencesFrom, atMost]
      · have asked : Script.run (get (.ofFile u)).run w = (.ok (l.get? (.ofFile u)), w) := each u (by simp)
        have passed : l.file? u = none → List.filterMap l.file? (u :: uris) = List.filterMap l.file? uris :=
          fun missing => by rw [List.filterMap_cons, missing]
        rw [RecordReader.referencesFrom]
        · refine (Script.run_bind_of asked).trans ?_
          cases there : l.get? (.ofFile u) with
          | none => rw [passed (by rw [Ledger.file?, there])]; exact rest limit
          | some r =>
              cases r with
              | file f =>
                  have kept : l.file? u = some f := Ledger.file?_eq_some.2 there
                  rw [List.filterMap_cons, kept, List.flatMap_cons, atMost_append]
                  simp only
                  rw [Script.run_bind_of (rest _), List.map_append]
                  cases limit <;> rfl
              | klass c => rw [passed (by rw [Ledger.file?, there])]; exact rest limit
              | function f => rw [passed (by rw [Ledger.file?, there])]; exact rest limit
              | constant c => rw [passed (by rw [Ledger.file?, there])]; exact rest limit
              | member m => rw [passed (by rw [Ledger.file?, there])]; exact rest limit
        · exact full

/-- The reference that is looked at: what the enhancer makes of a stored one without a container, if a
container is asked for. -/
def FileRecord.meant (f : FileRecord) (enhance : Enhancer) (container : Option String) (r : RecordReference) :
    RecordReference :=
  if container ≠ none ∧ r.containerType = none then enhance f r else r

/-- A place of use tells where a reference of a file stands and how certain it is. -/
structure FileRecord.Tells (f : FileRecord) (enhance : Enhancer) (container : Option String)
    (r : RecordReference) (place : LocationConfidence) : Prop where
  location : place.location = ⟨f.path, (f.meant enhance container r).start, (f.meant enhance container r).stop⟩
  isMaybe : place.confidence = .maybe ↔ (f.meant enhance container r).containerType = none
  isNever : place.confidence = .never ↔ ∃ actual wanted,
    (f.meant enhance container r).containerType = some actual ∧ container = some wanted ∧ actual ≠ wanted

theorem FileRecord.enhanced_eq (f : FileRecord) (enhance : Enhancer) (container : Option String)
    (r : RecordReference) : RecordReader.enhanced enhance container f r = f.meant enhance container r := by
  rw [RecordReader.enhanced, meant]
  cases container <;> cases r.containerType <;> simp

/-- Each reference to a member gives one place, in order. -/
theorem FileRecord.tells_referencesIn (f : FileRecord) (enhance : Enhancer) (container : Option String)
    (i : String) :
    List.Forall₂ (f.Tells enhance container) (f.references.filter (·.pointsTo .member i))
      (RecordReader.referencesIn enhance container i f) := by
  rw [RecordReader.referencesIn, FileRecord.referencesTo, List.forall₂_map_right_iff, List.forall₂_same]
  intro r _
  simp only [enhanced_eq]
  refine ⟨rfl, ?_, ?_⟩
  · cases (f.meant enhance container r).containerType with
    | none => simp [RecordReader.confidence]
    | some actual =>
        cases container with
        | none => simp [RecordReader.confidence]
        | some wanted => by_cases same : actual = wanted <;> simp [RecordReader.confidence, same]
  · cases (f.meant enhance container r).containerType with
    | none => simp [RecordReader.confidence]
    | some actual =>
        cases container with
        | none => simp [RecordReader.confidence]
        | some wanted => by_cases same : actual = wanted <;> simp [RecordReader.confidence, same]

/-- The references of some files to a member, each with its file. -/
def usesIn (i : String) (files : List FileRecord) : List (FileRecord × RecordReference) :=
  files.flatMap fun f => (f.references.filter (·.pointsTo .member i)).map (f, ·)

theorem tells_usesIn (enhance : Enhancer) (container : Option String) (i : String) (files : List FileRecord) :
    List.Forall₂ (fun use place => use.1.Tells enhance container use.2 place) (usesIn i files)
      (files.flatMap (RecordReader.referencesIn enhance container i)) := by
  induction files with
  | nil => exact .nil
  | cons f files ih =>
      rw [usesIn, List.flatMap_cons, List.flatMap_cons]
      refine List.rel_append ?_ ih
      rw [List.forall₂_map_left_iff]
      exact f.tells_referencesIn enhance container i

/-- A reference gives one place. -/
theorem FileRecord.Tells.eq {f : FileRecord} {enhance : Enhancer} {container : Option String} {r : RecordReference}
    {place place' : LocationConfidence} (told : f.Tells enhance container r place)
    (told' : f.Tells enhance container r place') : place = place' := by
  obtain ⟨location, confidence⟩ := place
  obtain ⟨location', confidence'⟩ := place'
  obtain rfl : location = location' := told.location.trans told'.location.symm
  have isMaybe := told.isMaybe.trans told'.isMaybe.symm
  have isNever := told.isNever.trans told'.isNever.symm
  cases confidence <;> cases confidence' <;> simp at isMaybe isNever ⊢

theorem FileRecord.tells_unique {enhance : Enhancer} {container : Option String}
    {uses : List (FileRecord × RecordReference)} {places places' : List LocationConfidence}
    (told : List.Forall₂ (fun use place => use.1.Tells enhance container use.2 place) uses places)
    (told' : List.Forall₂ (fun use place => use.1.Tells enhance container use.2 place) uses places') :
    places = places' := by
  have unique : Relator.RightUnique fun (use : FileRecord × RecordReference) place =>
      use.1.Tells enhance container use.2 place := fun _ _ _ => Tells.eq
  exact unique.forall₂ told told'

/-- Files in the order of their URIs are the same if they are the same in any order. -/
theorem FileRecord.eq_of_ascending {files files' : List FileRecord} (ascending : files.Pairwise (·.path < ·.path))
    (ascending' : files'.Pairwise (·.path < ·.path)) (same : ∀ f, f ∈ files ↔ f ∈ files') : files = files' := by
  have apart : ∀ {f g : FileRecord}, f.path < g.path → f ≠ g := by
    rintro f _ less rfl
    exact String.lt_irrefl _ less
  have perm := (List.perm_ext_iff_of_nodup (ascending.imp apart) (ascending'.imp apart)).2 same
  exact perm.eq_of_pairwise (fun _ _ _ _ less greater => absurd greater (String.lt_asymm less)) ascending ascending'

theorem FileRecord.mem_memberReferences {f : FileRecord} {i : String} :
    i ∈ f.memberReferences ↔ ∃ r ∈ f.references, r.pointsTo .member i = true := by
  rw [memberReferences, SortedSet.mem_ofList, List.mem_map]
  simp only [List.mem_filter, RecordReference.pointsTo, Bool.and_eq_true, beq_iff_eq, and_assoc]

theorem usesIn_filter (i : String) (files : List FileRecord) :
    usesIn i (files.filter (decide <| i ∈ ·.memberReferences)) = usesIn i files := by
  induction files with
  | nil => rfl
  | cons f files ih =>
      rw [List.filter_cons]
      by_cases refers : i ∈ f.memberReferences
      · simp only [refers, decide_true, if_true]
        rw [usesIn, List.flatMap_cons, usesIn, List.flatMap_cons]
        exact congrArg _ ih
      · simp only [refers, decide_false, Bool.false_eq_true, if_false]
        have nothing : f.references.filter (·.pointsTo .member i) = [] := by
          rw [List.filter_eq_nil_iff]
          exact fun r member points => refers (FileRecord.mem_memberReferences.2 ⟨r, member, points⟩)
        rw [ih, usesIn, usesIn, List.flatMap_cons, nothing]
        rfl

/-! ## Queries -/

/-- The files that a member lists, as far as they are stored. -/
def Holdings.filesOf (h : Holdings) (i : String) : List FileRecord :=
  (referencesOf (h.ledger.member? i)).toList.filterMap h.ledger.file?

namespace Holdings.Linked

variable {site : Site} {h : Holdings} {i : String} {m : MemberRecord}

theorem path_of_file? (linked : Linked site h) {u : String} {f : FileRecord} (normal : Uri.normalize u = u)
    (stored : h.ledger.file? u = some f) : f.path = u := by
  have there := Ledger.file?_eq_some.1 stored
  rw [RecordKey.ofFile, normal] at there
  exact (linked.path u f there).1

/-- The files that a member lists come in the order of their URIs. -/
theorem ascending_filesOf (linked : Linked site h) (read : MemberRecord.ofIdentifier i = .ok m) :
    (h.filesOf i).Pairwise (·.path < ·.path) := by
  rw [filesOf, List.pairwise_filterMap]
  refine (referencesOf (h.ledger.member? i)).ascending.imp_of_mem fun {u v} one two less f here g there => ?_
  rw [linked.path_of_file? (linked.normal i m read u one).1 here,
    linked.path_of_file? (linked.normal i m read v two).1 there]
  exact less

/-- Every stored file that refers to a member is among those that it lists. -/
theorem mem_filesOf (linked : Linked site h) (keyed : h.ledger.Keyed)
    (read : MemberRecord.ofIdentifier i = .ok m) {f : FileRecord} (refers : i ∈ f.memberReferences) :
    f ∈ h.filesOf i ↔ h.ledger.get? (Record.file f).key = some (.file f) := by
  rw [filesOf, List.mem_filterMap]
  constructor
  · rintro ⟨u, -, stored⟩
    have there := Ledger.file?_eq_some.1 stored
    rw [keyed _ _ there]
    exact there
  · intro stored
    have listed := linked.listed f.path f i m stored refers read
    refine ⟨f.path, listed, Ledger.file?_eq_some.2 ?_⟩
    rw [RecordKey.ofFile, (linked.path f.path f stored).2]
    exact stored

end Holdings.Linked

namespace Site.Stands

variable {site : Site} {x : Indexer} {h : Holdings} {s : IndexState} {w : World} {kind : MemberType}
  {name : String}

/-- A query looks into the files that the member lists. -/
theorem referencesTo_ok (stands : site.Stands h s w) (at_ : x.At site) (named : name ≠ "")
    (used : site.used (RecordKey.memberIdentifier kind name))
    (listed : ∀ u ∈ referencesOf (h.ledger.member? (RecordKey.memberIdentifier kind name)),
      site.used (Uri.normalize u))
    (enhance : Enhancer) (container : Option String) (limit : Option Nat) :
    Script.outcome (RecordReader.referencesTo (s.buffer.find? x.store) enhance kind name container limit) w =
      (.ok ((atMost limit ((h.filesOf (RecordKey.memberIdentifier kind name)).flatMap
        (RecordReader.referencesIn enhance container (RecordKey.memberIdentifier kind name)))).map .ok), w) := by
  have read := @MemberRecord.ofIdentifier_identifier kind name named
  have legible := legible_of_parseMember (RecordKey.parseMember_eq_ok.2 ⟨rfl, named⟩ :
    RecordKey.parseMember (RecordKey.memberIdentifier kind name) = .ok (kind, name))
  have asked : Script.outcome (RecordReader.member? (s.buffer.find? x.store) kind name) w =
      (.ok (h.ledger.member? (RecordKey.memberIdentifier kind name)), w) := by
    have found := stands.records.find?_ok (.ofMember kind name) used legible
    rw [← at_.store] at found
    have key : RecordKey.ofMember kind name = ⟨.member, RecordKey.memberIdentifier kind name⟩ := rfl
    rw [RecordReader.member?, Script.outcome_bind_ok found, Ledger.member?_of_ofIdentifier read, key]
    rcases h.ledger.get? ⟨.member, RecordKey.memberIdentifier kind name⟩ with _ | ⟨_ | _ | _ | _ | _⟩ <;> rfl
  rw [RecordReader.referencesTo, Script.outcome_bind_ok asked, Holdings.filesOf]
  cases known : h.ledger.member? (RecordKey.memberIdentifier kind name) with
  | none =>
      rw [Ledger.referencesOf_none]
      simp [SortedSet.empty, atMost_nil]
  | some m =>
      have each : ∀ u ∈ m.references.toList,
          Script.outcome (s.buffer.find? x.store (.ofFile u)) w = (.ok (h.ledger.get? (.ofFile u)), w) := by
        intro u member
        have found := stands.records.find?_ok (.ofFile u) (listed u (by rw [known]; exact member))
          (legible_ofFile u)
        rwa [← at_.store] at found
      simp only
      rw [Script.outcome_lift, run_referencesFrom each, Ledger.referencesOf_some]

end Site.Stands

namespace History

variable {x : Indexer} {c : IndexConfig} {site : Site} {s : IndexState} {w : World}

/-- **A query for the uses of a member answers exactly the references to it of the stored files**, file by
file in the order of their URIs and reference by reference, as long as no document has a record of another
file and no member lists a URI in another form than files are stored under. -/
theorem references_exact (history : History x c site (.own site) s w) (made : x.Made c site)
    {kind : MemberType} {name : String} (named : name ≠ "")
    (used : site.used (RecordKey.memberIdentifier kind name)) (enhance : Enhancer) (container : Option String) :
    ∃ (files : List FileRecord) (places : List LocationConfidence),
      files.Pairwise (·.path < ·.path) ∧
      (∀ f, f ∈ files ↔ site.used (Uri.normalize f.path) ∧
        outcome (x.file? f.path) s w = (.ok (some f), s, w) ∧
        ∃ r ∈ f.references, r.pointsTo .member (RecordKey.memberIdentifier kind name) = true) ∧
      List.Forall₂ (fun use place => use.1.Tells enhance container use.2 place)
        (usesIn (RecordKey.memberIdentifier kind name) files) places ∧
      ∀ limit, Script.outcome
          (RecordReader.referencesTo (s.buffer.find? x.store) enhance kind name container limit) w =
        (.ok ((atMost limit places).map .ok), w) := by
  obtain ⟨h, stands, reached⟩ := history.stands made
  have at_ := made.at_
  have linked := reached.linked
  have read := @MemberRecord.ofIdentifier_identifier kind name named
  refine ⟨(h.filesOf (RecordKey.memberIdentifier kind name)).filter
    (decide <| RecordKey.memberIdentifier kind name ∈ ·.memberReferences), _, ?_, fun f => ?_, ?_,
    stands.referencesTo_ok at_ named used (fun u member => ?_) enhance container⟩
  · exact (linked.ascending_filesOf read).filter _
  · rw [List.mem_filter, decide_eq_true_eq, ← FileRecord.mem_memberReferences]
    constructor
    · rintro ⟨listed, refers⟩
      have stored := (linked.mem_filesOf reached.keyed read refers).1 listed
      have normal := (linked.path f.path f stored).2
      have uses : site.used (Uri.normalize f.path) := by
        rw [normal]
        exact stands.uses _ _ stored f.path (by simp [Record.identifiers])
      refine ⟨uses, ?_, refers⟩
      rw [stands.file?_ok at_ uses, Ledger.file?_eq_some.2 (by rw [RecordKey.ofFile, normal]; exact stored)]
    · rintro ⟨uses, found, refers⟩
      rw [stands.file?_ok at_ uses] at found
      have stored := Ledger.file?_eq_some.1 (show h.ledger.file? f.path = some f by simpa using found)
      have normal := (linked.path _ f stored).1
      rw [RecordKey.ofFile, ← normal] at stored
      exact ⟨(linked.mem_filesOf reached.keyed read refers).2 stored, refers⟩
  · rw [usesIn_filter]
    exact tells_usesIn enhance container _ _
  · obtain ⟨normal, used⟩ := linked.normal _ _ read u member
    rwa [normal]

/-! ### Poles -/

def sampleReference : RecordReference := ⟨.member, "method#m", 3, 4, none, 0⟩

/-- A file that refers to a method once. -/
def sampleFile : FileRecord := { path := "file:///a.php", references := [sampleReference] }

/-- Another file, with a reference to another method and two to this one, whose containers are known. -/
def sampleSecond : FileRecord where
  path := "file:///b.php"
  references := [⟨.member, "method#n", 1, 2, none, 0⟩, ⟨.member, "method#m", 9, 2, some "C", 0⟩,
    ⟨.member, "method#m", 12, 2, some "D", 0⟩]

/-- Documents with the references of one file or the other, and documents without. -/
def sampleUses : Extractor := fun document =>
  if document.text = "uses" then some [.file { sampleFile with path := document.uri }]
  else if document.text = "more" then some [.file { sampleSecond with path := document.uri }]
  else some []

/-- What is held once the second file is indexed, and the first one after it. -/
def sampleUsed : Holdings :=
  let second := (Holdings.empty.applied "file:///b.php" [.file sampleSecond] (max 0 5)).cleared "file:///b.php"
  (second.applied "file:///a.php" [.file sampleFile] (max 0 6)).cleared "file:///a.php"

theorem normal_samplePath : Uri.normalize "file:///a.php" = "file:///a.php" := by decide +kernel

theorem sampleUsed_comes {terms : Terms} (second : terms.extracted "file:///b.php" [.file sampleSecond])
    (first : terms.extracted "file:///a.php" [.file sampleFile]) (ticked : ∀ time, terms.clock time) :
    Comes sampleUses terms sampleUsed := by
  have comes := (Comes.start sampleUses terms).document ⟨"file:///b.php", ⟨[]⟩, "more"⟩ (by rfl)
    (by decide +kernel) second 5 (ticked 5)
  exact comes.document ⟨"file:///a.php", ⟨[]⟩, "uses"⟩ (by rfl) normal_samplePath first 6 (ticked 6)

/-- The files that are stored by then. -/
theorem sampleUsed_file? {f : FileRecord} : sampleUsed.ledger.file? f.path = some f ↔
    f ∈ [{ sampleFile with lastIndexed := some 6 }, { sampleSecond with lastIndexed := some 5 }] := by
  constructor
  · intro found
    have listed := SortedMap.mem_toList.2 (Ledger.file?_eq_some.1 found)
    have all : ∀ e ∈ sampleUsed.ledger.records.toList, e.2.recordType = .file →
        e.2 = .file { sampleFile with lastIndexed := some 6 } ∨
          e.2 = .file { sampleSecond with lastIndexed := some 5 } := by decide +kernel
    simpa using all _ listed rfl
  · intro member
    have each : sampleUsed.ledger.file? "file:///a.php" = some { sampleFile with lastIndexed := some 6 } ∧
        sampleUsed.ledger.file? "file:///b.php" = some { sampleSecond with lastIndexed := some 5 } := by
      decide +kernel
    rcases List.mem_cons.1 member with rfl | member
    · exact each.1
    · obtain rfl := List.mem_singleton.1 member
      exact each.2

/-- Two files are indexed, and the references to a method are answered by file and by place. -/
theorem sample_references_exact :
    ∃ s w, History (smallIndexer sampleUses) smallConfig smallSite (.own smallSite) s w ∧ "m" ≠ "" ∧
      ∀ limit, Script.outcome (RecordReader.referencesTo (s.buffer.find? (smallIndexer sampleUses).store)
          (fun _ r => r) .method "m" (some "C") limit) w =
        (.ok ((atMost limit [⟨⟨"file:///a.php", 3, 4⟩, .maybe⟩, ⟨⟨"file:///b.php", 9, 2⟩, .surely⟩,
          ⟨⟨"file:///b.php", 12, 2⟩, .never⟩]).map .ok), w) := by
  have made := smallIndexer_made sampleUses
  have named : "m" ≠ "" := by decide
  have second : (Terms.own smallSite).extracted "file:///b.php" [.file sampleSecond] :=
    ⟨by simp [sampleSecond], by simp⟩
  have first : (Terms.own smallSite).extracted "file:///a.php" [.file sampleFile] := ⟨by simp [sampleFile], by simp⟩
  obtain ⟨s, w, history, stands, -⟩ := sampleUsed_comes second first fun _ => trivial
  have used : smallSite.used (RecordKey.memberIdentifier .method "m") := trivial
  obtain ⟨files, places, ascending, listed, told, answered⟩ :=
    references_exact history made named used (fun _ r => r) (some "C")
  have stored : ∀ f, f ∈ files ↔
      f ∈ [{ sampleFile with lastIndexed := some 6 }, { sampleSecond with lastIndexed := some 5 }] := by
    have refers : ∀ f ∈ [{ sampleFile with lastIndexed := some 6 }, { sampleSecond with lastIndexed := some 5 }],
        ∃ r ∈ f.references, r.pointsTo .member (RecordKey.memberIdentifier .method "m") = true := by
      decide +kernel
    intro f
    rw [listed f, ← sampleUsed_file?, stands.file?_ok made.at_ trivial]
    exact ⟨fun given => by simpa using given.2.1,
      fun found => ⟨trivial, by rw [found], refers f (sampleUsed_file?.1 found)⟩⟩
  have order : [{ sampleFile with lastIndexed := some 6 }, { sampleSecond with lastIndexed := some 5 }].Pairwise
      (·.path < ·.path) := by
    simp only [List.pairwise_cons, List.mem_singleton, forall_eq, List.not_mem_nil, false_implies,
      implies_true, List.Pairwise.nil, and_true]
    decide +kernel
  obtain rfl := FileRecord.eq_of_ascending ascending order stored
  obtain rfl := FileRecord.tells_unique told (tells_usesIn (fun _ r => r) (some "C") "method#m" _)
  exact ⟨s, w, history, named, answered⟩

/-- A document has no record of another file. -/
def noOtherFile : Terms where
  extracted uri records := ∀ f, .file f ∈ records → f.path = uri
  clock _ := True

/-- The method, declared as one that is used at the path of the file that uses it. -/
def sampleMember : MemberRecord :=
  { memberType := .method, memberName := "m", references := .ofList ["/a.php"] }

def sampleAlias : Extractor := fun _ => some [.member sampleMember, .file sampleFile]

def sampleAliased : Holdings :=
  (Holdings.empty.applied "file:///a.php" [.member sampleMember, .file sampleFile] (max 0 5)).cleared
    "file:///a.php"

/-- The path and the URI are two texts for one file, and each is answered for. -/
theorem alias_listed_twice :
    ∃ s w, History (smallIndexer sampleAlias) smallConfig smallSite noOtherFile s w ∧
      (∀ f : FileRecord, outcome ((smallIndexer sampleAlias).file? f.path) s w = (.ok (some f), s, w) ↔
        f = { sampleFile with lastIndexed := some 5 }) ∧
      sampleFile.references.length = 1 ∧
      Script.outcome (RecordReader.referencesTo (s.buffer.find? (smallIndexer sampleAlias).store)
          (fun _ r => r) .method "m" none none) w =
        (.ok [.ok ⟨⟨"file:///a.php", 3, 4⟩, .maybe⟩, .ok ⟨⟨"file:///a.php", 3, 4⟩, .maybe⟩], w) := by
  have made := smallIndexer_made sampleAlias
  have own : ∀ f, .file f ∈ [Record.member sampleMember, .file sampleFile] → f.path = "file:///a.php" := by
    simp [sampleFile]
  have comes : Comes sampleAlias noOtherFile sampleAliased := (Comes.start sampleAlias noOtherFile).document
    ⟨"file:///a.php", ⟨[]⟩, ""⟩ (by rfl) normal_samplePath own 5 trivial
  obtain ⟨s, w, history, stands, -⟩ := comes
  have stored : ∀ u f, sampleAliased.ledger.file? u = some f → f = { sampleFile with lastIndexed := some 5 } := by
    intro u f found
    have listed := SortedMap.mem_toList.2 (Ledger.file?_eq_some.1 found)
    have all : ∀ e ∈ sampleAliased.ledger.records.toList, e.2.recordType = .file →
        e.2 = .file { sampleFile with lastIndexed := some 5 } := by decide +kernel
    simpa using all _ listed rfl
  have named : "m" ≠ "" := by decide
  have used : smallSite.used (RecordKey.memberIdentifier .method "m") := trivial
  have answers := stands.referencesTo_ok made.at_ named used (fun _ _ => trivial) (fun _ r => r) none none
  refine ⟨s, w, history, fun f => ⟨fun found => ?_, ?_⟩, rfl, ?_⟩
  · rw [stands.file?_ok made.at_ trivial] at found
    exact stored f.path f (by simpa using found)
  · rintro rfl
    show outcome ((smallIndexer sampleAlias).file? "file:///a.php") s w = _
    have there : sampleAliased.ledger.file? "file:///a.php" = some { sampleFile with lastIndexed := some 5 } := by
      decide +kernel
    rw [stands.file?_ok made.at_ trivial, there]
  · rw [answers]
    have places : (sampleAliased.filesOf "method#m").flatMap
        (RecordReader.referencesIn (fun _ r => r) none "method#m") =
          [⟨⟨"file:///a.php", 3, 4⟩, .maybe⟩, ⟨⟨"file:///a.php", 3, 4⟩, .maybe⟩] := by decide +kernel
    rw [show RecordKey.memberIdentifier .method "m" = "method#m" by decide +kernel, places]
    rfl

/-- **Indexing a document changes the files that a member lists at the URI of the document alone.** It is
listed afterwards if the document refers to the member, and also if it was listed although no record of the
document was stored that refers to the member: such a reference is never taken back. -/
theorem references_reindexed {terms : Terms} (history : History x c site terms s w) (made : x.Made c site)
    {document : TextDocument} {records : List Record} (gave : x.extract document = some records)
    (admits : site.Admits document.uri records)
    (bare : ∀ m, .member m ∈ records → m.references = .empty) {stats stats' : IndexStats} {s' : IndexState}
    {w' : World} (done : outcome (x.indexDocument stats document) s w = (.ok stats', s', w'))
    {kind : MemberType} {name : String} (named : name ≠ "")
    (used : site.used (RecordKey.memberIdentifier kind name)) :
    ∃ (before after : Option MemberRecord) (previous : Option FileRecord) (file : FileRecord),
      outcome (x.member? {} (RecordKey.memberIdentifier kind name)) s w = (.ok before, s, w) ∧
      outcome (x.member? {} (RecordKey.memberIdentifier kind name)) s' w' = (.ok after, s', w') ∧
      outcome (x.file? document.uri) s w = (.ok previous, s, w) ∧
      outcome (x.file? document.uri) s' w' = (.ok (some file), s', w') ∧
      (document.uri ∈ referencesOf after ↔
        (∃ r ∈ file.references, r.pointsTo .member (RecordKey.memberIdentifier kind name) = true) ∨
          document.uri ∈ referencesOf before ∧
            ¬ ∃ f, previous = some f ∧
              ∃ r ∈ f.references, r.pointsTo .member (RecordKey.memberIdentifier kind name) = true) ∧
      ∀ u, u ≠ document.uri → (u ∈ referencesOf after ↔ u ∈ referencesOf before) := by
  obtain ⟨h, stands, reached⟩ := history.stands made
  have at_ := made.at_
  have keyed := reached.keyed
  have read := @MemberRecord.ofIdentifier_identifier kind name named
  obtain ⟨s₁, w₁, done₁, stands₁, -⟩ := stands.indexDocument_ok at_ gave admits stats
  obtain ⟨-, rfl, rfl⟩ := agree done done₁
  have there : site.used (Uri.normalize document.uri) := by
    rw [admits.normal]
    exact admits.document
  have stored : ((h.applied document.uri records (max 0 w.clock)).cleared document.uri).ledger.file?
      document.uri = some (h.stamped document.uri records (max 0 w.clock)) := by
    refine Ledger.file?_eq_some.2 ?_
    rw [RecordKey.ofFile, admits.normal]
    exact Holdings.get?_applied_file admits.normal keyed records _
  have declared : ∀ {u}, u ∈ referencesOf (records.foldl (Holdings.declare (RecordKey.memberIdentifier kind name))
      (h.ledger.member? (RecordKey.memberIdentifier kind name))) ↔
        u ∈ referencesOf (h.ledger.member? (RecordKey.memberIdentifier kind name)) := by
    intro u
    rw [Holdings.mem_referencesOf_declared, or_iff_left]
    rintro ⟨m, member, -, listed⟩
    rw [bare m member] at listed
    exact SortedSet.not_mem_empty u listed
  refine ⟨_, _, _, _, stands.member?_ok at_ used {}, stands₁.member?_ok at_ used {}, stands.file?_ok at_ there,
    by rw [stands₁.file?_ok at_ there, stored], ?_, fun u other => ?_⟩
  · simp only [← FileRecord.mem_memberReferences]
    show document.uri ∈ referencesOf ((h.applied document.uri records _).ledger.member? _) ↔ _
    rw [Holdings.mem_referencesOf_applied keyed _ _ _ read, declared, Holdings.mem_droppedReferences]
    by_cases refers : RecordKey.memberIdentifier kind name ∈
      (h.stamped document.uri records (max 0 w.clock)).memberReferences
    · simp [refers]
    · simp only [refers, true_and, false_or, not_false_eq_true, and_true]
      exact Iff.rfl
  · show u ∈ referencesOf ((h.applied document.uri records _).ledger.member? _) ↔ _
    rw [Holdings.mem_referencesOf_applied keyed _ _ _ read, declared]
    simp only [other, false_and, false_or, not_false_eq_true, and_true]
    exact Iff.rfl

/-- The file no longer refers to the method, and the method no longer lists it. -/
theorem sample_references_reindexed :
    ∃ s w stats s' w', History (smallIndexer sampleUses) smallConfig smallSite noOtherFile s w ∧
      sampleUses ⟨"file:///a.php", ⟨[]⟩, "unrelated"⟩ = some [] ∧ "m" ≠ "" ∧
      outcome ((smallIndexer sampleUses).indexDocument {} ⟨"file:///a.php", ⟨[]⟩, "unrelated"⟩) s w =
        (.ok stats, s', w') ∧
      ∃ before after : Option MemberRecord,
        outcome ((smallIndexer sampleUses).member? {} "method#m") s w = (.ok before, s, w) ∧
        outcome ((smallIndexer sampleUses).member? {} "method#m") s' w' = (.ok after, s', w') ∧
        "file:///a.php" ∈ referencesOf before ∧ "file:///a.php" ∉ referencesOf after := by
  have made := smallIndexer_made sampleUses
  have named : "m" ≠ "" := by decide
  have gave : (smallIndexer sampleUses).extract ⟨"file:///a.php", ⟨[]⟩, "unrelated"⟩ = some [] := rfl
  have admits := smallSite_admits normal_samplePath []
  have used : smallSite.used (RecordKey.memberIdentifier .method "m") := trivial
  have second : noOtherFile.extracted "file:///b.php" [.file sampleSecond] := by simp [noOtherFile, sampleSecond]
  have first : noOtherFile.extracted "file:///a.php" [.file sampleFile] := by simp [noOtherFile, sampleFile]
  obtain ⟨s, w, history, stands, -⟩ := sampleUsed_comes second first fun _ => trivial
  obtain ⟨s', w', done, stands', -⟩ := stands.indexDocument_ok made.at_ gave admits {}
  obtain ⟨before, after, previous, file, known, left, stored, new, listed, -⟩ :=
    references_reindexed history made gave admits (by simp) done named used
  obtain ⟨rfl, -⟩ := agree known (stands.member?_ok made.at_ used {})
  obtain ⟨rfl, -⟩ := agree stored (stands.file?_ok made.at_ trivial)
  obtain ⟨same, -⟩ := agree new (stands'.file?_ok made.at_ trivial)
  refine ⟨s, w, _, s', w', history, rfl, named, done, _, after, known, left, by decide +kernel, ?_⟩
  have written := Holdings.get?_applied_file normal_samplePath stands.records.keyed [] (max 0 w.clock)
  obtain rfl : file = sampleUsed.stamped "file:///a.php" [] (max 0 w.clock) := by
    have there : some file = some (sampleUsed.stamped "file:///a.php" [] (max 0 w.clock)) :=
      same.trans (Ledger.file?_eq_some.2 (by rwa [RecordKey.ofFile, normal_samplePath]))
    exact Option.some.inj there
  rw [listed, not_or]
  refine ⟨?_, fun stale => stale.2 ⟨{ sampleFile with lastIndexed := some 6 }, by decide +kernel,
    by decide +kernel⟩⟩
  rintro ⟨r, member, -⟩
  exact List.not_mem_nil (show r ∈ [] from member)

end History

end SymbolIndex
