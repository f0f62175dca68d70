import SymbolIndex.Proofs.Index.References

/-!
# Proofs.Index.Replay — the same documents once more

A pass is a row of documents, and what it does to one part of the holdings — the record and the entry of one
symbol, the record of one file, a member without the files that it lists — it does by steps that each leave the
part as it is, set it, or set it as long as nothing firm is there (`Layer`). Such steps add up to one of the
same kind, and doing that twice is doing it once (`Pass.view_again`): the last definition of a symbol wins in
either pass, and where there is none, the last placeholder does unless something was defined before.

The files that a member lists are no such part, for what a document takes back hangs on its stored record. Here
the second pass finds every document as the first one stored it (`Pass.settled`), so there is nothing to take
back, and what is to be added is there (`Pass.references_again`). Together they give `Pass.again`.
-/

namespace SymbolIndex

open Ledger (referencesOf)
open SearchEntry (ofRecord? ofRecord?_eq_some)

set_option autoImplicit false

/-! ## Layers -/

/-- A way to change a value, with the values that it may set and those that it may offer: it is kept, it is set, or
it is set unless it is firm already. -/
inductive Layer {α : Type} (firm : α → Bool) (sets offers : α → Prop) : (α → α) → Prop where
  | keep : Layer firm sets offers id
  | set (a : α) (own : sets a) : Layer firm sets offers fun _ => a
  | offer (a : α) (own : offers a) : Layer firm sets offers fun b => if firm b then b else a

/-- A layer that sets what is firm, and offers anything. -/
abbrev Overlay {α : Type} (firm : α → Bool) (f : α → α) : Prop :=
  Layer firm (fun a => firm a = true) (fun _ => True) f

namespace Layer

variable {α β : Type} {firm : α → Bool} {sets offers sets' offers' : α → Prop} {f g : α → α}

theorem mono (layer : Layer firm sets offers f) (set_ : ∀ a, sets a → sets' a)
    (offer_ : ∀ a, offers a → offers' a) : Layer firm sets' offers' f := by
  cases layer with
  | keep => exact .keep
  | set a own => exact .set a (set_ a own)
  | offer a own => exact .offer a (offer_ a own)

/-- One layer over the other is a layer. -/
theorem after (hard : ∀ a, sets a → firm a = true) (second : Layer firm sets offers g)
    (first : Layer firm sets offers f) : Layer firm sets offers fun a => g (f a) := by
  cases second with
  | keep => exact first
  | set a own => exact .set a own
  | offer a own =>
      cases first with
      | keep => exact .offer a own
      | set b own' =>
          simp only [hard b own', if_true]
          exact .set b own'
      | offer b own' =>
          cases there : firm b with
          | true =>
              have joined : (fun c => if firm (if firm c then c else b) then (if firm c then c else b) else a) =
                  fun c => if firm c then c else b := by
                funext c
                by_cases here : firm c = true <;> simp [here, there]
              rw [joined]
              exact .offer b own'
          | false =>
              have joined : (fun c => if firm (if firm c then c else b) then (if firm c then c else b) else a) =
                  fun c => if firm c then c else a := by
                funext c
                by_cases here : firm c = true <;> simp [here, there]
              rw [joined]
              exact .offer a own

theorem foldl {step : α → β → α} {l : List β} (hard : ∀ a, sets a → firm a = true)
    (each : ∀ b ∈ l, Layer firm sets offers (step · b)) : Layer firm sets offers fun a => l.foldl step a := by
  induction l with
  | nil => exact .keep
  | cons b l ih => exact (ih fun b' member => each b' (by simp [member])).after hard (each b (by simp))

/-- Doing it twice is doing it once. -/
theorem twice (layer : Layer firm sets offers f) (a : α) : f (f a) = f a := by
  cases layer with
  | keep => rfl
  | set b => rfl
  | offer b => by_cases there : firm a = true <;> simp [there]

theorem overlay (hard : ∀ a, sets a → firm a = true) (layer : Layer firm sets offers f) : Overlay firm f :=
  layer.mono hard fun _ _ => trivial

end Layer

/-- A stamp is no earlier than the clock. -/
theorem Freshness.le_nextStamp (now : Int64) (previous : Option Int64) : now ≤ nextStamp now previous := by
  cases previous with
  | none => exact Int64.le_refl now
  | some stamp =>
      show now ≤ if now ≤ stamp + 1 then stamp + 1 else now
      split
      · assumption
      · exact Int64.le_refl now

/-! ## Passes -/

/-- The documents among the findings of a pass, each as its URI and its records. -/
def documents (findings : List Finding) : List (String × List Record) :=
  findings.filterMap fun p => p.2.map (p.1.uri, ·)

theorem documents_failed (c : Candidate) (rest : List Finding) : documents ((c, none) :: rest) = documents rest := rfl

theorem documents_applied (c : Candidate) (records : List Record) (rest : List Finding) :
    documents ((c, some records) :: rest) = (c.uri, records) :: documents rest := rfl

/-- A document has no record of another file, and its members list no files. -/
structure Bare (uri : String) (records : List Record) : Prop where
  own : ∀ f, .file f ∈ records → f.path = uri
  members : ∀ m, .member m ∈ records → m.references = .empty

/-- The records and the entries are the same, whatever the marks and the time of the last build. -/
structure Holdings.Same (h h' : Holdings) : Prop where
  records : h'.ledger.records = h.ledger.records
  catalog : h'.catalog = h.catalog

theorem Holdings.Same.get? {h h' : Holdings} (same : h.Same h') (key : RecordKey) :
    h'.ledger.get? key = h.ledger.get? key := by
  rw [Ledger.get?, Ledger.get?, same.records]

/-- A way to look at the records and the entries, and what one document does to what is seen. -/
structure View (site : Site) (α : Type) where
  see : Holdings → α
  step : α → String × List Record → α
  congr : ∀ {h h' : Holdings}, h.Same h' → see h' = see h
  document : ∀ (h : Holdings) (uri : String) (records : List Record) (now : Int64), h.ledger.Keyed →
    site.Admits uri records → Bare uri records →
      see (h.applied uri records now) = step (see h) (uri, records)

section Views

variable {site : Site} {terms : Terms} {findings : List Finding} {a b c : IndexStats × Holdings} {α : Type}
  (bare : ∀ uri records, terms.extracted uri records → Bare uri records)

include bare

/-- What a pass does to what is seen is what its documents do. -/
theorem Pass.view (pass : Pass site terms findings a b) (keyed : a.2.ledger.Keyed) (view : View site α) :
    view.see b.2 = (documents findings).foldl view.step (view.see a.2) := by
  induction pass with
  | done => rfl
  | @failed c rest stats h b marks grown onward ih =>
      have marked : h.Same { h with marks := marks } := ⟨rfl, rfl⟩
      rw [documents_failed, ih keyed, view.congr marked]
  | @applied c records rest stats h b time admits extracted ticked onward ih =>
      have cleared : h.applied c.uri records (max 0 time) |>.Same
          ((h.applied c.uri records (max 0 time)).cleared c.uri) := ⟨rfl, rfl⟩
      rw [documents_applied, List.foldl_cons, ih (Holdings.keyed_applied keyed _ _ _), view.congr cleared,
        view.document h c.uri records _ keyed admits (bare _ _ extracted)]

/-- A second pass over the same findings changes nothing of what is seen, if each document overlays it. -/
theorem Pass.view_again {firm : α → Bool} (one : Pass site terms findings a b) {stats : IndexStats}
    {h : Holdings} (same : b.2.Same h) (two : Pass site terms findings (stats, h) c) (keyed : a.2.ledger.Keyed)
    (keyed' : h.ledger.Keyed) (view : View site α)
    (overlay : ∀ d ∈ documents findings, Overlay firm (view.step · d)) : view.see c.2 = view.see b.2 := by
  rw [two.view bare keyed' view, view.congr same, one.view bare keyed view]
  exact (Layer.foldl (fun _ hard => hard) overlay).twice _

end Views

/-! ## Symbols -/

/-- A record defines the symbol of a key: it has a location, and a class has a type besides. -/
def Record.Defines (r : Record) (key : RecordKey) : Prop :=
  r.key = key ∧ r.isPlaceholder = false ∧ r.isSpeculative = false

instance (r : Record) (key : RecordKey) : Decidable (r.Defines key) := inferInstanceAs (Decidable (_ ∧ _ ∧ _))

/-- A record mentions the symbol of a key: it has no location, and a class has a type. -/
def Record.Mentions (r : Record) (key : RecordKey) : Prop :=
  r.key = key ∧ r.isPlaceholder = true ∧ r.isSpeculative = false

instance (r : Record) (key : RecordKey) : Decidable (r.Mentions key) := inferInstanceAs (Decidable (_ ∧ _ ∧ _))

namespace Holdings

variable {h : Holdings} {key : RecordKey} {uri i : String} {records : List Record}

/-- The record and the entry of a key. -/
def sight (key : RecordKey) (h : Holdings) : Option Record × Option SearchEntry :=
  (h.ledger.get? key, h.catalog.get? key)

/-- Whether a definition is in sight. -/
def isFirm (a : Option Record × Option SearchEntry) : Bool := a.1.any (fun stored => !stored.isPlaceholder)

/-- What taking in a record does to the record and the entry of a key. -/
def overlaid (key : RecordKey) (a : Option Record × Option SearchEntry) (r : Record) :
    Option Record × Option SearchEntry :=
  if r.key ≠ key ∨ r.isSpeculative = true then a
  else if r.isPlaceholder && isFirm a then a else (some r, ofRecord? r)

/-- The record and the entry that a record of a symbol gives. -/
def shown (r : Record) : Option Record × Option SearchEntry := (some r, ofRecord? r)

/-- What some records may set in sight of a symbol. -/
def Defined (key : RecordKey) (records : List Record) (a : Option Record × Option SearchEntry) : Prop :=
  ∃ r ∈ records, r.Defines key ∧ a = shown r

/-- What some records may offer in sight of a symbol. -/
def Mentioned (key : RecordKey) (records : List Record) (a : Option Record × Option SearchEntry) : Prop :=
  ∃ r ∈ records, r.Mentions key ∧ a = shown r

theorem isFirm_of_defined (a : Option Record × Option SearchEntry) (defined : Defined key records a) :
    isFirm a = true := by
  obtain ⟨r, -, defines, rfl⟩ := defined
  simp [isFirm, shown, defines.2.1]

theorem layer_overlaid {r : Record} (member : r ∈ records) :
    Layer isFirm (Defined key records) (Mentioned key records) (overlaid key · r) := by
  by_cases apart : r.key ≠ key ∨ r.isSpeculative = true
  · rw [show (overlaid key · r) = id by funext a; rw [overlaid, if_pos apart]; rfl]
    exact .keep
  · have own := apart
    rw [not_or, not_not, Bool.not_eq_true] at own
    cases placeholder : r.isPlaceholder with
    | false =>
        rw [show (overlaid key · r) = fun _ => shown r by
          funext a; simp [overlaid, if_neg apart, placeholder, shown]]
        exact .set _ ⟨r, member, ⟨own.1, placeholder, own.2⟩, rfl⟩
    | true =>
        rw [show (overlaid key · r) = fun a => if isFirm a then a else shown r by
          funext a; simp [overlaid, if_neg apart, placeholder, shown]]
        exact .offer _ ⟨r, member, ⟨own.1, placeholder, own.2⟩, rfl⟩

theorem sight_take (searchable : key.recordType.isSearchable = true) (h : Holdings) (r : Record) :
    sight key (h.take r) = overlaid key (sight key h) r := by
  have catalog : ∀ key, (h.write r).catalog.get? key =
      if r.key = key then (ofRecord? r).or (h.catalog.get? key) else h.catalog.get? key :=
    Catalog.get?_write h.catalog r
  by_cases other : r.key = key
  · subst other
    by_cases speculative : r.isSpeculative = true
    · have projected : ofRecord? r = none := by simp [ofRecord?, speculative]
      have ledger : (h.write r).ledger = h.ledger := Ledger.write_speculative speculative
      rw [overlaid, if_pos (.inr speculative), take]
      split
      · rfl
      · rw [sight, catalog, if_pos rfl, projected, ledger, Option.none_or]
        rfl
    · have firm : r.isSpeculative = false := by simpa using speculative
      have projected : ofRecord? r = some ⟨r.recordType, r.identifier, r.classType?, r.flags?.getD 0⟩ :=
        ofRecord?_eq_some.2 ⟨searchable, firm, rfl⟩
      have ledger : (h.write r).ledger.get? r.key = some r := (Ledger.get?_write firm _).trans (if_pos rfl)
      have written : sight r.key (h.write r) = (some r, ofRecord? r) := by
        rw [sight, ledger, catalog, if_pos rfl, projected, Option.some_or]
      have same : isFirm (sight r.key h) = h.ledger.isDefined r.key := rfl
      rw [overlaid, if_neg (by simp [speculative]), take, same]
      split
      · rfl
      · exact written
  · rw [overlaid, if_pos (.inl other), sight, get?_take_other other, take]
    split
    · rfl
    · rw [catalog, if_neg other]
      rfl

theorem sight_takeAll (searchable : key.recordType.isSearchable = true) (h : Holdings) (rs : List Record) :
    sight key (rs.foldl take h) = rs.foldl (overlaid key) (sight key h) := by
  induction rs generalizing h with
  | nil => rfl
  | cons r rs ih => exact (ih _).trans (by rw [sight_take searchable, List.foldl_cons])

/-- What a document does to the record and the entry of a symbol. -/
theorem sight_applied (searchable : key.recordType.isSearchable = true) (normal : Uri.normalize uri = uri)
    (keyed : h.ledger.Keyed) (records : List Record) (now : Int64) :
    sight key (h.applied uri records now) =
      (records.filter (isOffered uri)).foldl (overlaid key) (sight key h) := by
  have member : key.recordType ≠ .member := fun same => by rw [same] at searchable; cases searchable
  have file : key ≠ ⟨.file, uri⟩ := fun same => by rw [same] at searchable; cases searchable
  rw [sight, get?_applied_other normal keyed records now member file, ← sight_takeAll searchable, ← fst_gathered]
  rfl

/-- The record and the entry of a symbol. -/
def symbolView (site : Site) (searchable : key.recordType.isSearchable = true) :
    View site (Option Record × Option SearchEntry) where
  see := sight key
  step a d := (d.2.filter (isOffered d.1)).foldl (overlaid key) a
  congr same := by rw [sight, sight, same.get?, same.catalog]
  document _ _ records now keyed admits _ := sight_applied searchable admits.normal keyed records now

/-- What a document does to a symbol. -/
theorem layer_symbolView {site : Site} (searchable : key.recordType.isSearchable = true)
    (d : String × List Record) :
    Layer isFirm (Defined key d.2) (Mentioned key d.2) ((symbolView site searchable).step · d) :=
  .foldl isFirm_of_defined fun _ member => layer_overlaid (List.mem_filter.1 member).1

/-! ## Files -/

/-- The record that a document has for itself, not stamped yet. -/
def ownRecord (uri : String) (records : List Record) : FileRecord :=
  (records.foldl (fun known r =>
    match r with
    | .file f => if f.path = uri then some f else known
    | _ => known) none).getD (.ofPath uri)

theorem stamped_eq (h : Holdings) (uri : String) (records : List Record) (now : Int64) :
    h.stamped uri records now = { ownRecord uri records with
      lastIndexed := some (Freshness.nextStamp now ((h.ledger.file? uri).bind (·.lastIndexed))) } := by
  have gathered : ∀ d : Holdings × Gathered, (records.foldl (gather uri) d).2.file =
      records.foldl (fun known r =>
        match r with
        | .file f => if f.path = uri then some f else known
        | _ => known) d.2.file := by
    induction records with
    | nil => exact fun _ => rfl
    | cons r records ih =>
        intro d
        rw [List.foldl_cons, List.foldl_cons, ih]
        congr 1
        cases r with
        | member m =>
            simp only [gather]
            split <;> rfl
        | file f =>
            simp only [gather]
            split
            · rfl
            · exact file_offer d _
        | klass c => exact file_offer d _
        | function c => exact file_offer d _
        | constant c => exact file_offer d _
  rw [stamped, Indexer.stamped, ownRecord, Holdings.gathered, gathered]

end Holdings

/-! ## Members -/

/-- A member without the files that it lists. -/
def MemberRecord.bare (m : MemberRecord) : MemberRecord := { m with references := .empty }

/-- A member is what it is without the files that it lists, and these files. -/
theorem MemberRecord.eq_of_known {known known' : Option MemberRecord}
    (heads : known.map bare = known'.map bare)
    (listed : ∀ v, v ∈ referencesOf known ↔ v ∈ referencesOf known') : known = known' := by
  have same := SortedSet.ext_mem listed
  cases known with
  | none => exact (Option.map_eq_none_iff.1 heads.symm).symm
  | some m =>
      obtain ⟨m', rfl, head⟩ := Option.map_eq_some_iff.1 heads.symm
      obtain ⟨kind, name, container, references⟩ := m
      obtain ⟨kind', name', container', references'⟩ := m'
      obtain ⟨rfl, rfl, rfl⟩ : kind' = kind ∧ name' = name ∧ container' = container := by
        simpa [bare] using head
      obtain rfl : references = references' := same
      rfl

/-- The record of a member that has a name. -/
theorem Ledger.get?_named {l : Ledger} {i : String} {m : MemberRecord} (keyed : l.Keyed)
    (read : MemberRecord.ofIdentifier i = .ok m) : l.get? ⟨.member, i⟩ = (l.member? i).map .member := by
  rw [member?_of_ofIdentifier read]
  cases stored : l.get? ⟨.member, i⟩ with
  | none => rfl
  | some r =>
      have kind := congrArg RecordKey.recordType (keyed _ _ stored)
      cases r with
      | member m => rfl
      | klass c => cases kind
      | function f => cases kind
      | constant c => cases kind
      | file f => cases kind

namespace Holdings

variable {h : Holdings} {uri i : String} {records : List Record}

theorem memberReferences_stamped (h : Holdings) (uri : String) (records : List Record) (now : Int64) :
    (h.stamped uri records now).memberReferences = (ownRecord uri records).memberReferences := by
  rw [stamped_eq]
  rfl

/-- What a record declares of a member, without the files that are listed. -/
def declareBare (i : String) (known : Option MemberRecord) : Record → Option MemberRecord
  | .member m => if m.identifier = i then some m.bare else known
  | _ => known

/-- What some records may set of a member. -/
def Declared (i : String) (records : List Record) (a : Option MemberRecord) : Prop :=
  ∃ m, .member m ∈ records ∧ m.identifier = i ∧ a = some m.bare

theorem isSome_of_declared (a : Option MemberRecord) (declared : Declared i records a) : a.isSome = true := by
  obtain ⟨m, -, -, rfl⟩ := declared
  rfl

theorem layer_declareBare {r : Record} (member : r ∈ records) (offers : Option MemberRecord → Prop) :
    Layer Option.isSome (Declared i records) offers (declareBare i · r) := by
  cases r with
  | member m =>
      by_cases own : m.identifier = i
      · rw [show (declareBare i · (.member m)) = fun _ => some m.bare by funext a; exact if_pos own]
        exact .set _ ⟨m, member, own, rfl⟩
      · rw [show (declareBare i · (.member m)) = id by funext a; exact if_neg own]
        exact .keep
  | klass | function | constant | file => exact .keep

theorem bare_declared (known : Option MemberRecord) :
    (records.foldl (declare i) known).map .bare = records.foldl (declareBare i) (known.map .bare) := by
  induction records generalizing known with
  | nil => rfl
  | cons r records ih =>
      rw [List.foldl_cons, List.foldl_cons, ih]
      congr 1
      cases r with
      | member m => by_cases own : m.identifier = i <;> simp [declare, declareBare, own, MemberRecord.bare]
      | klass c => rfl
      | function f => rfl
      | constant c => rfl
      | file f => rfl

/-- A member without the files that it lists. -/
def memberView (site : Site) {m : MemberRecord} (read : MemberRecord.ofIdentifier i = .ok m) :
    View site (Option MemberRecord) where
  see h := (h.ledger.member? i).map .bare
  step a d :=
    if i ∈ (ownRecord d.1 d.2).memberReferences then Gathered.orEmpty i (d.2.foldl (declareBare i) a)
    else d.2.foldl (declareBare i) a
  congr same := by rw [Ledger.member?_congr fun key _ => same.get? key]
  document h uri records now keyed admits _ := by
    have empty : m.bare = m := by
      rw [MemberRecord.ofIdentifier] at read
      cases parsed : RecordKey.parseMember i with
      | error e =>
          rw [parsed] at read
          cases read
      | ok parts =>
          rw [parsed] at read
          cases read
          rfl
    rw [member?_applied keyed uri records now read, member?_referred, memberReferences_stamped, ← bare_declared]
    generalize records.foldl (declare i) (h.ledger.member? i) = known
    by_cases refers : i ∈ (ownRecord uri records).memberReferences
    · simp only [refers, if_true]
      cases known with
      | some k => rfl
      | none =>
          simp only [Gathered.orEmpty, Option.none_or, read, Option.map_none]
          exact congrArg some empty
    · simp only [refers, if_false]
      split
      · cases known <;> rfl
      · rfl

/-- What a document does to a member without the files that it lists. -/
theorem layer_memberView {site : Site} {m : MemberRecord} (read : MemberRecord.ofIdentifier i = .ok m)
    (d : String × List Record) :
    Layer Option.isSome (Declared i d.2) (fun a => a = (MemberRecord.ofIdentifier i).toOption)
      ((memberView site read).step · d) := by
  have declared : Layer Option.isSome (Declared i d.2) (fun a => a = (MemberRecord.ofIdentifier i).toOption)
      fun a => d.2.foldl (declareBare i) a :=
    .foldl isSome_of_declared fun _ member => layer_declareBare member _
  by_cases refers : i ∈ (ownRecord d.1 d.2).memberReferences
  · simp only [memberView, refers, if_true]
    refine Layer.after isSome_of_declared ?_ declared
    rw [show Gathered.orEmpty i = fun a => if a.isSome then a else (MemberRecord.ofIdentifier i).toOption by
      funext a; cases a <;> rfl]
    exact .offer _ rfl
  · simp only [memberView, refers, if_false]
    exact declared

/-- Members that list no files are declared as they are. -/
theorem declared_of_bare (bare : Bare uri records) (known : Option MemberRecord)
    (none_ : ∀ m, known = some m → m.references = .empty) :
    records.foldl (declare i) known = records.foldl (declareBare i) known ∧
      ∀ m, records.foldl (declare i) known = some m → m.references = .empty := by
  obtain ⟨-, members⟩ := bare
  induction records generalizing known with
  | nil => exact ⟨rfl, none_⟩
  | cons r records ih =>
      have same : declare i known r = declareBare i known r ∧
          ∀ m, declare i known r = some m → m.references = .empty := by
        cases r with
        | member m =>
            have listed : m.references.union (referencesOf known) = .empty := by
              rw [members m (by simp)]
              cases known with
              | none => rfl
              | some k => rw [Ledger.referencesOf_some, none_ k rfl]; rfl
            by_cases own : m.identifier = i
            · simp [declare, declareBare, own, listed, MemberRecord.bare]
            · simpa [declare, declareBare, own] using none_
        | klass c => exact ⟨rfl, none_⟩
        | function f => exact ⟨rfl, none_⟩
        | constant c => exact ⟨rfl, none_⟩
        | file f => exact ⟨rfl, none_⟩
      rw [List.foldl_cons, List.foldl_cons, ← same.1]
      exact ih _ same.2 fun m member => members m (by simp [member])

/-- The record of a member that has no name. Nothing refers to it, so it is as it was declared last. -/
def unnamedView (site : Site) {e : ParseError} (unread : MemberRecord.ofIdentifier i = .error e) :
    View site (Option Record) where
  see h := h.ledger.get? ⟨.member, i⟩
  step a d := ((d.2.foldl (declareBare i) none).map fun m => Record.member
    (if i ∈ (ownRecord d.1 d.2).memberReferences then Gathered.added d.1 m else m)).or a
  congr same := same.get? _
  document h uri records now keyed admits bare := by
    have missing : h.ledger.member? i = none := by
      rw [MemberRecord.ofIdentifier] at unread
      rw [Ledger.member?]
      cases parsed : RecordKey.parseMember i with
      | error e => rfl
      | ok parts =>
          rw [parsed] at unread
          cases unread
    obtain ⟨declared, empty⟩ := declared_of_bare (i := i) bare none nofun
    rw [get?_applied_member keyed, member?_referred, memberReferences_stamped, missing]
    rw [← declared]
    cases known : records.foldl (declare i) none with
    | none =>
        have nothing : Gathered.orEmpty i none = none := by rw [Gathered.orEmpty, unread]; rfl
        simp [nothing]
    | some m =>
        have gone : Gathered.dropped uri m = m := by
          rw [Gathered.dropped, empty m known]
          rw [show (SortedSet.empty (κ := String)).erase uri = .empty from rfl, ← empty m known]
        by_cases refers : i ∈ (ownRecord uri records).memberReferences
        · simp [refers, Gathered.orEmpty]
        · simp [refers, gone]

theorem overlay_unnamedView (site : Site) {e : ParseError} (unread : MemberRecord.ofIdentifier i = .error e)
    (d : String × List Record) : Overlay Option.isSome ((unnamedView site unread).step · d) := by
  cases declared : d.2.foldl (declareBare i) none with
  | none =>
      rw [show ((unnamedView site unread).step · d) = id by funext a; simp [unnamedView, declared]]
      exact .keep
  | some m =>
      rw [show ((unnamedView site unread).step · d) = fun _ => some (Record.member
          (if i ∈ (ownRecord d.1 d.2).memberReferences then Gathered.added d.1 m else m)) by
        funext a; simp [unnamedView, declared]]
      exact .set _ rfl

/-! ## The files that a member lists -/

/-- A document is stored as a pass stores it, whatever its stamp. -/
def Settled (h : Holdings) (d : String × List Record) : Prop :=
  ∃ stamp, h.ledger.get? ⟨.file, d.1⟩ = some (.file { ownRecord d.1 d.2 with lastIndexed := stamp })

/-- A document that is stored as it is now leaves the files that a member lists as they are. -/
theorem mem_referencesOf_settled {site : Site} (linked : Linked site h) (keyed : h.ledger.Keyed)
    (bare : Bare uri records) (settled : h.Settled (uri, records)) (now : Int64) {m : MemberRecord}
    (read : MemberRecord.ofIdentifier i = .ok m) (v : String) :
    v ∈ referencesOf ((h.applied uri records now).ledger.member? i) ↔ v ∈ referencesOf (h.ledger.member? i) := by
  obtain ⟨stamp, stored⟩ := settled
  have normal := (linked.path _ _ stored).2
  have previous : h.ledger.file? uri = some { ownRecord uri records with lastIndexed := stamp } :=
    Ledger.file?_eq_some.2 (by rw [RecordKey.ofFile, normal]; exact stored)
  have kept : i ∉ Indexer.droppedReferences (h.ledger.file? uri) (h.stamped uri records now) := by
    intro gone
    obtain ⟨f, found, refers, left⟩ := mem_droppedReferences.1 gone
    rw [previous] at found
    cases found
    rw [memberReferences_stamped] at left
    exact left refers
  have declared : v ∈ referencesOf (records.foldl (declare i) (h.ledger.member? i)) ↔
      v ∈ referencesOf (h.ledger.member? i) := by
    rw [mem_referencesOf_declared, or_iff_left]
    rintro ⟨m', member, -, listed⟩
    rw [bare.members m' member] at listed
    exact SortedSet.not_mem_empty v listed
  rw [mem_referencesOf_applied keyed uri records now read, declared, memberReferences_stamped]
  simp only [kept, and_false, not_false_eq_true, and_true, or_iff_right_iff_imp]
  rintro ⟨rfl, refers⟩
  exact linked.listed v _ i m stored refers read

end Holdings

section Documents

variable {site : Site} {terms : Terms} {findings : List Finding} {a b c : IndexStats × Holdings} {u i : String}
  (bare : ∀ uri records, terms.extracted uri records → Bare uri records)

include bare

/-- A pass leaves the records of the files alone that it does not index. -/
theorem Pass.get?_otherFile (pass : Pass site terms findings a b) (keyed : a.2.ledger.Keyed)
    (other : u ∉ (documents findings).map (·.1)) :
    b.2.ledger.get? ⟨.file, u⟩ = a.2.ledger.get? ⟨.file, u⟩ := by
  induction pass with
  | done => rfl
  | failed grown onward ih => exact ih keyed other
  | applied admits extracted ticked onward ih =>
      rw [documents_applied, List.map_cons, List.mem_cons, not_or] at other
      refine (ih (Holdings.keyed_applied keyed _ _ _) other.2).trans ?_
      exact Holdings.Linked.get?_applied_otherFile keyed admits.normal (bare _ _ extracted).own other.1 _

/-- A pass stores each of its documents, with a stamp no earlier than a reading of its clock. -/
theorem Pass.stored (pass : Pass site terms findings a b) (keyed : a.2.ledger.Keyed)
    (distinct : ((documents findings).map (·.1)).Nodup) :
    ∀ d ∈ documents findings, ∃ time stamp, terms.clock time ∧ max 0 time ≤ stamp ∧
      b.2.ledger.get? ⟨.file, d.1⟩ = some (.file { Holdings.ownRecord d.1 d.2 with lastIndexed := some stamp }) := by
  induction pass with
  | done => exact nofun
  | failed grown onward ih => exact ih keyed distinct
  | @applied c records rest stats h b time admits extracted ticked onward ih =>
      have keyed' := Holdings.keyed_applied keyed c.uri records (max 0 time)
      rw [documents_applied, List.map_cons, List.nodup_cons] at distinct
      intro d member
      rcases List.mem_cons.1 member with rfl | member
      · have here : (h.applied c.uri records (max 0 time)).ledger.get? ⟨.file, c.uri⟩ =
            some (.file (h.stamped c.uri records (max 0 time))) :=
          Holdings.get?_applied_file admits.normal keyed records _
        rw [Holdings.stamped_eq] at here
        exact ⟨time, _, ticked, Freshness.le_nextStamp _ _,
          (onward.get?_otherFile bare keyed' distinct.1).trans here⟩
      · exact ih keyed' distinct.2 d member

theorem Pass.settled (pass : Pass site terms findings a b) (keyed : a.2.ledger.Keyed)
    (distinct : ((documents findings).map (·.1)).Nodup) : ∀ d ∈ documents findings, b.2.Settled d := by
  intro d member
  obtain ⟨time, stamp, -, -, stored⟩ := pass.stored bare keyed distinct d member
  exact ⟨some stamp, stored⟩

/-- A pass over documents that are stored as they are now leaves the files that a member lists as they are. -/
theorem Pass.references_again (pass : Pass site terms findings a b) (keyed : a.2.ledger.Keyed)
    (linked : a.2.Linked site) (distinct : ((documents findings).map (·.1)).Nodup)
    (settled : ∀ d ∈ documents findings, a.2.Settled d) {m : MemberRecord}
    (read : MemberRecord.ofIdentifier i = .ok m) (v : String) :
    v ∈ referencesOf (b.2.ledger.member? i) ↔ v ∈ referencesOf (a.2.ledger.member? i) := by
  induction pass with
  | done => rfl
  | failed grown onward ih =>
      exact ih keyed (linked.congr (fun _ _ found => found) fun _ _ _ => rfl) distinct settled
  | @applied c records rest stats h b time admits extracted ticked onward ih =>
      have bare' := bare _ _ extracted
      have linked' := linked.applied keyed admits
        ⟨bare'.own, fun m member u listed => by
          rw [bare'.members m member] at listed
          exact absurd listed (SortedSet.not_mem_empty u)⟩ (max 0 time)
      rw [documents_applied, List.map_cons, List.nodup_cons] at distinct
      have here := settled (c.uri, records) (by rw [documents_applied]; simp)
      refine (ih (Holdings.keyed_applied keyed _ _ _)
        (linked'.congr (fun _ _ found => found) fun _ _ _ => rfl) distinct.2 fun d member => ?_).trans
          (Holdings.mem_referencesOf_settled linked keyed bare' here _ read v)
      obtain ⟨stamp, stored⟩ := settled d (by rw [documents_applied]; simp [member])
      refine ⟨stamp, (Holdings.Linked.get?_applied_otherFile keyed admits.normal bare'.own ?_ _).trans stored⟩
      rintro same
      exact distinct.1 (List.mem_map.2 ⟨d, member, same⟩)

end Documents

/-! ## Together -/

/-- Holdings are the same but for the stamps of some files. -/
structure Holdings.Restamped (uris : List String) (h h' : Holdings) : Prop where
  records : ∀ key : RecordKey, (key.recordType = .file → key.identifier ∉ uris) →
    h'.ledger.get? key = h.ledger.get? key
  files : ∀ u ∈ uris, ∃ (f : FileRecord) (stamp : Option Int64), h.ledger.get? ⟨.file, u⟩ = some (.file f) ∧
    h'.ledger.get? ⟨.file, u⟩ = some (.file { f with lastIndexed := stamp })
  entries : ∀ key, h'.catalog.get? key = h.catalog.get? key

/-- Holdings are the same but for stamps if they are the same part by part. -/
theorem Holdings.restamped {site : Site} {uris : List String} {h h' : Holdings} (keyed : h.ledger.Keyed)
    (keyed' : h'.ledger.Keyed) (inStep : h.InStep site) (inStep' : h'.InStep site)
    (symbols : ∀ key : RecordKey, key.recordType.isSearchable = true → sight key h' = sight key h)
    (unnamed : ∀ i e, MemberRecord.ofIdentifier i = .error e →
      h'.ledger.get? ⟨.member, i⟩ = h.ledger.get? ⟨.member, i⟩)
    (heads : ∀ i m, MemberRecord.ofIdentifier i = .ok m →
      (h'.ledger.member? i).map MemberRecord.bare = (h.ledger.member? i).map MemberRecord.bare)
    (listed : ∀ i m, MemberRecord.ofIdentifier i = .ok m → ∀ v,
      v ∈ referencesOf (h'.ledger.member? i) ↔ v ∈ referencesOf (h.ledger.member? i))
    (others : ∀ u ∉ uris, h'.ledger.get? ⟨.file, u⟩ = h.ledger.get? ⟨.file, u⟩)
    (files : ∀ u ∈ uris, ∃ (f : FileRecord) (stamp : Option Int64), h.ledger.get? ⟨.file, u⟩ = some (.file f) ∧
      h'.ledger.get? ⟨.file, u⟩ = some (.file { f with lastIndexed := stamp })) : h.Restamped uris h' := by
  refine ⟨fun key other => ?_, files, fun key => ?_⟩
  · obtain ⟨kind, i⟩ := key
    cases kind with
    | klass => exact congrArg Prod.fst (symbols ⟨.klass, i⟩ rfl)
    | function => exact congrArg Prod.fst (symbols ⟨.function, i⟩ rfl)
    | constant => exact congrArg Prod.fst (symbols ⟨.constant, i⟩ rfl)
    | file => exact others i (other rfl)
    | member =>
        cases read : MemberRecord.ofIdentifier i with
        | error e => exact unnamed i e read
        | ok m =>
            rw [Ledger.get?_named keyed' read, MemberRecord.eq_of_known (heads i m read) (listed i m read),
              ← Ledger.get?_named keyed read]
  · by_cases searchable : key.recordType.isSearchable = true
    · exact congrArg Prod.snd (symbols key searchable)
    · rw [inStep'.unlisted searchable, inStep.unlisted searchable]

/-- **A second pass over the same findings changes nothing but the stamps of the documents.** -/
theorem Pass.again {site : Site} {terms : Terms} {findings : List Finding} {a b c : IndexStats × Holdings}
    {stats : IndexStats} {h : Holdings} (bare : ∀ uri records, terms.extracted uri records → Bare uri records)
    (reached : Holdings.Reached site terms a.2) (distinct : ((documents findings).map (·.1)).Nodup)
    (one : Pass site terms findings a b) (same : b.2.Same h) (reached₁ : Holdings.Reached site terms h)
    (two : Pass site terms findings (stats, h) c) : b.2.Restamped ((documents findings).map (·.1)) c.2 := by
  have before := Holdings.Reached.pass one reached
  have after := Holdings.Reached.pass two reached₁
  have keyed := reached.keyed
  have keyed₁ := reached₁.keyed
  have own : ∀ uri records, terms.extracted uri records → (Terms.own site).extracted uri records :=
    fun uri records extracted => ⟨(bare _ _ extracted).own, fun m member u listed => by
      rw [(bare _ _ extracted).members m member] at listed
      exact absurd listed (SortedSet.not_mem_empty u)⟩
  have linked₁ : h.Linked site := (reached₁.mono own fun _ _ => trivial).linked
  have settled : ∀ d ∈ documents findings, h.Settled d := fun d member => by
    obtain ⟨stamp, stored⟩ := one.settled bare keyed distinct d member
    exact ⟨stamp, (same.get? _).trans stored⟩
  refine Holdings.restamped before.keyed after.keyed before.inStep after.inStep ?_ ?_ ?_ ?_ ?_ ?_
  · exact fun key searchable => one.view_again bare same two keyed keyed₁ (Holdings.symbolView site searchable)
      fun d _ => (Holdings.layer_symbolView searchable d).overlay Holdings.isFirm_of_defined
  · exact fun i e unread => one.view_again bare same two keyed keyed₁ (Holdings.unnamedView site unread)
      fun d _ => Holdings.overlay_unnamedView site unread d
  · exact fun i m read => one.view_again bare same two keyed keyed₁ (Holdings.memberView site read)
      fun d _ => (Holdings.layer_memberView read d).overlay Holdings.isSome_of_declared
  · intro i m read v
    have listed := two.references_again bare keyed₁ linked₁ distinct settled read v
    rwa [Ledger.member?_congr (fun key _ => same.get? key) i] at listed
  · exact fun u other => (two.get?_otherFile bare keyed₁ other).trans (same.get? _)
  · intro u member
    obtain ⟨d, there, rfl⟩ := List.mem_map.1 member
    obtain ⟨stamp, stored⟩ := one.settled bare keyed distinct d there
    obtain ⟨stamp', stored'⟩ := two.settled bare keyed₁ distinct d there
    exact ⟨_, stamp', stored, stored'⟩

end SymbolIndex
