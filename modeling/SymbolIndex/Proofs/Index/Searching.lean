import SymbolIndex.Proofs.Index.History
import SymbolIndex.Proofs.Search.Exactness
import SymbolIndex.Search.Hydration

/-!
# Proofs.Index.Searching — the search index stays in step with the store

A search looks its answers up in the store and does not check them again, so it is only as good as the
entries. `Holdings.InStep` says how they hang on the records: the record of a symbol that is stored has the
entry that it projects to, an entry of a class has its record, and an entry without a record is one of a
function or a constant that a reset left over. Every step keeps this (`Reached.inStep`), so that a search
finds exactly the stored records that the criteria accepts, each once (`History.search_finds_stored`).
-/

namespace SymbolIndex

open Action (outcome)

set_option autoImplicit false

/-! ## Projections -/

namespace SearchEntry

variable {r : Record} {e : SearchEntry}

theorem ofRecord?_eq_some : ofRecord? r = some e ↔
    r.recordType.isSearchable = true ∧ r.isSpeculative = false ∧
      e = ⟨r.recordType, r.identifier, r.classType?, r.flags?.getD 0⟩ := by
  rw [ofRecord?]
  by_cases searchable : r.recordType.isSearchable = true
  · cases speculative : r.isSpeculative <;> simp [searchable, eq_comm]
  · simp [searchable]

theorem key_of_ofRecord? (projected : ofRecord? r = some e) : e.key = r.key := by
  obtain ⟨-, -, rfl⟩ := ofRecord?_eq_some.1 projected
  rfl

theorem classType_of_ofRecord? (projected : ofRecord? r = some e) : e.classType = r.classType? := by
  obtain ⟨-, -, rfl⟩ := ofRecord?_eq_some.1 projected
  rfl

end SearchEntry

open SearchEntry (ofRecord? ofRecord?_eq_some key_of_ofRecord?)

namespace Catalog

variable {c : Catalog} {r : Record} {key : RecordKey}

/-- Writing a record changes the entry of its key, if it has one. -/
theorem get?_write (c : Catalog) (r : Record) (key : RecordKey) :
    (c.write r).get? key = if r.key = key then (ofRecord? r).or (c.get? key) else c.get? key := by
  rw [write]
  cases projected : ofRecord? r with
  | none => simp
  | some e => rw [get?_put, key_of_ofRecord? projected, Option.some_or]

/-- Removing a record removes the entry of its key, if that has its class type. -/
theorem get?_remove_other (other : r.key ≠ key) : (c.remove r).get? key = c.get? key := by
  rw [remove, drop, get?_filter]
  cases found : c.get? key with
  | none => rfl
  | some e =>
      have apart : e.key ≠ r.key := fun same => other (same.symm.trans (key_of_get? found))
      simp [apart]

theorem get?_removeAll_other {removed : List Record} (other : ∀ r ∈ removed, r.key ≠ key) :
    (removed.foldl remove c).get? key = c.get? key := by
  induction removed generalizing c with
  | nil => rfl
  | cons r removed ih =>
      rw [List.foldl_cons, ih fun r' member => other r' (by simp [member]),
        get?_remove_other (other r (by simp))]

/-- What is removed does not come back. -/
theorem get?_removeAll_le {removed : List Record} {e : SearchEntry}
    (found : (removed.foldl remove c).get? key = some e) : c.get? key = some e := by
  induction removed generalizing c with
  | nil => exact found
  | cons r removed ih =>
      have left : (c.remove r).get? key = some e := ih found
      rw [remove, drop, get?_filter, Option.filter_eq_some_iff] at left
      exact left.1

/-- The entry that a record projects to is removed with it. -/
theorem get?_removeAll_self {removed : List Record} {e : SearchEntry} (member : r ∈ removed)
    (projected : ofRecord? r = some e) : (removed.foldl remove c).get? r.key ≠ some e := by
  induction removed generalizing c with
  | nil => cases member
  | cons r' removed ih =>
      rcases List.mem_cons.1 member with rfl | member
      · intro found
        have left : (c.remove r).get? r.key = some e := get?_removeAll_le found
        rw [remove, drop, get?_filter, Option.filter_eq_some_iff] at left
        simp [key_of_ofRecord? projected, SearchEntry.classType_of_ofRecord? projected] at left
      · exact ih member

end Catalog

/-! ## The invariant -/

namespace Holdings

/-- The entries are in step with the records. -/
structure InStep (site : Site) (h : Holdings) : Prop where
  /-- The record of a symbol has the entry that it projects to. -/
  stored : ∀ key r, h.ledger.get? key = some r → key.recordType.isSearchable = true →
    ∃ e, ofRecord? r = some e ∧ h.catalog.get? key = some e
  /-- An entry is one of a symbol. -/
  listed : ∀ key e, h.catalog.get? key = some e →
    key.recordType.isSearchable = true ∧ site.used key.identifier
  /-- The entry of a class has its record. -/
  classes : ∀ key e, h.catalog.get? key = some e → key.recordType = .klass →
    (h.ledger.get? key).isSome = true

namespace InStep

variable {site : Site} {h h' : Holdings} {r : Record} {records : List Record} {uri : String}

theorem empty (site : Site) : InStep site .empty where
  stored _ _ found := by cases found
  listed _ _ found := by cases found
  classes _ _ found := by cases found

/-- What cannot be searched for has no entry. -/
theorem unlisted (inStep : InStep site h) {key : RecordKey} (hidden : key.recordType.isSearchable ≠ true) :
    h.catalog.get? key = none :=
  Option.eq_none_iff_forall_ne_some.2 fun e found => hidden (inStep.listed key e found).1

/-- Only the records of symbols matter. -/
theorem congr (inStep : InStep site h) (catalog : h'.catalog = h.catalog)
    (ledger : ∀ key : RecordKey, key.recordType.isSearchable = true →
      h'.ledger.get? key = h.ledger.get? key) : InStep site h' where
  stored key r found searchable := by
    rw [ledger key searchable] at found
    rw [catalog]
    exact inStep.stored key r found searchable
  listed key e found := by
    rw [catalog] at found
    exact inStep.listed key e found
  classes key e found isClass := by
    rw [catalog] at found
    rw [ledger key (by rw [isClass]; rfl)]
    exact inStep.classes key e found isClass

/-- A record goes to both sides, unless it is one of a class without a type, which goes to neither. -/
theorem write (inStep : InStep site h) (used : site.used r.identifier) : InStep site (h.write r) := by
  by_cases speculative : r.isSpeculative = true
  · have projected : ofRecord? r = none := by simp [ofRecord?, speculative]
    refine inStep.congr ?_ fun key _ => ?_
    · show h.catalog.write r = h.catalog
      rw [Catalog.write, projected]
    · show (h.ledger.write r).get? key = _
      rw [Ledger.write_speculative speculative]
  have firm : r.isSpeculative = false := by simpa using speculative
  have ledger : ∀ key, (h.write r).ledger.get? key = if r.key = key then some r else h.ledger.get? key :=
    Ledger.get?_write firm
  have catalog : ∀ key, (h.write r).catalog.get? key =
      if r.key = key then (ofRecord? r).or (h.catalog.get? key) else h.catalog.get? key :=
    Catalog.get?_write h.catalog r
  constructor
  · intro key r' found searchable
    rw [ledger] at found
    rw [catalog]
    by_cases here : r.key = key
    · subst here
      rw [if_pos rfl] at found ⊢
      cases found
      have projected : ofRecord? r = some ⟨r.recordType, r.identifier, r.classType?, r.flags?.getD 0⟩ :=
        ofRecord?_eq_some.2 ⟨searchable, firm, rfl⟩
      exact ⟨_, projected, by rw [projected, Option.some_or]⟩
    · rw [if_neg here] at found ⊢
      exact inStep.stored key r' found searchable
  · intro key e found
    rw [catalog] at found
    split at found
    next here =>
      subst here
      rcases Option.or_eq_some_iff.1 found with projected | ⟨-, there⟩
      · exact ⟨(ofRecord?_eq_some.1 projected).1, used⟩
      · exact inStep.listed _ e there
    · exact inStep.listed key e found
  · intro key e found isClass
    rw [catalog] at found
    rw [ledger]
    split
    · rfl
    next other =>
      rw [if_neg other] at found
      exact inStep.classes key e found isClass

theorem take (inStep : InStep site h) (used : site.used r.identifier) : InStep site (h.take r) := by
  rw [Holdings.take]
  split
  · exact inStep
  · exact inStep.write used

theorem takeAll (inStep : InStep site h) (each : ∀ r ∈ records, site.used r.identifier) :
    InStep site (records.foldl Holdings.take h) := by
  induction records generalizing h with
  | nil => exact inStep
  | cons r records ih =>
      exact ih (inStep.take (each r (by simp))) fun r' member => each r' (by simp [member])

/-- After the symbols only members and a file are written. -/
theorem applied (inStep : InStep site h) (keyed : h.ledger.Keyed) (admits : site.Admits uri records)
    (now : Int64) : InStep site (h.applied uri records now) := by
  have gathered : InStep site (h.gathered uri records).1 := by
    rw [fst_gathered]
    exact inStep.takeAll fun r member => admits.records r (List.mem_filter.1 member).1 _ r.identifier_mem
  refine gathered.congr rfl fun key searchable => get?_applied_other admits.normal keyed records now ?_ ?_
  · rintro isMember
    rw [isMember] at searchable
    cases searchable
  · rintro rfl
    cases searchable

/-- A record and the entry that it projects to go together. -/
theorem swept (inStep : InStep site h) {removed : List Record}
    (there : ∀ r ∈ removed, h.ledger.get? r.key = some r) : InStep site (h.swept removed) := by
  have ledger : ∀ key, (h.swept removed).ledger.get? key =
      if key ∈ removed.map Record.key then none else h.ledger.get? key := h.ledger.get?_without removed
  have catalog : ∀ key, key ∉ removed.map Record.key →
      (h.swept removed).catalog.get? key = h.catalog.get? key := by
    intro key kept
    refine Catalog.get?_removeAll_other fun r member same => kept ?_
    exact List.mem_map.2 ⟨r, member, same⟩
  have below : ∀ key e, (h.swept removed).catalog.get? key = some e → h.catalog.get? key = some e :=
    fun key e => Catalog.get?_removeAll_le
  constructor
  · intro key r found searchable
    rw [ledger] at found
    split at found
    · cases found
    next kept =>
      rw [catalog key kept]
      exact inStep.stored key r found searchable
  · exact fun key e found => inStep.listed key e (below key e found)
  · intro key e found isClass
    have before := below key e found
    rw [ledger, if_neg]
    · exact inStep.classes key e before isClass
    · intro gone
      obtain ⟨r, member, rfl⟩ := List.mem_map.1 gone
      obtain ⟨e', projected, own⟩ := inStep.stored r.key r (there r member) (by rw [isClass]; rfl)
      obtain rfl : e' = e := by simpa [own] using before
      exact Catalog.get?_removeAll_self member projected found

/-- A reset leaves entries of functions and constants only. -/
theorem reset (inStep : InStep site h) : InStep site h.reset := by
  have kept : ∀ key e, h.reset.catalog.get? key = some e →
      h.catalog.get? key = some e ∧ key.recordType ≠ .klass := by
    intro key e found
    have found' : (h.catalog.filter (·.recordType != .klass)).get? key = some e := found
    rw [Catalog.get?_filter, Option.filter_eq_some_iff] at found'
    refine ⟨found'.1, fun isClass => ?_⟩
    have type : e.recordType = key.recordType := congrArg RecordKey.recordType (Catalog.key_of_get? found'.1)
    simp [type, isClass] at found'
  constructor
  · exact fun _ _ found => by cases found
  · exact fun key e found => inStep.listed key e (kept key e found).1
  · exact fun key e found isClass => absurd isClass (kept key e found).2

end InStep

/-- **Every step keeps the entries in step with the records.** -/
theorem Reached.inStep {site : Site} {terms : Terms} {h : Holdings} (reached : Reached site terms h) :
    InStep site h := by
  induction reached with
  | empty => exact .empty site
  | document before admits extracted ticked ih =>
      exact (ih.applied before.keyed admits _).congr rfl fun _ _ => rfl
  | marked before marks ih => exact ih.congr rfl fun _ _ => rfl
  | built before time ih => exact ih.congr rfl fun _ _ => rfl
  | swept before stored ih => exact ih.swept fun r member => (stored r member).1
  | reset before ih => exact ih.reset

/-- Where no identifier that is extracted has a NUL, the entries can all be looked for. -/
theorem Reached.readable {site : Site} {terms : Terms} {h : Holdings} (reached : Reached site terms h)
    (clean : ∀ uri records, terms.extracted uri records → ∀ r ∈ records, Clean r.identifier) :
    h.catalog.Readable := by
  have removed : ∀ {c : Catalog}, c.Readable → ∀ rs : List Record, (rs.foldl Catalog.remove c).Readable := by
    intro c readable rs
    induction rs generalizing c with
    | nil => exact readable
    | cons r rs ih => exact ih (readable.filter _)
  have taken : ∀ {h : Holdings}, h.catalog.Readable → ∀ rs : List Record, (∀ r ∈ rs, Clean r.identifier) →
      (rs.foldl take h).catalog.Readable := by
    intro h readable rs each
    induction rs generalizing h with
    | nil => exact readable
    | cons r rs ih =>
        refine ih ?_ fun r' member => each r' (by simp [member])
        rw [take]
        split
        · exact readable
        · exact SearchCommand.readable_write readable (each r (by simp))
  induction reached with
  | empty => exact Catalog.readable_empty
  | @document h uri records time before admits extracted ticked ih =>
      show (h.gathered uri records).1.catalog.Readable
      rw [fst_gathered]
      exact taken ih _ fun r member => clean uri records extracted r (List.mem_filter.1 member).1
  | marked before marks ih => exact ih
  | built before time ih => exact ih
  | swept before stored ih => exact removed ih _
  | reset before ih => exact ih.filter _

end Holdings

/-! ## Looking up what was found -/

/-- The first elements of a list, at most as many as the limit. -/
def atMost {α : Type} (limit : Option Nat) (l : List α) : List α :=
  match limit with
  | some n => l.take n
  | none => l

theorem atMost_nil {α : Type} (limit : Option Nat) : atMost limit ([] : List α) = [] := by
  cases limit <;> simp [atMost]

theorem atMost_cons {α : Type} {limit : Option Nat} (room : limit ≠ some 0) (a : α) (l : List α) :
    atMost limit (a :: l) = a :: atMost (lessOne limit) l := by
  rcases limit with _ | _ | n
  · rfl
  · exact absurd rfl room
  · simp [atMost, lessOne]

section Hydration

variable {get : RecordKey → Stored (Option Record)} {found : RecordKey → Option Record} {es : List SearchEntry}
  {w : World}

/-- The entries whose records are there give these records. -/
theorem run_hydrate (each : ∀ e ∈ es, Script.outcome (get e.key) w = (.ok (found e.key), w)) (limit : Option Nat) :
    (hydrate get limit (es.map .ok)).run w =
      ((atMost limit (es.filterMap fun e => found e.key)).map .ok, w) := by
  induction es generalizing limit with
  | nil =>
      rw [List.filterMap_nil, atMost_nil]
      rcases limit with _ | _ | n <;> rfl
  | cons e es ih =>
      have rest := ih fun e' member => each e' (by simp [member])
      by_cases full : limit = some 0
      · subst full
        simp [hydrate, atMost]
      · have asked : Script.run (get e.key).run w = (.ok (found e.key), w) := each e (by simp)
        rw [List.map_cons, hydrate]
        · refine (Script.run_bind_of asked).trans ?_
          rw [List.filterMap_cons]
          cases there : found e.key with
          | none => exact rest limit
          | some r =>
              simp only
              rw [Script.run_bind_of (rest (lessOne limit)), atMost_cons full]
              rfl
        · exact full

/-- Entries that end with an error give the records of a beginning and the error, unless the limit comes first. -/
theorem run_hydrate_failed {seen : List SearchEntry} (begins : seen <+: es) (e : SearchError)
    (each : ∀ e ∈ es, Script.outcome (get e.key) w = (.ok (found e.key), w)) (limit : Option Nat) :
    ∃ hits, (hydrate get limit (seen.map .ok ++ [.error e])).run w = (hits, w) ∧
      Scan.AllOrFailed (atMost limit (es.filterMap fun e => found e.key)) hits := by
  induction seen generalizing es limit with
  | nil =>
      by_cases full : limit = some 0
      · subst full
        exact ⟨[], rfl, .inl (by simp [atMost])⟩
      · refine ⟨[.error e], ?_, .failed _ e⟩
        have nothing : (hydrate get (lessOne limit) []).run w = ([], w) := by
          rcases lessOne limit with _ | _ | n <;> rfl
        rw [List.map_nil, List.nil_append, hydrate]
        · exact Script.run_bind_of nothing
        · exact full
  | cons e' seen ih =>
      obtain ⟨tail, rfl⟩ := begins
      rw [List.cons_append] at each ⊢
      have rest := ih (List.prefix_append seen tail) fun e'' member => each e'' (List.mem_cons_of_mem e' member)
      by_cases full : limit = some 0
      · subst full
        exact ⟨[], by simp [hydrate], .inl (by simp [atMost])⟩
      · have asked : Script.run (get e'.key).run w = (.ok (found e'.key), w) := each e' List.mem_cons_self
        rw [List.map_cons, List.cons_append, hydrate]
        · rw [List.filterMap_cons]
          cases there : found e'.key with
          | none =>
              rw [there] at asked
              obtain ⟨hits, done, answered⟩ := rest limit
              exact ⟨hits, (Script.run_bind_of asked).trans done, answered⟩
          | some r =>
              rw [there] at asked
              obtain ⟨hits, done, answered⟩ := rest (lessOne limit)
              refine ⟨.ok r :: hits, (Script.run_bind_of asked).trans (Script.run_bind_of done), ?_⟩
              simp only
              rw [atMost_cons full]
              exact answered.cons r
        · exact full

end Hydration

/-! ## Searching -/

/-- No identifier that is extracted has a NUL. -/
def Terms.clean : Terms where
  extracted _ records := ∀ r ∈ records, Clean r.identifier
  clock _ := True

/-- A record is stored: looking up its key finds it. -/
def Indexer.Stores (x : Indexer) (s : IndexState) (w : World) (r : Record) : Prop :=
  outcome (x.find? r.key) s w = (.ok (some r), s, w)

theorem searchable_of_accepted {criteria : Criteria} {r : Record}
    (accepted : criteria.acceptsRecord r = true) : r.key.recordType.isSearchable = true := by
  rw [Criteria.acceptsRecord] at accepted
  cases projected : ofRecord? r with
  | none => simp [projected] at accepted
  | some e => exact (ofRecord?_eq_some.1 projected).1

namespace Site.Stands

variable {site : Site} {x : Indexer} {h : Holdings} {s : IndexState} {w : World} {criteria : Criteria}

theorem stores_iff (stands : site.Stands h s w) (at_ : x.At site) {r : Record}
    (used : site.used r.identifier) (legible : r.key.Legible) :
    x.Stores s w r ↔ h.ledger.get? r.key = some r := by
  rw [Indexer.Stores, stands.find?_ok at_ r.key used legible]
  simp

/-- A search of the entries, with what it leaves behind. -/
theorem search_ok (stands : site.Stands h s w) (readable : h.catalog.Readable) (clean : criteria.Clean) :
    ∃ (found : List SearchEntry) (hits : List (Hit SearchEntry)) (i : SearchIndex) (w' : World),
      outcome (SearchIndex.search criteria) s.search w = (.ok hits, i, w') ∧
      Scan.AllOrFailed found hits ∧ (site.backend.takes criteria = true → hits = found.map .ok) ∧
      (found.map SearchEntry.key).Nodup ∧
      (∀ e, e ∈ found ↔ h.catalog.get? e.key = some e ∧ criteria.accepts e = true) ∧
      site.Stands h { s with search := i } w' := by
  obtain ⟨hits, i, w', done, answers, search, apart⟩ := stands.search.search readable clean
  obtain ⟨found, ⟨found', same, distinct, all, -⟩, begins⟩ := answers.begins
  obtain rfl : found = found' := List.map_injective_iff.2 (fun _ _ => Except.ok.inj) same
  have touch : site.Touch .search w w' := .of_search apart search
  have listed : ∀ e, e ∈ found ↔ h.catalog.get? e.key = some e ∧ criteria.accepts e = true := fun e => by
    rw [all, Catalog.mem_iff]
  refine ⟨found, hits, i, w', done, begins, fun takes => begins.eq_all fun e member => ?_,
    distinct.map_on fun e one e' two same => ?_, listed, stands.of_search touch search⟩
  · obtain ⟨exactly, rfl, -⟩ := answers.exact_ takes
    obtain ⟨_, -, same⟩ := List.mem_map.1 member
    cases same
  have first := ((listed e).1 one).1
  have second := ((listed e').1 two).1
  rw [same, second] at first
  exact (Option.some.inj first).symm

/-- The records of the entries that a search finds. -/
theorem records_ok (stands : site.Stands h s w) (at_ : x.At site) (inStep : h.InStep site)
    (readable : h.catalog.Readable) (clean : criteria.Clean) :
    ∃ (found : List Record) (i : SearchIndex) (w' : World), found.Nodup ∧
      (∀ r, r ∈ found ↔ h.ledger.get? r.key = some r ∧ criteria.acceptsRecord r = true) ∧
      ∀ limit, ∃ hits, outcome (SearchIndex.records (s.buffer.find? x.store) criteria limit) s.search w =
          (.ok hits, i, w') ∧
        Scan.AllOrFailed (atMost limit found) hits ∧
        (site.backend.takes criteria = true → hits = (atMost limit found).map .ok) := by
  obtain ⟨es, hits, i, w', done, begins, exact_, distinct, listed, stands'⟩ := stands.search_ok readable clean
  have keyed := stands.records.keyed
  have each : ∀ e ∈ es, Script.outcome (s.buffer.find? x.store e.key) w' = (.ok (h.ledger.get? e.key), w') := by
    intro e member
    obtain ⟨searchable, used⟩ := inStep.listed e.key e ((listed e).1 member).1
    rw [at_.store]
    exact stands'.records.find?_ok e.key used (.of_searchable searchable)
  refine ⟨es.filterMap fun e => h.ledger.get? e.key, i, w', ?_, fun r => ?_, fun limit => ?_⟩
  · have byKey : (es.filterMap fun e => h.ledger.get? e.key) =
        (es.map SearchEntry.key).filterMap h.ledger.get? := by rw [List.filterMap_map]; rfl
    rw [byKey]
    exact distinct.filterMap fun key key' r one two => (keyed key r one).symm.trans (keyed key' r two)
  · rw [List.mem_filterMap]
    constructor
    · rintro ⟨e, member, there⟩
      obtain ⟨entry, accepted⟩ := (listed e).1 member
      obtain ⟨searchable, -⟩ := inStep.listed e.key e entry
      obtain ⟨e', projected, entry'⟩ := inStep.stored e.key r there searchable
      obtain rfl : e' = e := by simpa [entry'] using entry
      rw [keyed _ _ there]
      exact ⟨there, by rw [Criteria.acceptsRecord, projected]; exact accepted⟩
    · rintro ⟨there, accepted⟩
      rw [Criteria.acceptsRecord] at accepted
      cases projected : ofRecord? r with
      | none => simp [projected] at accepted
      | some e =>
          simp only [projected] at accepted
          have own := key_of_ofRecord? projected
          obtain ⟨e', projected', entry⟩ := inStep.stored r.key r there (ofRecord?_eq_some.1 projected).1
          obtain rfl : e = e' := by simpa [projected] using projected'
          exact ⟨e, (listed e).2 ⟨own ▸ entry, accepted⟩, own ▸ there⟩
  · rw [SearchIndex.records, Action.outcome_bind_ok done, Action.outcome_ofPlain]
    rcases begins with rfl | ⟨seen, e, front, rfl⟩
    · exact ⟨_, by rw [run_hydrate each], .inl rfl, fun _ => rfl⟩
    · obtain ⟨hits, ran, answered⟩ := run_hydrate_failed front e each limit
      refine ⟨hits, by rw [ran], answered, fun takes => absurd (exact_ takes) fun same => ?_⟩
      have last := congrArg (Except.error e ∈ ·) same
      simp at last

end Site.Stands

namespace History

variable {x : Indexer} {c : IndexConfig} {site : Site} {s : IndexState} {w : World}

/-- **A search finds exactly the stored records that the criteria accepts, each once**, unless the engine of a table
answers an error, as it may beyond its limits: what comes before that is a beginning of them. The entries that are
listed are those of the stored symbols, and beside them only entries of functions and constants of which no record is
stored. -/
theorem search_finds_stored (history : History x c site .clean s w) (made : x.Made c site)
    {criteria : Criteria} (clean : criteria.Clean) :
    (∃ (found : List Record) (i : SearchIndex) (w' : World), found.Nodup ∧
      (∀ r, r ∈ found ↔
        site.used r.identifier ∧ x.Stores s w r ∧ criteria.acceptsRecord r = true) ∧
      ∀ limit, ∃ hits, outcome (SearchIndex.records (s.buffer.find? x.store) criteria limit) s.search w =
          (.ok hits, i, w') ∧
        Scan.AllOrFailed (atMost limit found) hits ∧
        (site.backend.takes criteria = true → hits = (atMost limit found).map .ok)) ∧
    ∃ (entries : List SearchEntry) (i : SearchIndex) (w' : World),
      outcome (SearchIndex.search (.and [])) s.search w = (.ok (entries.map .ok), i, w') ∧
      (entries.map SearchEntry.key).Nodup ∧
      (∀ r, site.used r.identifier → x.Stores s w r → r.recordType.isSearchable = true →
        ∃ e ∈ entries, ofRecord? r = some e) ∧
      ∀ e ∈ entries, (∃ r, x.Stores s w r ∧ ofRecord? r = some e) ∨
        e.recordType ≠ .klass ∧ outcome (x.find? e.key) s w = (.ok none, s, w) := by
  obtain ⟨h, stands, reached⟩ := history.stands made
  have at_ := made.at_
  have keyed := stands.records.keyed
  have inStep : h.InStep site := reached.inStep
  have readable := reached.readable fun _ _ extracted => extracted
  constructor
  · obtain ⟨found, i, w', distinct, listed, done⟩ := stands.records_ok at_ inStep readable clean
    refine ⟨found, i, w', distinct, fun r => ?_, done⟩
    rw [listed]
    constructor
    · rintro ⟨there, accepted⟩
      have used : site.used r.identifier := stands.uses r.key r there _ r.identifier_mem
      refine ⟨used, (stands.stores_iff at_ used (.of_searchable ?_)).2 there, accepted⟩
      exact searchable_of_accepted accepted
    · rintro ⟨used, stores, accepted⟩
      refine ⟨(stands.stores_iff at_ used (.of_searchable ?_)).1 stores, accepted⟩
      exact searchable_of_accepted accepted
  · have all : (Criteria.and []).Clean := trivial
    obtain ⟨es, hits, i, w', done, -, exact_, distinct, listed, -⟩ := stands.search_ok readable all
    obtain rfl := exact_ site.backend.takes_everything
    refine ⟨es, i, w', done, distinct, fun r used stores searchable => ?_, fun e member => ?_⟩
    · have there := (stands.stores_iff at_ used (.of_searchable searchable)).1 stores
      obtain ⟨e, projected, entry⟩ := inStep.stored r.key r there searchable
      exact ⟨e, (listed e).2 ⟨key_of_ofRecord? projected ▸ entry, rfl⟩, projected⟩
    · have entry := ((listed e).1 member).1
      obtain ⟨searchable, used⟩ := inStep.listed e.key e entry
      have legible : e.key.Legible := .of_searchable searchable
      cases there : h.ledger.get? e.key with
      | none =>
          refine .inr ⟨fun isClass => ?_, ?_⟩
          · have stored := inStep.classes e.key e entry isClass
            rw [there] at stored
            cases stored
          · rw [stands.find?_ok at_ e.key used legible, there]
      | some r =>
          obtain ⟨e', projected, entry'⟩ := inStep.stored e.key r there searchable
          obtain rfl : e' = e := by simpa [entry'] using entry
          have own := keyed _ _ there
          refine .inl ⟨r, ?_, projected⟩
          rw [Indexer.Stores, own, stands.find?_ok at_ e'.key used legible, there]

/-! ## Poles -/

def sampleInterface : Record := .klass ⟨"A", some .interface, some ⟨"file:///a", 0, 1⟩, 1⟩

def sampleTrait : Record := .klass ⟨"A", some .trait, some ⟨"file:///b", 0, 1⟩, 0⟩

/-- A document declares an interface and a function; another one declares a trait of the same name. -/
def sampleSymbols : Extractor := fun document =>
  if document.text = "trait" then some [sampleTrait] else some [sampleInterface, .function ⟨"f", none⟩]

/-- The interface and the function are indexed, everything is reset, and the trait is indexed. -/
def sampleHoldings : Holdings :=
  let first := (Holdings.empty.applied "file:///a" [sampleInterface, .function ⟨"f", none⟩] (max 0 5)).cleared
    "file:///a"
  (first.reset.applied "file:///b" [sampleTrait] (max 0 7)).cleared "file:///b"

theorem sampleHoldings_come : Comes sampleSymbols .clean sampleHoldings := by
  have normal : Uri.normalize "file:///a" = "file:///a" ∧ Uri.normalize "file:///b" = "file:///b" := by
    decide +kernel
  have clean : Clean "A" ∧ Clean "f" := by decide +kernel
  have first := (Comes.start sampleSymbols .clean).document ⟨"file:///a", ⟨[]⟩, "interface"⟩ (by rfl) normal.1
    (by simpa [Terms.clean, sampleInterface, Record.identifier] using clean) 5 trivial
  exact first.reset.document ⟨"file:///b", ⟨[]⟩, "trait"⟩ (by rfl) normal.2
    (by simpa [Terms.clean, sampleTrait, Record.identifier] using clean.1) 7 trivial

/-- The trait is found; of the function only the entry is left. -/
theorem sample_search_finds_stored :
    ∃ s w, History (smallIndexer sampleSymbols) smallConfig smallSite .clean s w ∧
      Criteria.isClass.Clean ∧
      (∃ (found : List Record) (i : SearchIndex) (w' : World), sampleTrait ∈ found ∧
        outcome (SearchIndex.records (s.buffer.find? (smallIndexer sampleSymbols).store) .isClass none)
          s.search w = (.ok (found.map .ok), i, w')) ∧
      ∃ (entries : List SearchEntry) (i : SearchIndex) (w' : World),
        outcome (SearchIndex.search (.and [])) s.search w = (.ok (entries.map .ok), i, w') ∧
        (∀ e ∈ entries, e.recordType = .klass → ∃ r, (smallIndexer sampleSymbols).Stores s w r ∧
          ofRecord? r = some e) ∧
        outcome ((smallIndexer sampleSymbols).find? ⟨.function, "f"⟩) s w = (.ok none, s, w) := by
  have made := smallIndexer_made sampleSymbols
  obtain ⟨s, w, history, stands, -⟩ := sampleHoldings_come
  have clean : Criteria.isClass.Clean := trivial
  obtain ⟨⟨found, i, w', -, listed, finds⟩, entries, i', w'', searched, -, -, each⟩ :=
    search_finds_stored history made clean
  obtain ⟨hits, done, -, exact_⟩ := finds none
  obtain rfl := exact_ (by decide +kernel)
  have there : sampleHoldings.ledger.get? sampleTrait.key = some sampleTrait := by decide +kernel
  have gone : sampleHoldings.ledger.get? ⟨.function, "f"⟩ = none := by decide +kernel
  refine ⟨s, w, history, clean, ⟨found, i, w', (listed _).2 ⟨trivial, ?_, by decide +kernel⟩, done⟩,
    entries, i', w'', searched, fun e member isClass => ?_, ?_⟩
  · exact (stands.stores_iff made.at_ trivial (.of_searchable rfl)).2 there
  · exact (each e member).resolve_right fun left => left.1 isClass
  · rw [stands.find?_ok made.at_ _ trivial (.of_searchable rfl), gone]

end History

end SymbolIndex
