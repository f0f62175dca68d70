import SymbolIndex.Proofs.Index.Definitions
import SymbolIndex.Proofs.Index.Edits
import Mathlib.Data.List.Pairwise

/-!
# Proofs.Index.Commuting — the order in which documents are indexed

Two documents are independent when they have different URIs, do not both define a symbol, do not both mention a
class with its type and without a location, and do not both declare a member (`Independent`). They may define what
the other one mentions, declare what the other one refers to, refer to the same members, and repeat themselves.

* What a document does to one symbol, or to a member without the files that it lists, is a `Layer`: nothing, to
  set a value, or to offer one. Layers of independent documents commute (`Layer.comm`), for what is set is firm,
  and what both offer is the same.
* The files that a member lists change at the URI of a document alone, and by what is stored of this document
  (`Pass.mem_references`).
* So passes over the same documents in different orders lead to the same records and entries, but for stamps
  (`Pass.reordered`), whether the documents are handed over, read one by one or taken by one pass
  (`History.indexed_in_any_order`).
-/

namespace SymbolIndex

open Action (outcome)
open Candidate (firsts)
open Ledger (referencesOf)
open Site.Stands (Found)

set_option autoImplicit false

/-! ## Layers -/

/-- Layers commute that do not both set a value, and offer the same if both offer one. -/
theorem Layer.comm {α : Type} {firm : α → Bool} {sets offers sets' offers' : α → Prop} {f g : α → α}
    (hard : ∀ a, sets a → firm a = true) (hard' : ∀ a, sets' a → firm a = true)
    (one : Layer firm sets offers f) (two : Layer firm sets' offers' g) (apart : ∀ a b, sets a → ¬ sets' b)
    (same : ∀ a b, offers a → offers' b → a = b) (c : α) : g (f c) = f (g c) := by
  cases one with
  | keep => rfl
  | set a own =>
      cases two with
      | keep => rfl
      | set b own' => exact absurd own' (apart a b own)
      | offer b own' => simp [hard a own]
  | offer a own =>
      cases two with
      | keep => rfl
      | set b own' => simp [hard' b own']
      | offer b own' => rw [same a b own own']

/-! ## Independent documents -/

/-- Mentions of a function or of a constant are the same. -/
theorem Record.Mentions.eq {r r' : Record} {key : RecordKey} (one : r.Mentions key) (two : r'.Mentions key)
    (notClass : key.recordType ≠ .klass) : r = r' := by
  obtain ⟨rfl, placeholder, -⟩ := one
  obtain ⟨same, placeholder', -⟩ := two
  have kind := congrArg RecordKey.recordType same
  have name := congrArg RecordKey.identifier same
  cases r with
  | klass c => exact absurd rfl notClass
  | function f =>
      cases r' with
      | function f' =>
          obtain ⟨fqn, location⟩ := f
          obtain ⟨fqn', location'⟩ := f'
          obtain rfl : fqn' = fqn := name
          obtain rfl : location = none := Option.isNone_iff_eq_none.1 placeholder
          obtain rfl : location' = none := Option.isNone_iff_eq_none.1 placeholder'
          rfl
      | klass _ | constant _ | member _ | file _ => cases kind
  | constant c =>
      cases r' with
      | constant c' =>
          obtain ⟨fqn, location⟩ := c
          obtain ⟨fqn', location'⟩ := c'
          obtain rfl : fqn' = fqn := name
          obtain rfl : location = none := Option.isNone_iff_eq_none.1 placeholder
          obtain rfl : location' = none := Option.isNone_iff_eq_none.1 placeholder'
          rfl
      | klass _ | function _ | member _ | file _ => cases kind
  | member m => cases placeholder
  | file f => cases placeholder

/-- Documents, each as its URI and its records, that can be indexed in either order. -/
structure Independent (d d' : String × List Record) : Prop where
  uris : d.1 ≠ d'.1
  /-- No symbol is defined by both. -/
  definitions : ∀ r ∈ d.2, ∀ r' ∈ d'.2, ∀ key : RecordKey, key.recordType.isSearchable = true →
    r.Defines key → ¬ r'.Defines key
  /-- No class is mentioned with its type by both. -/
  classes : ∀ r ∈ d.2, ∀ r' ∈ d'.2, ∀ key : RecordKey, key.recordType = .klass → r.Mentions key → ¬ r'.Mentions key
  /-- No member is declared by both. -/
  members : ∀ m m', .member m ∈ d.2 → .member m' ∈ d'.2 → m.identifier ≠ m'.identifier

theorem Independent.symm {d d' : String × List Record} (independent : Independent d d') : Independent d' d where
  uris := independent.uris.symm
  definitions r member r' member' key searchable one two :=
    independent.definitions r' member' r member key searchable two one
  classes r member r' member' key isClass one two := independent.classes r' member' r member key isClass two one
  members m m' member member' same := independent.members m' m member' member same.symm

namespace Holdings

variable {site : Site} {key : RecordKey} {i : String} {d d' : String × List Record}

theorem symbols_comm (searchable : key.recordType.isSearchable = true) (independent : Independent d d')
    (a : Option Record × Option SearchEntry) :
    (symbolView site searchable).step ((symbolView site searchable).step a d) d' =
      (symbolView site searchable).step ((symbolView site searchable).step a d') d := by
  refine Layer.comm isFirm_of_defined isFirm_of_defined (layer_symbolView searchable d)
    (layer_symbolView searchable d') ?_ ?_ a
  · rintro a b ⟨r, member, defines, -⟩ ⟨r', member', defines', -⟩
    exact independent.definitions r member r' member' key searchable defines defines'
  · rintro a b ⟨r, member, mentions, rfl⟩ ⟨r', member', mentions', rfl⟩
    by_cases isClass : key.recordType = .klass
    · exact absurd mentions' (independent.classes r member r' member' key isClass mentions)
    · rw [mentions.eq mentions' isClass]

theorem members_comm {m : MemberRecord} (read : MemberRecord.ofIdentifier i = .ok m) (independent : Independent d d')
    (a : Option MemberRecord) :
    (memberView site read).step ((memberView site read).step a d) d' =
      (memberView site read).step ((memberView site read).step a d') d := by
  refine Layer.comm isSome_of_declared isSome_of_declared (layer_memberView read d) (layer_memberView read d')
    ?_ ?_ a
  · rintro a b ⟨m, member, own, -⟩ ⟨m', member', own', -⟩
    exact independent.members m m' member member' (own.trans own'.symm)
  · rintro a b rfl rfl
    rfl

/-- A document that does not declare a member leaves it as it is known. -/
theorem foldl_declareBare_of_not {records : List Record} (none_ : ∀ m, .member m ∈ records → m.identifier ≠ i)
    (known : Option MemberRecord) : records.foldl (declareBare i) known = known := by
  induction records with
  | nil => rfl
  | cons r records ih =>
      have first : declareBare i known r = known := by
        cases r with
        | member m => exact if_neg (none_ m (by simp))
        | klass | function | constant | file => rfl
      rw [List.foldl_cons, first]
      exact ih fun m member => none_ m (by simp [member])

theorem unnamed_comm {e : ParseError} (unread : MemberRecord.ofIdentifier i = .error e)
    (independent : Independent d d') (a : Option Record) :
    (unnamedView site unread).step ((unnamedView site unread).step a d) d' =
      (unnamedView site unread).step ((unnamedView site unread).step a d') d := by
  have idle : ∀ {d : String × List Record} (a : Option Record), (∀ m, .member m ∈ d.2 → m.identifier ≠ i) →
      (unnamedView site unread).step a d = a := by
    intro d a none_
    simp [unnamedView, foldl_declareBare_of_not none_]
  by_cases declares : ∃ m, .member m ∈ d.2 ∧ m.identifier = i
  · obtain ⟨m, member, own⟩ := declares
    have none_ : ∀ m', .member m' ∈ d'.2 → m'.identifier ≠ i := fun m' member' own' =>
      independent.members m m' member member' (own.trans own'.symm)
    rw [idle _ none_, idle _ none_]
  · have none_ : ∀ m, .member m ∈ d.2 → m.identifier ≠ i := fun m member own => declares ⟨m, member, own⟩
    rw [idle _ none_, idle _ none_]

/-! ## The files that a member lists -/

/-- The stored record of a document refers to a member, and the document does not any more. -/
def Drops (h : Holdings) (d : String × List Record) (i : String) : Prop :=
  ∃ f, h.ledger.file? d.1 = some f ∧ i ∈ f.memberReferences ∧ i ∉ (ownRecord d.1 d.2).memberReferences

/-- What a document does to the files that a member lists, if its members list none themselves. -/
theorem mem_references_bare {h : Holdings} (keyed : h.ledger.Keyed) (bare : Bare d.1 d.2) (now : Int64)
    {m : MemberRecord} (read : MemberRecord.ofIdentifier i = .ok m) (v : String) :
    v ∈ referencesOf ((h.applied d.1 d.2 now).ledger.member? i) ↔
      v = d.1 ∧ i ∈ (ownRecord d.1 d.2).memberReferences ∨
        v ∈ referencesOf (h.ledger.member? i) ∧ ¬ (v = d.1 ∧ h.Drops d i) := by
  have declared : v ∈ referencesOf (d.2.foldl (declare i) (h.ledger.member? i)) ↔
      v ∈ referencesOf (h.ledger.member? i) := by
    rw [mem_referencesOf_declared, or_iff_left]
    rintro ⟨m', member, -, listed⟩
    rw [bare.members m' member] at listed
    exact SortedSet.not_mem_empty v listed
  rw [mem_referencesOf_applied keyed d.1 d.2 now read, declared, mem_droppedReferences, memberReferences_stamped]
  rfl

theorem file?_applied_other {h : Holdings} (keyed : h.ledger.Keyed) (normal : Uri.normalize d.1 = d.1)
    (own : ∀ f, .file f ∈ d.2 → f.path = d.1) (now : Int64) {u : String} (normal' : Uri.normalize u = u)
    (other : u ≠ d.1) : (h.applied d.1 d.2 now).ledger.file? u = h.ledger.file? u := by
  rw [Ledger.file?, Ledger.file?, RecordKey.ofFile, normal',
    Linked.get?_applied_otherFile keyed normal own other now]

end Holdings

/-- The documents of a pass are admitted, and on its terms. -/
theorem Pass.admits {site : Site} {terms : Terms} {findings : List Finding} {a b : IndexStats × Holdings}
    (pass : Pass site terms findings a b) :
    ∀ d ∈ documents findings, site.Admits d.1 d.2 ∧ terms.extracted d.1 d.2 := by
  induction pass with
  | done => exact nofun
  | failed grown onward ih => exact ih
  | applied admits extracted ticked onward ih =>
      intro d member
      rcases List.mem_cons.1 member with rfl | member
      · exact ⟨admits, extracted⟩
      · exact ih d member

section Passes

variable {site : Site} {terms : Terms} {findings findings' : List Finding} {a b a' b' : IndexStats × Holdings}
  {u v i : String} {m : MemberRecord} (bare : ∀ uri records, terms.extracted uri records → Bare uri records)

include bare

/-- A URI that a pass does not index is listed by the same members as before. -/
theorem Pass.mem_references_other (pass : Pass site terms findings a b) (keyed : a.2.ledger.Keyed)
    (read : MemberRecord.ofIdentifier i = .ok m) (other : v ∉ (documents findings).map (·.1)) :
    v ∈ referencesOf (b.2.ledger.member? i) ↔ v ∈ referencesOf (a.2.ledger.member? i) := by
  induction pass with
  | done => rfl
  | failed grown onward ih => exact ih keyed other
  | @applied c records rest stats h b time admits extracted ticked onward ih =>
      rw [documents_applied, List.map_cons, List.mem_cons, not_or] at other
      refine (ih (Holdings.keyed_applied keyed _ _ _) other.2).trans ?_
      refine (Holdings.mem_references_bare (d := (c.uri, records)) keyed (bare _ _ extracted) _ read v).trans ?_
      simp [other.1]

/-- A document of a pass is listed by the members that it refers to, and by those that listed it before unless it
dropped them. -/
theorem Pass.mem_references (pass : Pass site terms findings a b) (keyed : a.2.ledger.Keyed)
    (read : MemberRecord.ofIdentifier i = .ok m) (distinct : ((documents findings).map (·.1)).Nodup) :
    ∀ d ∈ documents findings, d.1 ∈ referencesOf (b.2.ledger.member? i) ↔
      i ∈ (Holdings.ownRecord d.1 d.2).memberReferences ∨
        d.1 ∈ referencesOf (a.2.ledger.member? i) ∧ ¬ a.2.Drops d i := by
  induction pass with
  | done => exact nofun
  | failed grown onward ih => exact ih keyed distinct
  | @applied c records rest stats h b time admits extracted ticked onward ih =>
      have bare' := bare _ _ extracted
      have keyed' := Holdings.keyed_applied keyed c.uri records (max 0 time)
      have first := Holdings.mem_references_bare (d := (c.uri, records)) keyed bare' (max 0 time) read
      rw [documents_applied, List.map_cons, List.nodup_cons] at distinct
      intro d member
      rcases List.mem_cons.1 member with rfl | member
      · refine (onward.mem_references_other bare keyed' read distinct.1).trans ((first c.uri).trans ?_)
        simp
      · have other : d.1 ≠ c.uri := fun same => distinct.1 (List.mem_map.2 ⟨d, member, same⟩)
        have stored : (h.applied c.uri records (max 0 time)).ledger.file? d.1 = h.ledger.file? d.1 :=
          Holdings.file?_applied_other (d := (c.uri, records)) keyed admits.normal bare'.own _
            (onward.admits d member).1.normal other
        have listed : d.1 ∈ referencesOf ((h.applied c.uri records (max 0 time)).ledger.member? i) ↔
            d.1 ∈ referencesOf (h.ledger.member? i) := (first d.1).trans (by simp [other])
        have dropped : ((h.applied c.uri records (max 0 time)).cleared c.uri).Drops d i ↔ h.Drops d i := by
          show (∃ f, (h.applied c.uri records (max 0 time)).ledger.file? d.1 = some f ∧ _) ↔ _
          rw [stored]
          rfl
        exact (ih keyed' distinct.2 d member).trans (or_congr_right (and_congr listed (not_congr dropped)))

end Passes

instance : Std.Symm Independent := ⟨fun _ _ => Independent.symm⟩

theorem nodup_of_independent {l : List (String × List Record)} (independent : l.Pairwise Independent) :
    (l.map (·.1)).Nodup := by
  rw [List.nodup_iff_pairwise_ne, List.pairwise_map]
  exact independent.imp fun apart => apart.uris

theorem Pass.inStep {site : Site} {terms : Terms} {findings : List Finding} {a b : IndexStats × Holdings}
    (pass : Pass site terms findings a b) (keyed : a.2.ledger.Keyed) (inStep : a.2.InStep site) :
    b.2.ledger.Keyed ∧ b.2.InStep site := by
  induction pass with
  | done => exact ⟨keyed, inStep⟩
  | failed grown onward ih => exact ih keyed (inStep.congr rfl fun _ _ => rfl)
  | applied admits extracted ticked onward ih =>
      exact ih (Holdings.keyed_applied keyed _ _ _) ((inStep.applied keyed admits _).congr rfl fun _ _ => rfl)

/-! ## Passes in another order -/

section Reordered

variable {site : Site} {terms : Terms} {findings findings' : List Finding} {stats stats' : IndexStats}
  {h : Holdings} {b b' : IndexStats × Holdings} {α : Type}
  (bare : ∀ uri records, terms.extracted uri records → Bare uri records)

include bare

/-- What is seen of passes in different orders is the same, if independent documents commute in what is seen. -/
theorem Pass.view_reordered (one : Pass site terms findings (stats, h) b)
    (two : Pass site terms findings' (stats', h) b') (keyed : h.ledger.Keyed) (view : View site α)
    (comm : ∀ {d d'}, Independent d d' → ∀ z, view.step (view.step z d) d' = view.step (view.step z d') d)
    (independent : (documents findings).Pairwise Independent)
    (perm : (documents findings).Perm (documents findings')) : view.see b'.2 = view.see b.2 := by
  rw [two.view bare keyed view, one.view bare keyed view]
  refine (perm.foldl_eq' (fun d member d' member' z => ?_) _).symm
  by_cases same : d = d'
  · rw [same]
  · exact comm (independent.forall member member' same) z

/-- **Passes over the same independent documents in different orders lead to the same, but for stamps.** -/
theorem Pass.reordered (one : Pass site terms findings (stats, h) b)
    (two : Pass site terms findings' (stats', h) b') (keyed : h.ledger.Keyed) (inStep : h.InStep site)
    (independent : (documents findings).Pairwise Independent)
    (perm : (documents findings).Perm (documents findings')) :
    b.2.Restamped ((documents findings).map (·.1)) b'.2 := by
  obtain ⟨keyed₁, inStep₁⟩ := one.inStep keyed inStep
  obtain ⟨keyed₂, inStep₂⟩ := two.inStep keyed inStep
  have distinct := nodup_of_independent independent
  have uris : ((documents findings).map (·.1)).Perm ((documents findings').map (·.1)) := perm.map _
  have distinct' := uris.nodup_iff.1 distinct
  refine Holdings.restamped keyed₁ keyed₂ inStep₁ inStep₂ ?_ ?_ ?_ ?_ ?_ ?_
  · exact fun key searchable => one.view_reordered bare two keyed (Holdings.symbolView site searchable)
      (fun apart => Holdings.symbols_comm searchable apart) independent perm
  · exact fun i e unread => one.view_reordered bare two keyed (Holdings.unnamedView site unread)
      (fun apart => Holdings.unnamed_comm unread apart) independent perm
  · exact fun i m read => one.view_reordered bare two keyed (Holdings.memberView site read)
      (fun apart => Holdings.members_comm read apart) independent perm
  · intro i m read v
    by_cases there : v ∈ (documents findings).map (·.1)
    · obtain ⟨d, member, rfl⟩ := List.mem_map.1 there
      exact (two.mem_references bare keyed read distinct' d (perm.mem_iff.1 member)).trans
        (one.mem_references bare keyed read distinct d member).symm
    · have there' : v ∉ (documents findings').map (·.1) := fun inside => there (uris.mem_iff.2 inside)
      exact (two.mem_references_other bare keyed read there').trans
        (one.mem_references_other bare keyed read there).symm
  · intro u other
    have other' : u ∉ (documents findings').map (·.1) := fun inside => other (uris.mem_iff.2 inside)
    exact (two.get?_otherFile bare keyed other').trans (one.get?_otherFile bare keyed other).symm
  · intro u member
    obtain ⟨d, there, rfl⟩ := List.mem_map.1 member
    obtain ⟨stamp, stored⟩ := one.settled bare keyed distinct d there
    obtain ⟨stamp', stored'⟩ := two.settled bare keyed distinct' d (perm.mem_iff.1 there)
    exact ⟨_, stamp', stored, stored'⟩

end Reordered

/-! ## In every history -/

/-- The terms at any time. -/
def Terms.timeless (terms : Terms) : Terms := { terms with clock := fun _ => True }

/-- Two states of an index hold the same but for the stamps of some files. Lookups answer so, and searches that the
index takes find the same entries, as far as the identifiers on the terms can be searched for. -/
structure Site.Agrees (site : Site) (x : Indexer) (terms : Terms) (uris : List String) (s : IndexState) (w : World)
    (s' : IndexState) (w' : World) : Prop extends Site.Alike site x uris s w s' w' where
  found : (∀ uri records, terms.extracted uri records → ∀ r ∈ records, Clean r.identifier) →
    ∀ criteria e, criteria.Clean → site.backend.takes criteria = true →
      (SearchIndex.Finds criteria s w e ↔ SearchIndex.Finds criteria s' w' e)

/-- What an indexer finds in documents that are handed over. -/
def Indexer.handed (x : Indexer) (ds : List TextDocument) : List Finding :=
  ds.map fun d => (⟨d.path, d.uri⟩, x.extract d)

/-- A document that can be handed over: it has a normal URI, and what it gives is admitted and on the terms. -/
structure Indexer.Takes (x : Indexer) (site : Site) (terms : Terms) (d : TextDocument) : Prop where
  normal : Uri.normalize d.uri = d.uri
  gives : ∀ records, x.extract d = some records → site.Admits d.uri records ∧ terms.extracted d.uri records

/-- What an indexer finds in the files at some paths, indexed one by one. -/
def Indexer.inspected (x : Indexer) (w : World) (paths : List Path) : List Finding :=
  (paths.map .ofPath).map (x.look w)

namespace Site.Stands

variable {site : Site} {terms : Terms} {x : Indexer} {h : Holdings} {s s₁ s₂ : IndexState} {w w₁ w₂ : World}
  {findings findings' : List Finding} {stats stats' last : IndexStats} {b b' : IndexStats × Holdings}
  {ds : List TextDocument} {paths : List Path}

/-- States that passes over the same independent documents lead to agree. -/
theorem agrees_reordered (at_ : x.At site) (reached : Holdings.Reached site terms h)
    (one : Pass site (terms.timeless.both .bare) findings (stats, h) b) (stands₁ : site.Stands b.2 s₁ w₁)
    (two : Pass site (terms.timeless.both .bare) findings' (stats', h) b') (stands₂ : site.Stands b'.2 s₂ w₂)
    (independent : (documents findings).Pairwise Independent)
    (perm : (documents findings).Perm (documents findings')) :
    site.Agrees x terms ((documents findings).map (·.1)) s₁ w₁ s₂ w₂ := by
  have bare : ∀ uri records, (terms.timeless.both .bare).extracted uri records → Bare uri records :=
    fun _ _ gave => gave.2
  have restamped := one.reordered bare two reached.keyed reached.inStep independent perm
  have reached' : Holdings.Reached site terms.timeless h := reached.mono (fun _ _ gave => gave) fun _ _ => trivial
  have leads : ∀ {findings : List Finding} {stats : IndexStats} {b : IndexStats × Holdings},
      Pass site (terms.timeless.both .bare) findings (stats, h) b → Holdings.Reached site terms.timeless b.2 :=
    fun pass => .pass (pass.mono (fun _ _ gave => gave.1) fun _ ticked => ticked.1) reached'
  refine ⟨stands₁.alike at_ stands₂ restamped, fun clean criteria e searched takes => ?_⟩
  rw [stands₁.finds_iff ((leads one).readable clean) searched takes,
    stands₂.finds_iff ((leads two).readable clean) searched takes, restamped.entries]

/-- Documents are taken one after the other, whether or not they give records. -/
theorem indexDocuments_ok (stands : site.Stands h s w) (at_ : x.At site) (always : ∀ time, terms.clock time)
    (takes : ∀ d ∈ ds, x.Takes site terms d) (stats : IndexStats) :
    ∃ b s' w', outcome (ds.foldlM x.indexDocument stats) s w = (.ok b.1, s', w') ∧ site.Stands b.2 s' w' ∧
      Pass site terms (x.handed ds) (stats, h) b := by
  induction ds generalizing h s w stats with
  | nil => exact ⟨(stats, h), s, w, rfl, stands, .done⟩
  | cons d ds ih =>
      have takes' := takes d (by simp)
      obtain ⟨b₁, s₁, w₁, first, stands₁, -, pass₁⟩ := stands.indexDocument_taken at_ takes'.normal
        (fun records gave => ⟨(takes'.gives records gave).1, (takes'.gives records gave).2, always _⟩) stats
      obtain ⟨b₂, s₂, w₂, second, stands₂, pass₂⟩ := ih stands₁ (fun d' member => takes d' (by simp [member])) b₁.1
      refine ⟨b₂, s₂, w₂, ?_, stands₂, (pass₁ d.path).append pass₂⟩
      rw [List.foldlM_cons, Action.outcome_bind_ok first, second]

/-- Files are indexed one after the other, each as it is found. -/
theorem indexFiles_ok (stands : site.Stands h s w) (at_ : x.At site)
    (told : Action.Along (x.Told site terms) (paths.foldlM (fun _ => x.indexFile) last) s w) (stats : IndexStats) :
    ∃ findings last' b s' w', outcome (paths.foldlM (fun _ => x.indexFile) last) s w = (.ok last', s', w') ∧
      site.Stands b.2 s' w' ∧ findings.map (·.1) = paths.map .ofPath ∧ (∀ p ∈ findings, Found x site w p) ∧
      Pass site terms findings (stats, h) b := by
  induction paths generalizing h s w last stats with
  | nil => exact ⟨[], last, (stats, h), s, w, rfl, stands, rfl, by simp, .done⟩
  | cons path paths ih =>
      rw [List.foldlM_cons] at told ⊢
      obtain ⟨findings₁, b₁, s₁, w₁, first, stands₁, around₁, listed₁, found₁, pass₁⟩ :=
        stands.indexFile_ok at_ told.first
      obtain ⟨stats₁, pass₁⟩ := pass₁.recount stats
      obtain ⟨findings₂, last₂, b₂, s₂, w₂, second, stands₂, listed₂, found₂, pass₂⟩ :=
        ih stands₁ ((Action.along_bind first).1 told).2 stats₁
      refine ⟨findings₁ ++ findings₂, last₂, b₂, s₂, w₂, ?_, stands₂, ?_, fun p member => ?_, pass₁.append pass₂⟩
      · rw [Action.outcome_bind_ok first, second]
      · rw [List.map_append, listed₁, listed₂]
        rfl
      · rcases List.mem_append.1 member with member | member
        · exact found₁ p member
        · exact (found₂ p member).before ⟨around₁, Action.workingDirectory first⟩

end Site.Stands

namespace History

variable {x : Indexer} {c : IndexConfig} {site : Site} {terms : Terms} {s : IndexState} {w : World}

/-- **The order in which independent documents are indexed does not matter.** Documents are handed over, files are
indexed one by one, or they are the candidates of a forced pass: in either order every step succeeds, and the same
is held in the end but for the stamps of the documents. -/
theorem indexed_in_any_order (history : History x c site terms s w) (made : x.Made c site) :
    (∀ (ds ds' : List TextDocument) (stats : IndexStats), ds.Perm ds' →
      (∀ d ∈ ds, x.Takes site (terms.both .bare) d) → (documents (x.handed ds)).Pairwise Independent →
      ∃ stats₁ s₁ w₁ stats₂ s₂ w₂, outcome (ds.foldlM x.indexDocument stats) s w = (.ok stats₁, s₁, w₁) ∧
        outcome (ds'.foldlM x.indexDocument stats) s w = (.ok stats₂, s₂, w₂) ∧
        site.Agrees x terms ((documents (x.handed ds)).map (·.1)) s₁ w₁ s₂ w₂) ∧
    (∀ (paths paths' : List Path) (stats : IndexStats), paths.Perm paths' → site.SameFiles w w paths →
      (documents (x.inspected w paths)).Pairwise Independent →
      Action.Along (x.Told site (terms.both .bare)) (paths.foldlM (fun _ => x.indexFile) stats) s w →
      Action.Along (x.Told site (terms.both .bare)) (paths'.foldlM (fun _ => x.indexFile) stats) s w →
      ∃ stats₁ s₁ w₁ stats₂ s₂ w₂,
        outcome (paths.foldlM (fun _ => x.indexFile) stats) s w = (.ok stats₁, s₁, w₁) ∧
        outcome (paths'.foldlM (fun _ => x.indexFile) stats) s w = (.ok stats₂, s₂, w₂) ∧
        site.Agrees x terms ((documents (x.inspected w paths)).map (·.1)) s₁ w₁ s₂ w₂) ∧
    ∀ paths paths' : List Path, (firsts .empty paths).Perm (firsts .empty paths') → site.SameFiles w w paths →
      (documents ((firsts .empty paths).map (x.look w))).Pairwise Independent →
      Action.Along (x.Told site (terms.both .bare)) (x.indexCandidates true paths) s w →
      Action.Along (x.Told site (terms.both .bare)) (x.indexCandidates true paths') s w →
      ∃ stats₁ s₁ w₁ stats₂ s₂ w₂, outcome (x.indexCandidates true paths) s w = (.ok stats₁, s₁, w₁) ∧
        outcome (x.indexCandidates true paths') s w = (.ok stats₂, s₂, w₂) ∧
        site.Agrees x terms (x.reindexed w paths) s₁ w₁ s₂ w₂ := by
  obtain ⟨h, stands, reached⟩ := history.stands made
  have at_ := made.at_
  have weaken : ∀ {findings : List Finding} {a b : IndexStats × Holdings}, Pass site (terms.both .bare) findings a b →
      Pass site (terms.timeless.both .bare) findings a b := fun pass =>
    pass.mono (fun _ _ gave => gave) fun _ _ => ⟨trivial, trivial⟩
  refine ⟨?_, ?_, ?_⟩
  · intro ds ds' stats perm takes independent
    have always : ∀ time, (terms.timeless.both .bare).clock time := fun _ => ⟨trivial, trivial⟩
    have takes' : ∀ d ∈ ds, x.Takes site (terms.timeless.both .bare) d := fun d member =>
      ⟨(takes d member).normal, (takes d member).gives⟩
    obtain ⟨b₁, s₁, w₁, done₁, stands₁, one⟩ := stands.indexDocuments_ok at_ always takes' stats
    obtain ⟨b₂, s₂, w₂, done₂, stands₂, two⟩ :=
      stands.indexDocuments_ok at_ always (fun d member => takes' d (perm.mem_iff.2 member)) stats
    exact ⟨b₁.1, s₁, w₁, b₂.1, s₂, w₂, done₁, done₂, Site.Stands.agrees_reordered at_ reached one stands₁ two
      stands₂ independent ((perm.map _).filterMap _)⟩
  · intro paths paths' stats perm same independent told told'
    obtain ⟨findings, last, b₁, s₁, w₁, done₁, stands₁, listed, found, one⟩ := stands.indexFiles_ok at_ told stats
    obtain ⟨findings', last', b₂, s₂, w₂, done₂, stands₂, listed', found', two⟩ :=
      stands.indexFiles_ok at_ told' stats
    have perm' : (paths.map Candidate.ofPath).Perm (paths'.map .ofPath) := perm.map _
    have inside : ∀ c ∈ paths.map Candidate.ofPath, c.path ∈ paths := by
      intro c member
      obtain ⟨path, there, rfl⟩ := List.mem_map.1 member
      exact there
    obtain rfl : findings = x.inspected w paths := findings_eq same listed inside found
    obtain rfl : findings' = x.inspected w paths' :=
      findings_eq same listed' (fun c member => inside c (perm'.mem_iff.2 member)) found'
    exact ⟨last, s₁, w₁, last', s₂, w₂, done₁, done₂, Site.Stands.agrees_reordered at_ reached (weaken one) stands₁
      (weaken two) stands₂ independent ((perm'.map _).filterMap _)⟩
  · intro paths paths' perm same independent told told'
    obtain ⟨findings, b₁, s₁, w₁, done₁, stands₁, -, listed, found, one⟩ := stands.indexCandidates_ok at_ told
    obtain ⟨findings', b₂, s₂, w₂, done₂, stands₂, -, listed', found', two⟩ := stands.indexCandidates_ok at_ told'
    rw [Holdings.due_forced] at listed listed'
    have inside : ∀ c ∈ firsts .empty paths, c.path ∈ paths := fun c first => (Candidate.mem_firsts first).2.1
    obtain rfl := findings_eq same listed inside found
    obtain rfl := findings_eq same listed' (fun c first => inside c (perm.mem_iff.2 first)) found'
    exact ⟨b₁.1, s₁, w₁, b₂.1, s₂, w₂, done₁, done₂, Site.Stands.agrees_reordered at_ reached (weaken one) stands₁
      (weaken two) stands₂ independent ((perm.map _).filterMap _)⟩

/-! ### Poles -/

/-- An interface and a method are declared, a trait is mentioned, and the method is referred to. -/
def sampleOneSide : List Record :=
  [sampleInterface, .klass ⟨"B", some .trait, none, 0⟩, .member { memberType := .method, memberName := "m" },
    .file sampleFile]

/-- The trait is declared, the interface is mentioned twice, and the method is referred to. -/
def sampleOtherSide : List Record :=
  [.klass ⟨"A", some .trait, none, 0⟩, .klass ⟨"B", some .trait, some ⟨"file:///i/../a.php", 0, 1⟩, 0⟩,
    .klass ⟨"A", some .interface, none, 0⟩, .file { sampleFile with path := "file:///i/../a.php" }]

/-- A file gives one side by its name and the other side by the way round. -/
def sampleSides : Extractor := fun document =>
  if document.uri = "file:///a.php" then some sampleOneSide
  else if document.uri = "file:///i/../a.php" then some sampleOtherSide
  else none

theorem sampleSides_independent :
    [("file:///a.php", sampleOneSide), ("file:///i/../a.php", sampleOtherSide)].Pairwise Independent := by
  have definitions : ∀ r ∈ sampleOneSide, ∀ r' ∈ sampleOtherSide, r.Defines r.key → ¬ r'.Defines r.key := by
    decide +kernel
  have mentions : ∀ r ∈ sampleOneSide, ∀ r' ∈ sampleOtherSide, r.Mentions r.key → ¬ r'.Mentions r.key := by
    decide +kernel
  refine List.pairwise_pair.2 ⟨by decide, ?_, ?_, ?_⟩
  · rintro r member r' member' key - ⟨rfl, one⟩
    exact definitions r member r' member' ⟨rfl, one⟩
  · rintro r member r' member' key - ⟨rfl, one⟩
    exact mentions r member r' member' ⟨rfl, one⟩
  · intro m m' member member'
    simp [sampleOtherSide] at member'

/-- What the sides give has no record of another file and no NUL. -/
theorem sampleSides_extracted {document : TextDocument} {records : List Record}
    (gave : sampleSides document = some records) : (Terms.both .clean .bare).extracted document.uri records := by
  have clean : (∀ r ∈ sampleOneSide, Clean r.identifier) ∧ ∀ r ∈ sampleOtherSide, Clean r.identifier := by
    decide +kernel
  rw [sampleSides] at gave
  split at gave
  next one =>
    cases gave
    exact ⟨clean.1, by simp [sampleOneSide, sampleInterface, sampleFile, one],
      by simp [sampleOneSide, sampleInterface]⟩
  next =>
    split at gave
    next other =>
      cases gave
      exact ⟨clean.2, by simp [sampleOtherSide, other], by simp [sampleOtherSide]⟩
    next => cases gave

/-- By its name and by the way round the file is read, and gives the two sides. -/
theorem sampleSides_inspected {s : IndexState} {w : World} {h : Holdings} (stands : smallSite.Stands h s w)
    (hasFile : w.HasFile) : documents ((smallIndexer sampleSides).inspected w [smallPath, wayRound]) =
      [("file:///a.php", sampleOneSide), ("file:///i/../a.php", sampleOtherSide)] := by
  have decoded : SymbolIndex.Text.decode? [] = some "" := rfl
  have one := small_document hasFile decoded w (.refl _ _)
  have other := small_wayRound stands hasFile decoded w (.refl _ _)
  have names : (Candidate.ofPath smallPath).uri = "file:///a.php" ∧
      (Candidate.ofPath wayRound).uri = "file:///i/../a.php" := by decide +kernel
  have gave : (smallIndexer sampleSides).extract = sampleSides := rfl
  simp [Indexer.inspected, Indexer.look, one, other, gave, sampleSides, documents, names]

theorem sampleSides_sameFiles {s : IndexState} {w : World} {h : Holdings} (stands : smallSite.Stands h s w)
    (hasFile : w.HasFile) : smallSite.SameFiles w w [smallPath, wayRound] := by
  intro v beside path member
  rcases List.mem_cons.1 member with rfl | member
  · exact @small_sameFiles w w [smallPath] [] 0 hasFile hasFile (by simp) v beside smallPath (by simp)
  · rw [List.mem_singleton.1 member]
    have here := find_wayRound stands.hosts hasFile
    have there := find_wayRound (beside.around.hosts stands.hosts) (shows_of_around beside.around hasFile)
    rw [Disk.read, Disk.read, Disk.stat, Disk.stat, here, there]
    exact ⟨rfl, rfl⟩

/-- The two sides come to the same in either order, handed over, from their files and in a pass. -/
theorem sample_indexed_in_any_order :
    ∃ s w, History (smallIndexer sampleSides) smallConfig smallSite .clean s w ∧
      (∃ stats₁ s₁ w₁ stats₂ s₂ w₂,
        outcome ([⟨"file:///a.php", smallPath, ""⟩, ⟨"file:///i/../a.php", wayRound, ""⟩].foldlM
          (smallIndexer sampleSides).indexDocument {}) s w = (.ok stats₁, s₁, w₁) ∧
        outcome ([⟨"file:///i/../a.php", wayRound, ""⟩, ⟨"file:///a.php", smallPath, ""⟩].foldlM
          (smallIndexer sampleSides).indexDocument {}) s w = (.ok stats₂, s₂, w₂) ∧
        smallSite.Agrees (smallIndexer sampleSides) .clean ["file:///a.php", "file:///i/../a.php"] s₁ w₁ s₂ w₂) ∧
      (∃ stats₁ s₁ w₁ stats₂ s₂ w₂,
        outcome ([smallPath, wayRound].foldlM (fun _ => (smallIndexer sampleSides).indexFile) {}) s w =
          (.ok stats₁, s₁, w₁) ∧
        outcome ([wayRound, smallPath].foldlM (fun _ => (smallIndexer sampleSides).indexFile) {}) s w =
          (.ok stats₂, s₂, w₂) ∧
        smallSite.Agrees (smallIndexer sampleSides) .clean ["file:///a.php", "file:///i/../a.php"] s₁ w₁ s₂ w₂) ∧
      ∃ stats₁ s₁ w₁ stats₂ s₂ w₂,
        outcome ((smallIndexer sampleSides).indexCandidates true [smallPath, wayRound]) s w =
          (.ok stats₁, s₁, w₁) ∧
        outcome ((smallIndexer sampleSides).indexCandidates true [wayRound, smallPath]) s w =
          (.ok stats₂, s₂, w₂) ∧
        smallSite.Agrees (smallIndexer sampleSides) .clean ["file:///a.php", "file:///i/../a.php"] s₁ w₁ s₂ w₂ := by
  obtain ⟨s, w, history, stands, hasFile⟩ := Comes.start sampleSides .clean
  have told := fun {α : Type} => @small_told sampleSides (.both .clean .bare) α
    (fun _ _ gave => sampleSides_extracted gave) fun _ => ⟨trivial, trivial⟩
  have same := sampleSides_sameFiles stands hasFile
  have inspected := sampleSides_inspected stands hasFile
  have distinct : ([smallPath, wayRound].map fun path => (Candidate.ofPath path).uri).Nodup ∧
      ([wayRound, smallPath].map fun path => (Candidate.ofPath path).uri).Nodup := by decide +kernel
  have considered : firsts .empty [smallPath, wayRound] = [smallPath, wayRound].map .ofPath :=
    Candidate.firsts_of_nodup distinct.1 fun path _ => SortedSet.not_mem_empty _
  have considered' : firsts .empty [wayRound, smallPath] = [wayRound, smallPath].map .ofPath :=
    Candidate.firsts_of_nodup distinct.2 fun path _ => SortedSet.not_mem_empty _
  obtain ⟨handed, files, pass⟩ := indexed_in_any_order history (smallIndexer_made sampleSides)
  refine ⟨s, w, history, ?_, ?_, ?_⟩
  · refine handed _ _ {} (.swap _ _ _) (fun d member => ?_) sampleSides_independent
    have normal : Uri.normalize d.uri = d.uri := by
      rcases List.mem_pair.1 member with rfl | rfl
      · exact normal_samplePath
      · decide +kernel
    exact ⟨normal, fun records gave => ⟨smallSite_admits normal records, sampleSides_extracted gave⟩⟩
  · have swapped := files _ _ {} (.swap _ _ _) same (inspected ▸ sampleSides_independent) (told _ _ _) (told _ _ _)
    rwa [inspected] at swapped
  · have perm : (firsts .empty [smallPath, wayRound]).Perm (firsts .empty [wayRound, smallPath]) := by
      rw [considered, considered']
      exact .swap _ _ _
    have looked : documents ((firsts .empty [smallPath, wayRound]).map ((smallIndexer sampleSides).look w)) =
        [("file:///a.php", sampleOneSide), ("file:///i/../a.php", sampleOtherSide)] := by
      rw [considered]
      exact inspected
    have swapped := pass _ _ perm same (looked ▸ sampleSides_independent) (told _ _ _) (told _ _ _)
    rwa [Indexer.reindexed, looked] at swapped

end History

end SymbolIndex
