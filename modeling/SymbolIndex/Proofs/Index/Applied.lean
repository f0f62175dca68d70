import SymbolIndex.Proofs.Index.Holdings
import SymbolIndex.Proofs.Ordered.Map
import SymbolIndex.Proofs.Record.Keys

/-!
# Proofs.Index.Applied — what a document changes, key by key

Applying a document writes in the end one record under each key it touches, so what an index holds
afterwards can be read key by key: the document's own record (`Holdings.get?_applied_file`), each member
with the references it has then (`Holdings.get?_applied_member`, `Gathered.member?_referred`), and for
every other key what was offered (`Holdings.get?_applied_other`).
-/

namespace SymbolIndex

set_option autoImplicit false

theorem MemberRecord.identifier_of_ofIdentifier {identifier : String} {m : MemberRecord}
    (read : MemberRecord.ofIdentifier identifier = .ok m) : m.identifier = identifier := by
  rw [MemberRecord.ofIdentifier] at read
  cases parsed : RecordKey.parseMember identifier with
  | error e =>
      rw [parsed] at read
      cases read
  | ok parts =>
      rw [parsed] at read
      cases read
      exact (RecordKey.parseMember_eq_ok.1 parsed).1.symm

namespace Ledger

variable {l l' : Ledger} {identifier : String} {m : MemberRecord}

/-- The member of an identifier stands under that identifier. -/
theorem get?_of_member? (stored : l.member? identifier = some m) :
    l.get? ⟨.member, identifier⟩ = some (.member m) := by
  rw [member?] at stored
  split at stored
  · cases stored
  next kind name parsed =>
    obtain ⟨rfl, -⟩ := RecordKey.parseMember_eq_ok.1 parsed
    split at stored
    next found =>
      cases stored
      exact found
    · cases stored

theorem member?_of_ofIdentifier (read : MemberRecord.ofIdentifier identifier = .ok m) :
    l.member? identifier = match l.get? ⟨.member, identifier⟩ with
      | some (.member m) => some m
      | _ => none := by
  rw [MemberRecord.ofIdentifier] at read
  rw [member?]
  cases parsed : RecordKey.parseMember identifier with
  | error e =>
      rw [parsed] at read
      cases read
  | ok parts =>
      obtain ⟨kind, name⟩ := parts
      obtain ⟨rfl, -⟩ := RecordKey.parseMember_eq_ok.1 parsed
      rfl

theorem member?_congr (same : ∀ key : RecordKey, key.recordType = .member → l.get? key = l'.get? key)
    (identifier : String) : l.member? identifier = l'.member? identifier := by
  rw [member?, member?]
  split
  · rfl
  · rw [same _ rfl]

theorem identifier_of_member? (keyed : l.Keyed) (stored : l.member? identifier = some m) :
    m.identifier = identifier :=
  congrArg RecordKey.identifier (keyed _ _ (get?_of_member? stored))

theorem file?_eq_some {uri : String} {f : FileRecord} :
    l.file? uri = some f ↔ l.get? (.ofFile uri) = some (.file f) := by
  rw [file?]
  constructor
  · intro found
    split at found
    · cases found
      assumption
    · cases found
  · intro found
    rw [found]

end Ledger

/-! ## Members -/

namespace Gathered

variable {l : Ledger} {g : Gathered} {uri i j : String} {m : MemberRecord}

/-- What is gathered stands under its own identifier. -/
def Keyed (g : Gathered) : Prop := ∀ i m, g.members.get? i = some m → m.identifier = i

theorem Keyed.put (keyed : g.Keyed) (own : m.identifier = i) : (g.put i m).Keyed := by
  intro j m' found
  rw [Gathered.put, SortedMap.get?_insert] at found
  split at found
  next same =>
    cases found
    exact own.trans same
  · exact keyed j m' found

theorem member?_congr {l l' : Ledger} (g : Gathered) (same : ∀ i, l.member? i = l'.member? i)
    (i : String) : g.member? l i = g.member? l' i := by
  rw [member?, same, member?]

theorem member?_put (g : Gathered) (l : Ledger) (i j : String) (m : MemberRecord) :
    (g.put i m).member? l j = if i = j then some m else g.member? l j := by
  rw [member?, put, SortedMap.get?_insert, member?]
  split <;> rfl

theorem identifier_of_member? (keyed : g.Keyed) (keyed' : l.Keyed) (found : g.member? l i = some m) :
    m.identifier = i := by
  rw [member?] at found
  cases there : g.members.get? i with
  | some m' =>
      rw [there] at found
      cases found
      exact keyed i _ there
  | none =>
      rw [there] at found
      exact Ledger.identifier_of_member? keyed' found

/-- The member after a document is taken from its references. -/
def dropped (uri : String) (m : MemberRecord) : MemberRecord := { m with references := m.references.erase uri }

/-- The member after a document is added to its references. -/
def added (uri : String) (m : MemberRecord) : MemberRecord := { m with references := m.references.insert uri }

/-- The member of an identifier, or an empty one if it is the identifier of a member. -/
def orEmpty (i : String) (m : Option MemberRecord) : Option MemberRecord :=
  m.or (MemberRecord.ofIdentifier i).toOption

theorem forget_eq (l : Ledger) (uri : String) (g : Gathered) (i : String) :
    g.forget l uri i = match (g.member? l i).map (dropped uri) with
      | some m => g.put i m
      | none => g := by
  rw [forget]
  cases g.member? l i <;> rfl

theorem refer_eq (l : Ledger) (uri : String) (g : Gathered) (i : String) :
    g.refer l uri i = match (orEmpty i (g.member? l i)).map (added uri) with
      | some m => g.put i m
      | none => g := by
  rw [refer, orEmpty]
  cases g.member? l i with
  | some m => rfl
  | none => cases MemberRecord.ofIdentifier i <;> rfl

theorem Keyed.forget (keyed : g.Keyed) (keyed' : l.Keyed) (uri i : String) : (g.forget l uri i).Keyed := by
  rw [Gathered.forget]
  cases found : g.member? l i with
  | none => exact keyed
  | some m => exact keyed.put (identifier_of_member? keyed keyed' found :)

theorem Keyed.refer (keyed : g.Keyed) (keyed' : l.Keyed) (uri i : String) : (g.refer l uri i).Keyed := by
  rw [Gathered.refer]
  cases found : g.member? l i with
  | some m => exact keyed.put (identifier_of_member? keyed keyed' found :)
  | none =>
      cases read : MemberRecord.ofIdentifier i with
      | error e => exact keyed
      | ok m => exact keyed.put (MemberRecord.identifier_of_ofIdentifier read :)

theorem member?_forget (l : Ledger) (uri : String) (g : Gathered) (i j : String) :
    (g.forget l uri i).member? l j = if i = j then (g.member? l j).map (dropped uri) else g.member? l j := by
  rw [forget_eq]
  by_cases same : i = j
  · subst same
    cases found : g.member? l i with
    | none => simp [found]
    | some m => simp [member?_put]
  · cases found : g.member? l i with
    | none => simp [same]
    | some m => simp [member?_put, same]

theorem member?_refer (l : Ledger) (uri : String) (g : Gathered) (i j : String) :
    (g.refer l uri i).member? l j =
      if i = j then (orEmpty j (g.member? l j)).map (added uri) else g.member? l j := by
  rw [refer_eq]
  by_cases same : i = j
  · subst same
    cases found : orEmpty i (g.member? l i) with
    | none =>
        have none_ : g.member? l i = none := by
          rw [orEmpty] at found
          exact (Option.or_eq_none_iff.1 found).1
        simp [none_]
    | some m => simp [member?_put]
  · cases found : orEmpty i (g.member? l i) with
    | none => simp [same]
    | some m => simp [member?_put, same]

/-- Steps that change one member each change, in turn, the members they are for. -/
theorem member?_foldl {step : Gathered → String → Gathered}
    {c : String → Option MemberRecord → Option MemberRecord}
    (each : ∀ g i j, (step g i).member? l j = if i = j then c j (g.member? l j) else g.member? l j)
    {is : List String} (distinct : is.Nodup) (g : Gathered) (j : String) :
    (is.foldl step g).member? l j = if j ∈ is then c j (g.member? l j) else g.member? l j := by
  induction is generalizing g with
  | nil => simp
  | cons i is ih =>
      obtain ⟨new, distinct⟩ := List.nodup_cons.1 distinct
      rw [List.foldl_cons, ih distinct, each]
      by_cases same : i = j
      · subst same
        simp [new]
      · simp [same, Ne.symm same]

theorem Keyed.foldl {step : Gathered → String → Gathered} (each : ∀ g i, g.Keyed → (step g i).Keyed)
    (keyed : g.Keyed) (is : List String) : (is.foldl step g).Keyed := by
  induction is generalizing g with
  | nil => exact keyed
  | cons i is ih => exact ih (each g i keyed)

/-- What is gathered stands under identifiers of a kind. -/
def Among (P : String → Prop) (g : Gathered) : Prop := ∀ i m, g.members.get? i = some m → P i

namespace Among

variable {P : String → Prop}

theorem put (among : g.Among P) (own : P i) (m : MemberRecord) : (g.put i m).Among P := by
  intro j m' found
  rw [Gathered.put, SortedMap.get?_insert] at found
  split at found
  next same => exact same ▸ own
  · exact among j m' found

theorem forget (among : g.Among P) (own : P i) (l : Ledger) (uri : String) : (g.forget l uri i).Among P := by
  rw [Gathered.forget]
  cases g.member? l i with
  | none => exact among
  | some m => exact among.put own _

theorem refer (among : g.Among P) (own : P i) (l : Ledger) (uri : String) : (g.refer l uri i).Among P := by
  rw [Gathered.refer]
  cases g.member? l i with
  | some m => exact among.put own _
  | none =>
      cases MemberRecord.ofIdentifier i with
      | error e => exact among
      | ok m => exact among.put own _

theorem foldl {step : Gathered → String → Gathered} {is : List String}
    (each : ∀ i ∈ is, ∀ g : Gathered, g.Among P → (step g i).Among P) (among : g.Among P) :
    (is.foldl step g).Among P := by
  induction is generalizing g with
  | nil => exact among
  | cons i is ih =>
      exact ih (fun i' member => each i' (by simp [member])) (each i (by simp) g among)

end Among

end Gathered

namespace Ledger

/-- The files that a member lists, none if there is no member. -/
def referencesOf (m : Option MemberRecord) : SortedSet String := (m.map (·.references)).getD .empty

@[simp] theorem referencesOf_none : referencesOf none = .empty := rfl

@[simp] theorem referencesOf_some (m : MemberRecord) : referencesOf (some m) = m.references := rfl

end Ledger

open Ledger (referencesOf)

instance SortedSet.decidableMem {κ : Type} [KeyOrder κ] [DecidableEq κ] (k : κ) (s : SortedSet κ) :
    Decidable (k ∈ s) := inferInstanceAs (Decidable (k ∈ s.toList))

theorem SortedSet.nodup {κ : Type} [KeyOrder κ] (s : SortedSet κ) : s.toList.Nodup :=
  s.ascending.imp KeyOrder.ne_of_lt

/-- Two sets with the same members are the same. -/
theorem SortedSet.ext_mem {κ : Type} [KeyOrder κ] {s t : SortedSet κ} (same : ∀ k, k ∈ s ↔ k ∈ t) : s = t := by
  have perm : s.toList.Perm t.toList := (List.perm_ext_iff_of_nodup s.nodup t.nodup).2 same
  refine ext (perm.eq_of_pairwise ?_ s.ascending t.ascending)
  intro a b _ _ less greater
  exact absurd greater (KeyOrder.asymm less)

namespace Holdings

variable {h : Holdings} {d : Holdings × Gathered} {uri i : String} {r : Record} {records : List Record}
  {key : RecordKey}

/-! ## Offers -/

/-- A record is taken in unless it is a placeholder of what is defined. -/
def take (h : Holdings) (r : Record) : Holdings :=
  if r.isPlaceholder && h.ledger.isDefined r.key then h else h.write r

/-- A record that a document does not keep back: all but members and the document itself. -/
def isOffered (uri : String) : Record → Bool
  | .member _ => false
  | .file f => f.path ≠ uri
  | _ => true

theorem fst_offer (d : Holdings × Gathered) (r : Record) : (offer d r).1 = d.1.take r := by
  rw [offer, take]
  split <;> rfl

theorem fst_gather (uri : String) (d : Holdings × Gathered) (r : Record) :
    (gather uri d r).1 = if isOffered uri r then d.1.take r else d.1 := by
  cases r with
  | member m =>
      simp only [gather, isOffered]
      split <;> rfl
  | file f =>
      simp only [gather, isOffered]
      split
      next own => simp [own]
      next other => simp [other, fst_offer]
  | klass c => simp [gather, isOffered, fst_offer]
  | function f => simp [gather, isOffered, fst_offer]
  | constant c => simp [gather, isOffered, fst_offer]

theorem fst_gatherAll (uri : String) (records : List Record) (d : Holdings × Gathered) :
    (records.foldl (gather uri) d).1 = (records.filter (isOffered uri)).foldl take d.1 := by
  induction records generalizing d with
  | nil => rfl
  | cons r records ih =>
      rw [List.foldl_cons, ih, fst_gather]
      cases offered : isOffered uri r <;> simp [offered]

theorem fst_gathered (h : Holdings) (uri : String) (records : List Record) :
    (h.gathered uri records).1 = (records.filter (isOffered uri)).foldl take h :=
  fst_gatherAll uri records (h, {})

theorem get?_take_other (other : r.key ≠ key) : (h.take r).ledger.get? key = h.ledger.get? key := by
  rw [take]
  split
  · rfl
  · cases firm : r.isSpeculative with
    | true => rw [write, Ledger.write_speculative firm]
    | false =>
        show (h.ledger.write r).get? key = _
        rw [Ledger.get?_write firm, if_neg other]

/-- What is not offered under a key changes nothing under it. -/
theorem get?_gathered_other (other : ∀ r ∈ records, isOffered uri r = true → r.key ≠ key) :
    (h.gathered uri records).1.ledger.get? key = h.ledger.get? key := by
  rw [fst_gathered]
  have each : ∀ r ∈ records.filter (isOffered uri), r.key ≠ key := fun r member =>
    other r (List.mem_filter.1 member).1 (List.mem_filter.1 member).2
  generalize records.filter (isOffered uri) = offered at each
  induction offered generalizing h with
  | nil => rfl
  | cons r offered ih =>
      rw [List.foldl_cons, ih fun r' member => each r' (by simp [member]),
        get?_take_other (each r (by simp))]

theorem get?_gathered_member (h : Holdings) (uri : String) (records : List Record) (i : String) :
    (h.gathered uri records).1.ledger.get? ⟨.member, i⟩ = h.ledger.get? ⟨.member, i⟩ := by
  refine get?_gathered_other fun r _ offered same => ?_
  have kind := congrArg RecordKey.recordType same
  cases r with
  | member m => cases offered
  | klass _ => cases kind
  | function _ => cases kind
  | constant _ => cases kind
  | file _ => cases kind

theorem member?_gathered (h : Holdings) (uri : String) (records : List Record) (i : String) :
    (h.gathered uri records).1.ledger.member? i = h.ledger.member? i :=
  Ledger.member?_congr (fun ⟨_, i⟩ type => by cases type; exact get?_gathered_member h uri records i) i

/-! ## The document itself -/

theorem file_offer (d : Holdings × Gathered) (r : Record) : (offer d r).2.file = d.2.file := by
  rw [offer]
  split <;> rfl

theorem file_gather {f : FileRecord} (found : (gather uri d r).2.file = some f) :
    d.2.file = some f ∨ r = .file f ∧ f.path = uri := by
  cases r with
  | member m =>
      simp only [gather] at found
      split at found <;> exact .inl found
  | file f' =>
      simp only [gather] at found
      split at found
      next own =>
        cases found
        exact .inr ⟨rfl, own⟩
      · exact .inl (file_offer d _ ▸ found)
  | klass c => exact .inl (file_offer d (.klass c) ▸ found)
  | function c => exact .inl (file_offer d (.function c) ▸ found)
  | constant c => exact .inl (file_offer d (.constant c) ▸ found)

/-- The record that a document has for itself is among its records. -/
theorem file_gathered {f : FileRecord} (found : (h.gathered uri records).2.file = some f) :
    .file f ∈ records ∧ f.path = uri := by
  have general : ∀ (d : Holdings × Gathered), (records.foldl (gather uri) d).2.file = some f →
      d.2.file = some f ∨ .file f ∈ records ∧ f.path = uri := by
    clear found
    intro d
    induction records generalizing d with
    | nil => exact .inl
    | cons r records ih =>
        intro found
        rcases ih (gather uri d r) found with there | ⟨member, own⟩
        · rcases file_gather there with there | ⟨rfl, own⟩
          · exact .inl there
          · exact .inr ⟨by simp, own⟩
        · exact .inr ⟨by simp [member], own⟩
  rcases general (h, {}) found with there | there
  · cases there
  · exact there

theorem path_stamped (normal : Uri.normalize uri = uri) (h : Holdings) (records : List Record) (now : Int64) :
    (h.stamped uri records now).path = uri := by
  show ((h.gathered uri records).2.file.getD (.ofPath uri)).path = uri
  cases found : (h.gathered uri records).2.file with
  | none => exact normal
  | some f => exact (file_gathered found).2

/-! ## Members -/

/-- What one record of a document makes of the member of an identifier. -/
def declare (i : String) (known : Option MemberRecord) : Record → Option MemberRecord
  | .member m =>
    if m.identifier = i then some { m with references := m.references.union (referencesOf known) }
    else known
  | _ => known

theorem member?_offer (d : Holdings × Gathered) (r : Record) (l : Ledger) (i : String) :
    (offer d r).2.member? l i = d.2.member? l i := by
  rw [offer]
  split <;> rfl

theorem member?_gather (uri : String) (d : Holdings × Gathered) (r : Record) (i : String) :
    (gather uri d r).2.member? d.1.ledger i = declare i (d.2.member? d.1.ledger i) r := by
  cases r with
  | member m =>
      simp only [gather, declare]
      by_cases same : m.identifier = i
      · subst same
        cases d.2.member? d.1.ledger m.identifier with
        | none => simp only [Gathered.member?_put]; rfl
        | some known => simp [Gathered.member?_put]
      · cases d.2.member? d.1.ledger m.identifier with
        | none => simp [Gathered.member?_put, same]
        | some known => simp [Gathered.member?_put, same]
  | file f =>
      simp only [gather, declare]
      split
      · rfl
      · exact member?_offer d _ _ i
  | klass _ => exact member?_offer d _ _ i
  | function _ => exact member?_offer d _ _ i
  | constant _ => exact member?_offer d _ _ i

theorem member?_gatherAll (uri : String) (records : List Record) (h : Holdings) (g : Gathered) (i : String) :
    (records.foldl (gather uri) (h, g)).2.member? h.ledger i =
      records.foldl (declare i) (g.member? h.ledger i) := by
  induction records generalizing h g with
  | nil => rfl
  | cons r records ih =>
      have alone : (gather uri (h, g) r).1 = (h.gathered uri [r]).1 := by
        rw [fst_gather]
        exact (fst_gather uri (h, {}) r).symm
      have same : ∀ i, (gather uri (h, g) r).1.ledger.member? i = h.ledger.member? i := fun i => by
        rw [alone]
        exact member?_gathered h uri [r] i
      have step := ih (gather uri (h, g) r).1 (gather uri (h, g) r).2
      simp only [Gathered.member?, same] at step
      rw [List.foldl_cons, List.foldl_cons, ← member?_gather uri (h, g) r i]
      exact step

/-- What the records of a document make of a member. -/
theorem member?_of_gathered (h : Holdings) (uri : String) (records : List Record) (i : String) :
    (h.gathered uri records).2.member? h.ledger i = records.foldl (declare i) (h.ledger.member? i) :=
  member?_gatherAll uri records h {} i

theorem mem_droppedReferences {previous : Option FileRecord} {file : FileRecord} :
    i ∈ Indexer.droppedReferences previous file ↔
      ∃ f, previous = some f ∧ i ∈ f.memberReferences ∧ i ∉ file.memberReferences := by
  cases previous with
  | none => simp [Indexer.droppedReferences]
  | some f =>
      simp [Indexer.droppedReferences, SortedSet.contains, SortedSet.mem_toList]

theorem nodup_droppedReferences (previous : Option FileRecord) (file : FileRecord) :
    (Indexer.droppedReferences previous file).Nodup := by
  cases previous with
  | none => exact List.nodup_nil
  | some f => exact f.memberReferences.nodup.filter _

/-- A member once it is in step with a document: the document is added to the references of those it refers
to now, and taken from those it no longer refers to. -/
theorem member?_referred (h : Holdings) (uri : String) (records : List Record) (now : Int64) (i : String) :
    (h.referred uri records now).member? h.ledger i =
      if i ∈ (h.stamped uri records now).memberReferences then
        (Gathered.orEmpty i (records.foldl (declare i) (h.ledger.member? i))).map (Gathered.added uri)
      else if i ∈ Indexer.droppedReferences (h.ledger.file? uri) (h.stamped uri records now) then
        (records.foldl (declare i) (h.ledger.member? i)).map (Gathered.dropped uri)
      else records.foldl (declare i) (h.ledger.member? i) := by
  have same := member?_gathered h uri records
  rw [← member?_of_gathered h uri records i]
  simp only [← Gathered.member?_congr _ same i]
  rw [referred, Gathered.member?_foldl (c := fun i m => (Gathered.orEmpty i m).map (Gathered.added uri))
      (fun g i j => Gathered.member?_refer _ uri g i j) (SortedSet.nodup _),
    Gathered.member?_foldl (c := fun i m => m.map (Gathered.dropped uri))
      (fun g i j => Gathered.member?_forget _ uri g i j) (nodup_droppedReferences _ _)]
  simp only [SortedSet.mem_toList]
  split
  next refers =>
    have kept : i ∉ Indexer.droppedReferences (h.ledger.file? uri) (h.stamped uri records now) :=
      fun dropped => by
        obtain ⟨-, -, -, other⟩ := mem_droppedReferences.1 dropped
        exact other refers
    rw [if_neg kept]
  · rfl

theorem keyed_gathered (h : Holdings) (uri : String) (records : List Record) :
    (h.gathered uri records).2.Keyed := by
  have general : ∀ d : Holdings × Gathered, d.2.Keyed → (records.foldl (gather uri) d).2.Keyed := by
    intro d own
    induction records generalizing d with
    | nil => exact own
    | cons r records ih =>
        refine ih _ ?_
        have offered : ∀ r, (offer d r).2.Keyed := fun r => by
          rw [offer]
          split <;> exact own
        cases r with
        | member m =>
            simp only [gather]
            split <;> exact own.put rfl
        | file f =>
            simp only [gather]
            split
            · exact own
            · exact offered _
        | klass c => exact offered _
        | function c => exact offered _
        | constant c => exact offered _
  exact general (h, {}) fun i m found => by cases found

theorem keyed_takeAll {rs : List Record} (keyed : h.ledger.Keyed) : (rs.foldl take h).ledger.Keyed := by
  induction rs generalizing h with
  | nil => exact keyed
  | cons r rs ih =>
      refine ih ?_
      rw [take]
      split
      · exact keyed
      · exact keyed.write r

theorem keyed_referred (keyed : h.ledger.Keyed) (uri : String) (records : List Record) (now : Int64) :
    (h.referred uri records now).Keyed := by
  have keyed' : (h.gathered uri records).1.ledger.Keyed := by
    rw [fst_gathered]
    exact keyed_takeAll keyed
  refine Gathered.Keyed.foldl (fun g i own => own.refer keyed' uri i) ?_ _
  exact Gathered.Keyed.foldl (fun g i own => own.forget keyed' uri i) (keyed_gathered h uri records) _

/-- The members that are written are those of the records, those that the document no longer refers to and
those that it refers to now. -/
theorem among_referred {P : String → Prop} {now : Int64}
    (emitted : ∀ m, .member m ∈ records → P m.identifier)
    (dropped : ∀ i ∈ Indexer.droppedReferences (h.ledger.file? uri) (h.stamped uri records now), P i)
    (referred : ∀ i ∈ (h.stamped uri records now).memberReferences, P i) :
    (h.referred uri records now).Among P := by
  have gathered : ∀ d : Holdings × Gathered, d.2.Among P → (records.foldl (gather uri) d).2.Among P := by
    clear dropped referred
    intro d among
    induction records generalizing d with
    | nil => exact among
    | cons r records ih =>
        refine ih (fun m member => emitted m (by simp [member])) _ ?_
        have offered : ∀ r, (offer d r).2.Among P := fun r => by
          rw [offer]
          split <;> exact among
        cases r with
        | member m =>
            simp only [gather]
            split <;> exact among.put (emitted m (by simp)) _
        | file f =>
            simp only [gather]
            split
            · exact among
            · exact offered _
        | klass c => exact offered _
        | function c => exact offered _
        | constant c => exact offered _
  refine Gathered.Among.foldl (fun i refers g among => among.refer (referred i refers) _ _) ?_
  exact Gathered.Among.foldl (fun i left g among => among.forget (dropped i left) _ _)
    (gathered (h, {}) fun i m found => by cases found)

/-! ## Afterwards -/

theorem firm_members (g : Gathered) : ∀ r ∈ g.members.values.map Record.member, r.isSpeculative = false := by
  intro r member
  obtain ⟨m, -, rfl⟩ := List.mem_map.1 member
  rfl

theorem find?_members {g : Gathered} (keyed : g.Keyed) (key : RecordKey) :
    (g.members.values.map Record.member).find? (fun r => r.key = key) =
      if key.recordType = .member then (g.members.get? key.identifier).map .member else none := by
  obtain ⟨kind, i⟩ := key
  rw [List.find?_map]
  by_cases member : kind = .member
  · subst member
    rw [if_pos rfl, ← SortedMap.find?_values keyed]
    congr 2
    funext m
    simp [Record.key, Record.recordType, Record.identifier]
  · rw [if_neg member, Option.map_eq_none_iff, List.find?_eq_none]
    intro m _ same
    exact member (congrArg RecordKey.recordType (of_decide_eq_true same)).symm

theorem nodup_members {g : Gathered} (keyed : g.Keyed) :
    ((g.members.values.map Record.member).map Record.key).Nodup := by
  rw [List.map_map]
  have ids := SortedMap.nodup_values keyed
  refine List.Nodup.of_map RecordKey.identifier ?_
  rw [List.map_map]
  exact ids

theorem get?_applied (keyed : h.ledger.Keyed) (uri : String) (records : List Record) (now : Int64)
    (key : RecordKey) : (h.applied uri records now).ledger.get? key =
      if (Record.file (h.stamped uri records now)).key = key then some (.file (h.stamped uri records now))
      else (if key.recordType = .member then
          ((h.referred uri records now).members.get? key.identifier).map .member else none).or
        ((h.gathered uri records).1.ledger.get? key) := by
  have own := keyed_referred keyed uri records now
  show (((h.gathered uri records).1.ledger.writeAll _).write _).get? key = _
  rw [Ledger.get?_write rfl, Ledger.get?_writeAll (firm_members _) (nodup_members own),
    find?_members own]

/-- The document's own record. -/
theorem get?_applied_file (normal : Uri.normalize uri = uri) (keyed : h.ledger.Keyed) (records : List Record)
    (now : Int64) : (h.applied uri records now).ledger.get? ⟨.file, uri⟩ =
      some (.file (h.stamped uri records now)) := by
  rw [get?_applied keyed, if_pos]
  rw [Record.key, Record.identifier, path_stamped normal]
  rfl

/-- A member as it is in step with the document. -/
theorem get?_applied_member (keyed : h.ledger.Keyed) (uri : String) (records : List Record) (now : Int64)
    (i : String) : (h.applied uri records now).ledger.get? ⟨.member, i⟩ =
      (((h.referred uri records now).member? h.ledger i).map Record.member).or
        (h.ledger.get? ⟨.member, i⟩) := by
  rw [get?_applied keyed, if_neg (fun same => by cases congrArg RecordKey.recordType same), if_pos rfl,
    get?_gathered_member, Gathered.member?]
  cases (h.referred uri records now).members.get? i with
  | some m => rfl
  | none =>
      simp only [Option.map_none, Option.none_or]
      cases stored : h.ledger.member? i with
      | none => rfl
      | some m => rw [Ledger.get?_of_member? stored]; rfl

/-- Every other record is what was offered. -/
theorem get?_applied_other (normal : Uri.normalize uri = uri) (keyed : h.ledger.Keyed) (records : List Record)
    (now : Int64) (hidden : key.recordType ≠ .member) (other : key ≠ ⟨.file, uri⟩) :
    (h.applied uri records now).ledger.get? key = (h.gathered uri records).1.ledger.get? key := by
  rw [get?_applied keyed, if_neg, if_neg hidden, Option.none_or]
  rw [Record.key, Record.identifier, path_stamped normal]
  exact Ne.symm other

/-- The member of an identifier, afterwards. -/
theorem member?_applied (keyed : h.ledger.Keyed) (uri : String) (records : List Record) (now : Int64)
    {m : MemberRecord} (read : MemberRecord.ofIdentifier i = .ok m) :
    (h.applied uri records now).ledger.member? i = (h.referred uri records now).member? h.ledger i := by
  rw [Ledger.member?_of_ofIdentifier read, get?_applied_member keyed]
  cases found : (h.referred uri records now).member? h.ledger i with
  | some m => rfl
  | none =>
      have missing : h.ledger.member? i = none := by
        rw [Gathered.member?] at found
        exact (Option.or_eq_none_iff.1 found).2
      rw [Ledger.member?_of_ofIdentifier read] at missing
      simpa using missing

end Holdings

end SymbolIndex
