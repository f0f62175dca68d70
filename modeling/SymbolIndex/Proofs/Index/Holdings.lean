import SymbolIndex.Index.Document
import SymbolIndex.Proofs.Search.Catalog
import SymbolIndex.Proofs.Store.Ledger

/-!
# Proofs.Index.Holdings — what an index holds, and what a document does to it

An index holds records, entries and marks. What a document does to them is a plain function
(`Holdings.applied`), built the way the program is: take in the records one by one (`Holdings.gather`),
bring the members in step (`Gathered.forget`, `Gathered.refer`), write the members and the file.
-/

namespace SymbolIndex

set_option autoImplicit false

/-- What an index holds: records, entries and marks. -/
structure Holdings where
  ledger : Ledger
  catalog : Catalog
  marks : List String

namespace Ledger

/-- The file of a URI. -/
def file? (l : Ledger) (uri : String) : Option FileRecord :=
  match l.get? (.ofFile uri) with
  | some (.file file) => some file
  | _ => none

/-- The member of an identifier. A text that is no identifier has none. -/
def member? (l : Ledger) (identifier : String) : Option MemberRecord :=
  match RecordKey.parseMember identifier with
  | .error _ => none
  | .ok (kind, name) =>
    match l.get? (.ofMember kind name) with
    | some (.member m) => some m
    | _ => none

/-- Whether a definition is stored under a key. -/
def isDefined (l : Ledger) (key : RecordKey) : Bool := (l.get? key).any (fun stored => !stored.isPlaceholder)

end Ledger

namespace Gathered

/-- The member of an identifier: the one to be written, or else the stored one. -/
def member? (g : Gathered) (l : Ledger) (identifier : String) : Option MemberRecord :=
  (g.members.get? identifier).or (l.member? identifier)

/-- A document is taken from the references of a member. -/
def forget (l : Ledger) (uri : String) (g : Gathered) (identifier : String) : Gathered :=
  match g.member? l identifier with
  | some m => g.put identifier { m with references := m.references.erase uri }
  | none => g

/-- A document is added to the references of a member. -/
def refer (l : Ledger) (uri : String) (g : Gathered) (identifier : String) : Gathered :=
  match g.member? l identifier with
  | some m => g.put identifier { m with references := m.references.insert uri }
  | none =>
    match MemberRecord.ofIdentifier identifier with
    | .ok m => g.put identifier { m with references := m.references.insert uri }
    | .error _ => g

end Gathered

namespace Holdings

/-- Nothing. -/
def empty : Holdings := ⟨.empty, .empty, []⟩

/-- A record is written to the store and to the search index. -/
def write (h : Holdings) (r : Record) : Holdings :=
  { h with ledger := h.ledger.write r, catalog := h.catalog.write r }

/-- A record is written unless it is a placeholder of what is defined. -/
def offer (d : Holdings × Gathered) (r : Record) : Holdings × Gathered :=
  if r.isPlaceholder && d.1.ledger.isDefined r.key then d
  else (d.1.write r, { d.2 with written := d.2.written + 1 })

/-- One record of a document is taken in. -/
def gather (uri : String) (d : Holdings × Gathered) : Record → Holdings × Gathered
  | .member m =>
    match d.2.member? d.1.ledger m.identifier with
    | some known =>
      (d.1, d.2.put m.identifier { m with references := m.references.union known.references })
    | none => (d.1, d.2.put m.identifier m)
  | .file file => if file.path = uri then (d.1, { d.2 with file := some file }) else offer d (.file file)
  | record => offer d record

/-- What has been gathered when the records of a document are taken in. -/
def gathered (h : Holdings) (uri : String) (records : List Record) : Holdings × Gathered :=
  records.foldl (gather uri) (h, {})

/-- The record that a document gets. -/
def stamped (h : Holdings) (uri : String) (records : List Record) (now : Int64) : FileRecord :=
  Indexer.stamped uri (h.gathered uri records).2.file (h.ledger.file? uri) now

/-- What is to be written once the members are in step with the document. -/
def referred (h : Holdings) (uri : String) (records : List Record) (now : Int64) : Gathered :=
  let file := h.stamped uri records now
  let d := h.gathered uri records
  file.memberReferences.toList.foldl (Gathered.refer d.1.ledger uri)
    ((Indexer.droppedReferences (h.ledger.file? uri) file).foldl (Gathered.forget d.1.ledger uri) d.2)

/-- What an index holds when the records of a document are applied. -/
def applied (h : Holdings) (uri : String) (records : List Record) (now : Int64) : Holdings :=
  let d := (h.gathered uri records).1
  let members := (h.referred uri records now).members.values.map Record.member
  { d with ledger := (d.ledger.writeAll members).write (.file (h.stamped uri records now)) }

/-- The number of records that are written when the records of a document are applied. -/
def counted (h : Holdings) (uri : String) (records : List Record) (now : Int64) : Nat :=
  let g := h.referred uri records now
  g.written + g.members.size + 1

/-- Marks without those of a document. -/
def cleared (h : Holdings) (uri : String) : Holdings :=
  { h with marks := h.marks.filter (· ≠ Uri.normalize uri) }

@[simp] theorem marks_offer (d : Holdings × Gathered) (r : Record) : (offer d r).1.marks = d.1.marks := by
  unfold offer
  split <;> rfl

@[simp] theorem marks_gather (uri : String) (d : Holdings × Gathered) (r : Record) :
    (gather uri d r).1.marks = d.1.marks := by
  unfold gather
  split
  · split <;> rfl
  · split
    · rfl
    · exact marks_offer _ _
  · exact marks_offer _ _

@[simp] theorem marks_gathered (h : Holdings) (uri : String) (records : List Record) :
    (h.gathered uri records).1.marks = h.marks := by
  unfold gathered
  generalize ({} : Gathered) = g
  induction records generalizing h g with
  | nil => rfl
  | cons r records ih =>
      rw [List.foldl_cons]
      exact (ih _ _).trans (marks_gather uri (h, g) r)

@[simp] theorem marks_applied (h : Holdings) (uri : String) (records : List Record) (now : Int64) :
    (h.applied uri records now).marks = h.marks :=
  h.marks_gathered uri records

/-- What the records of a document do to an index does not hang on the marks. -/
theorem gather_marks (h : Holdings) (marks : List String) (uri : String) (g : Gathered) (r : Record) :
    gather uri ({ h with marks := marks }, g) r =
      ({ (gather uri (h, g) r).1 with marks := marks }, (gather uri (h, g) r).2) := by
  have offered : ∀ r, offer ({ h with marks := marks }, g) r =
      ({ (offer (h, g) r).1 with marks := marks }, (offer (h, g) r).2) := fun r => by
    unfold offer
    split <;> rfl
  unfold gather
  split
  · simp only
    split <;> rfl
  · split
    · rfl
    · exact offered _
  · exact offered _

theorem gathered_marks (h : Holdings) (marks : List String) (uri : String) (records : List Record) :
    { h with marks := marks }.gathered uri records =
      ({ (h.gathered uri records).1 with marks := marks }, (h.gathered uri records).2) := by
  unfold gathered
  generalize ({} : Gathered) = g
  induction records generalizing h g with
  | nil => rfl
  | cons r records ih => rw [List.foldl_cons, gather_marks, ih, List.foldl_cons]

theorem applied_marks (h : Holdings) (marks : List String) (uri : String) (records : List Record) (now : Int64) :
    { h with marks := marks }.applied uri records now = { h.applied uri records now with marks := marks } := by
  simp only [applied, referred, stamped, gathered_marks]

end Holdings

end SymbolIndex
