import SymbolIndex.Record.Kind
import SymbolIndex.Uri.FileUri

/-!
# Record.Key — the address of a record

A record is addressed by its kind and an identifier: the qualified name of a class, a function or a
constant, `kind#name` for a member, the URI of a file. Keys are ordered by kind, then by identifier.
-/

namespace SymbolIndex

/-- The character that parts the segments of a qualified name. -/
def namespaceSeparator : Char := '\\'

/-- The last segment of a qualified name. -/
def shortName (fqn : String) : String :=
  String.ofList (fqn.toList.reverse.takeWhile (· ≠ namespaceSeparator)).reverse

/-- The kind and the identifier of a record. -/
structure RecordKey where
  recordType : RecordType
  identifier : String
  deriving DecidableEq

namespace RecordKey

/-- Kinds in their order, identifiers in the order of their bytes. -/
protected def Lt (a b : RecordKey) : Prop :=
  a.recordType.rank < b.recordType.rank ∨
    (a.recordType = b.recordType ∧ a.identifier < b.identifier)

instance (a b : RecordKey) : Decidable (RecordKey.Lt a b) :=
  inferInstanceAs (Decidable (_ ∨ _))

instance : KeyOrder RecordKey where
  lt := RecordKey.Lt
  decide := inferInstance
  irrefl a h := by
    rcases h with h | h
    · exact Nat.lt_irrefl _ h
    · exact String.lt_irrefl _ h.2
  trans {a b c} hab hbc := by
    rcases hab with h | ⟨e, h⟩ <;> rcases hbc with h' | ⟨e', h'⟩
    · exact .inl (Nat.lt_trans h h')
    · exact .inl (e' ▸ h)
    · exact .inl (e ▸ h')
    · exact .inr ⟨e.trans e', String.lt_trans h h'⟩
  eq_of_not_lt {a b} h h' := by
    obtain ⟨s, x⟩ := a
    obtain ⟨t, y⟩ := b
    have hr : s.rank = t.rank :=
      Nat.le_antisymm (Nat.not_lt.1 fun l => h' (.inl l)) (Nat.not_lt.1 fun l => h (.inl l))
    have hst : s = t := RecordType.rank_injective hr
    subst hst
    have hxy : x = y :=
      KeyOrder.eq_of_not_lt (fun l => h (.inr ⟨rfl, l⟩)) (fun l => h' (.inr ⟨rfl, l⟩))
    rw [hxy]

/-- The key of the class of a name. -/
def ofClass (fqn : String) : RecordKey := ⟨.klass, fqn⟩

/-- The key of the function of a name. -/
def ofFunction (fqn : String) : RecordKey := ⟨.function, fqn⟩

/-- The key of the constant of a name. -/
def ofConstant (fqn : String) : RecordKey := ⟨.constant, fqn⟩

/-- The identifier of a member. -/
def memberIdentifier (kind : MemberType) (name : String) : String :=
  kind.name ++ "#" ++ name

/-- The key of a member. -/
def ofMember (kind : MemberType) (name : String) : RecordKey :=
  ⟨.member, memberIdentifier kind name⟩

/-- The key of the file at a path. -/
def ofFile (path : String) : RecordKey := ⟨.file, Uri.normalize path⟩

/-- The flat form of a key: the name of the kind, then the identifier. -/
def storageKey (k : RecordKey) : String := k.recordType.name ++ k.identifier

/-- The form of a key for readers. -/
def display (k : RecordKey) : String := k.recordType.name ++ ":" ++ k.identifier

/-- The characters before the first `#` and those after it. -/
def splitAtMark : List Char → Option (List Char × List Char)
  | [] => none
  | c :: rest =>
    if c = '#' then some ([], rest)
    else (splitAtMark rest).map (fun parts => (c :: parts.1, parts.2))

/-- The kind and the name of a member identifier. The first `#` parts them, and the name is not
empty. -/
def parseMember (identifier : String) : Except ParseError (MemberType × String) :=
  match splitAtMark identifier.toList with
  | none => .error (.memberIdentifier identifier)
  | some (_, []) => .error (.memberIdentifier identifier)
  | some (kind, c :: name) =>
    (MemberType.parse (String.ofList kind)).map (fun t => (t, String.ofList (c :: name)))

end RecordKey

end SymbolIndex
