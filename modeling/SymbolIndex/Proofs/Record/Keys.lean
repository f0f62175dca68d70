import SymbolIndex.Proofs.Record.RoundTrip

/-!
# Proofs.Record.Keys — identifiers of members

A member identifier is a kind, a mark and a name. The first mark parts them whatever the name is, so the
identifier determines both (`memberIdentifier_inj`), and reading one with a name in it gives back what
it was made of (`parseMember_eq_ok`).
-/

namespace SymbolIndex

set_option autoImplicit false

theorem MemberType.name_of_ofName? {s : String} {kind : MemberType} (named : ofName? s = some kind) :
    kind.name = s := by
  rw [ofName?] at named
  simpa using List.find?_some named

namespace RecordKey

theorem splitAtMark_append {before : List Char} (unmarked : '#' ∉ before) (after : List Char) :
    splitAtMark (before ++ '#' :: after) = some (before, after) := by
  induction before with
  | nil => rfl
  | cons c before ih =>
      rw [List.mem_cons, not_or] at unmarked
      rw [List.cons_append, splitAtMark, if_neg (Ne.symm unmarked.1), ih unmarked.2]
      rfl

theorem eq_of_splitAtMark {cs before after : List Char}
    (parts : splitAtMark cs = some (before, after)) : cs = before ++ '#' :: after := by
  induction cs generalizing before with
  | nil => cases parts
  | cons c cs ih =>
      rw [splitAtMark] at parts
      split at parts
      next mark =>
        obtain ⟨rfl, rfl⟩ : [] = before ∧ cs = after := by simpa using parts
        rw [mark]
        rfl
      · rw [Option.map_eq_some_iff] at parts
        obtain ⟨⟨first, rest⟩, split, same⟩ := parts
        obtain ⟨rfl, rfl⟩ : c :: first = before ∧ rest = after := by simpa using same
        rw [ih split]
        rfl

theorem splitAtMark_memberIdentifier (kind : MemberType) (name : String) :
    splitAtMark (memberIdentifier kind name).toList = some (kind.name.toList, name.toList) := by
  have shape : (memberIdentifier kind name).toList = kind.name.toList ++ '#' :: name.toList := by
    simp [memberIdentifier]
  have unmarked : '#' ∉ kind.name.toList := by cases kind <;> decide
  rw [shape, splitAtMark_append unmarked]

theorem memberIdentifier_inj {kind kind' : MemberType} {name name' : String} :
    memberIdentifier kind name = memberIdentifier kind' name' ↔ kind = kind' ∧ name = name' := by
  constructor
  · intro same
    have parts := splitAtMark_memberIdentifier kind name
    rw [same, splitAtMark_memberIdentifier, Option.some.injEq, Prod.mk.injEq, String.toList_inj,
      String.toList_inj] at parts
    have kinds : some kind' = some kind := by
      rw [← MemberType.ofName?_name kind', parts.1, MemberType.ofName?_name]
    exact ⟨(Option.some.inj kinds).symm, parts.2.symm⟩
  · rintro ⟨rfl, rfl⟩
    rfl

/-- An identifier is read as the kind and the name it is made of, if there is a name. -/
theorem parseMember_eq_ok {identifier : String} {kind : MemberType} {name : String} :
    parseMember identifier = .ok (kind, name) ↔
      identifier = memberIdentifier kind name ∧ name ≠ "" := by
  constructor
  · intro parsed
    rw [parseMember] at parsed
    split at parsed
    · cases parsed
    · cases parsed
    next first c rest parts =>
      have whole := eq_of_splitAtMark parts
      rw [MemberType.parse] at parsed
      split at parsed
      next kind' named =>
        obtain ⟨rfl, rfl⟩ : kind' = kind ∧ String.ofList (c :: rest) = name := by
          simpa [Except.map] using parsed
        refine ⟨?_, by simp [← String.toList_inj]⟩
        have spelled : String.ofList first = kind'.name := (MemberType.name_of_ofName? named).symm
        rw [← String.toList_inj, whole, memberIdentifier, ← spelled]
        simp
      · cases parsed
  · rintro ⟨rfl, some_⟩
    rw [parseMember, splitAtMark_memberIdentifier]
    cases shape : name.toList with
    | nil => exact absurd (String.toList_inj.1 (shape.trans rfl)) some_
    | cons c rest =>
        have whole : String.ofList (c :: rest) = name := by rw [← shape, String.ofList_toList]
        simp [MemberType.parse, MemberType.ofName?_name, whole, Except.map]

end RecordKey

theorem MemberRecord.ofIdentifier_identifier {kind : MemberType} {name : String} (some_ : name ≠ "") :
    MemberRecord.ofIdentifier (RecordKey.memberIdentifier kind name) =
      .ok { memberType := kind, memberName := name } := by
  rw [ofIdentifier, RecordKey.parseMember_eq_ok.2 ⟨rfl, some_⟩]
  rfl

theorem MemberRecord.ofIdentifier_eq_ok {text : String} {m : MemberRecord} :
    ofIdentifier text = .ok m ↔ ∃ kind name, name ≠ "" ∧
      text = RecordKey.memberIdentifier kind name ∧ m = { memberType := kind, memberName := name } := by
  constructor
  · intro read
    cases parsed : RecordKey.parseMember text with
    | error e =>
        rw [ofIdentifier, parsed] at read
        cases read
    | ok parts =>
        obtain ⟨spelled, some_⟩ := RecordKey.parseMember_eq_ok.1 parsed
        rw [spelled, ofIdentifier_identifier some_, Except.ok.injEq] at read
        exact ⟨parts.1, parts.2, some_, spelled, read.symm⟩
  · rintro ⟨kind, name, some_, rfl, rfl⟩
    exact ofIdentifier_identifier some_

end SymbolIndex
