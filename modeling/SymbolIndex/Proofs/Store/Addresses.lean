import SymbolIndex.Proofs.Record.Keys
import SymbolIndex.Proofs.Store.FileNames

/-!
# Proofs.Store.Addresses — what a record is known by

A record is known by its key in three spellings: the flat form that a buffer uses, the path of a file,
and, if it is a member, the identifier that its kind and its name make up. The flat form has nothing
between the kind and the identifier. It still tells both, since no name of a kind begins with another
(`RecordType.eq_of_prefix`), whatever the identifier begins with. The path of a file ends in the same
three names under every root (`FileStore.components_recordPath`).

* `RecordKey.spellings_apart` — two keys share a spelling only if they are the same, and an identifier
  of a member is read back to what it is made of.
-/

namespace SymbolIndex

set_option autoImplicit false

/-- No name of a kind begins with another. -/
theorem RecordType.eq_of_prefix {type type' : RecordType} :
    type.name.toList <+: type'.name.toList → type = type' := by
  cases type <;> cases type' <;> decide

namespace RecordKey

/-- The flat form tells the kind, and what follows the kind is the identifier. -/
theorem storageKey_inj {key key' : RecordKey} (same : key.storageKey = key'.storageKey) : key = key' := by
  obtain ⟨type, identifier⟩ := key
  obtain ⟨type', identifier'⟩ := key'
  have chars : type.name.toList ++ identifier.toList = type'.name.toList ++ identifier'.toList := by
    simpa [storageKey] using congrArg String.toList same
  -- Two beginnings of one text: one of them begins with the other.
  have kinds : type = type' := by
    rcases List.prefix_or_prefix_of_prefix ⟨identifier.toList, rfl⟩ ⟨identifier'.toList, chars.symm⟩ with
      first | second
    · exact RecordType.eq_of_prefix first
    · exact (RecordType.eq_of_prefix second).symm
  subst kinds
  rw [String.toList_inj.1 (List.append_cancel_left chars)]

end RecordKey

namespace FileStore

/-- The names below a root, also if the root is the empty path. -/
theorem components_below_any (root : Path) {names : List Name} (proper : ∀ name ∈ names, name.Proper) :
    (root.below names).components = root.components ++ names := by
  obtain ⟨bytes⟩ := root
  cases bytes with
  | cons b rest => exact Path.components_below proper (by simp)
  | nil =>
      cases names with
      | nil => rfl
      | cons name names =>
          -- Nothing stands before the first name, and below that name there is a path.
          obtain ⟨solid, notDot, -, unslashed, -⟩ := proper name (by simp)
          have alone : (⟨[]⟩ : Path).join name = ⟨name⟩ := by simp [Path.join]
          have first : (⟨name⟩ : Path).components = [name] := by
            simp [Path.components, Path.pieces_of_unslashed unslashed, solid, notDot]
          rw [Path.below_cons, alone,
            Path.components_below (fun n member => proper n (List.mem_cons_of_mem _ member)) solid, first]
          rfl

/-- The path of a key is its three names below the root. -/
theorem components_recordPath (s : FileStore) (key : RecordKey) :
    (s.recordPath key).components = s.root.components ++ [shardName key, digitName key, fileName key] := by
  have path : s.recordPath key = s.root.below [shardName key, digitName key, fileName key] := by
    simp only [recordPath, recordDirectory, Path.child, Path.below, List.foldl_cons, List.foldl_nil, shardName,
      digitName, fileName]
  rw [path]
  refine components_below_any s.root fun name member => ?_
  simp only [List.mem_cons, List.not_mem_nil, or_false] at member
  rcases member with rfl | rfl | rfl
  · exact (shardName_spec key).1
  · exact (digitName_spec key).1
  · exact (fileName_spec key).1

/-- Where no two identifiers share a digest, paths with the same components lead to one key. -/
theorem recordPath_inj {S : String → Prop} (distinct : Sha256.DistinctOn S) {s : FileStore}
    {key key' : RecordKey} (used : S key.identifier) (used' : S key'.identifier)
    (same : (s.recordPath key).components = (s.recordPath key').components) : key = key' := by
  rw [components_recordPath, components_recordPath] at same
  have names := List.append_cancel_left same
  refine fileNames_inj distinct used used' ?_
  rw [fileNames, fileNames, directoryNames, directoryNames]
  exact congrArg (recordsPart :: ·) names

end FileStore

/-- **No two keys share a spelling.** The flat form is a key's own, whatever the identifier; so is the
path of its file in any store, spelled in any way, if the identifiers in use have digests of their own.
An identifier is read as that of a member exactly if it is the name of a kind of members, a `#` and a
name with something in it, and what was read spells it again. -/
theorem RecordKey.spellings_apart :
    (∀ key key' : RecordKey, key.storageKey = key'.storageKey → key = key') ∧
      (∀ (S : String → Prop), Sha256.DistinctOn S → ∀ (s : FileStore) (key key' : RecordKey),
        S key.identifier → S key'.identifier →
        (s.recordPath key).components = (s.recordPath key').components → key = key') ∧
      ∀ text : String,
        ((∃ m, MemberRecord.ofIdentifier text = .ok m) ↔
          ∃ (kind : MemberType) (name : String), name ≠ "" ∧ text = kind.name ++ "#" ++ name) ∧
        ∀ m, MemberRecord.ofIdentifier text = .ok m → m.identifier = text := by
  refine ⟨fun _ _ same => storageKey_inj same, fun S distinct s key key' used used' same =>
    FileStore.recordPath_inj distinct used used' same, fun text => ⟨⟨?_, ?_⟩, ?_⟩⟩
  · rintro ⟨m, read⟩
    obtain ⟨kind, name, some_, spelled, -⟩ := MemberRecord.ofIdentifier_eq_ok.1 read
    exact ⟨kind, name, some_, spelled⟩
  · rintro ⟨kind, name, some_, spelled⟩
    exact ⟨_, MemberRecord.ofIdentifier_eq_ok.2 ⟨kind, name, some_, spelled, rfl⟩⟩
  · intro m read
    obtain ⟨kind, name, -, rfl, rfl⟩ := MemberRecord.ofIdentifier_eq_ok.1 read
    rfl

/-- Kinds and identifiers that are each other's names, a path below the empty root, and an identifier
that is parted at the first of its marks. -/
theorem RecordKey.sample_spellings_apart :
    (⟨.klass, "function"⟩ : RecordKey).storageKey ≠ (⟨.function, "class"⟩ : RecordKey).storageKey ∧
      ofMember .method "b" = ⟨.member, "method#b"⟩ ∧
      ((⟨⟨[]⟩⟩ : FileStore).recordPath ⟨.member, "method#b"⟩).components ≠
        ((⟨⟨[]⟩⟩ : FileStore).recordPath ⟨.member, "method##b"⟩).components ∧
      (∃ m, MemberRecord.ofIdentifier "method##b" = .ok m) ∧
      (⟨.method, "#b", none, .empty⟩ : MemberRecord).identifier = "method##b" := by
  have distinct : Sha256.DistinctOn (· ∈ ["method#b", "method##b"]) := by
    simp only [Sha256.DistinctOn, List.mem_cons, List.not_mem_nil, or_false]
    rintro s t (rfl | rfl) (rfl | rfl)
    · exact fun _ => rfl
    · decide +kernel
    · decide +kernel
    · exact fun _ => rfl
  have apart : (⟨.klass, "function"⟩ : RecordKey) ≠ ⟨.function, "class"⟩ ∧
      (⟨.member, "method#b"⟩ : RecordKey) ≠ ⟨.member, "method##b"⟩ := by decide
  have spelled : "method##b" = MemberType.method.name ++ "#" ++ "#b" := by decide
  have read : MemberRecord.ofIdentifier "method##b" = .ok ⟨.method, "#b", none, .empty⟩ := by
    rw [spelled]
    exact MemberRecord.ofIdentifier_identifier (by decide)
  refine ⟨fun same => apart.1 (spellings_apart.1 _ _ same), spellings_apart.1 _ _ (by decide), fun same => ?_,
    (spellings_apart.2.2 _).1.2 ⟨.method, "#b", by decide, spelled⟩, (spellings_apart.2.2 _).2 _ read⟩
  exact apart.2 (spellings_apart.2.1 _ distinct _ _ _ (by decide) (by decide) same)

end SymbolIndex
