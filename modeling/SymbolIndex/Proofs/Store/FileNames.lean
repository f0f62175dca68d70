import SymbolIndex.Proofs.Digest.Sha256
import SymbolIndex.Proofs.System.Paths
import SymbolIndex.Proofs.Text.Utf8
import SymbolIndex.Store.Backend
import Mathlib.Data.Bool.AllAny

/-!
# Proofs.Store.FileNames — the names of the files of records

The names that lead to the file of a key are letters, digits, underscores and dots, so the system takes
them as they are (`fit_fileNames`, `fit_draftNames`). They tell the kind of the key and the digest of
its identifier, and so the key itself where no two identifiers share a digest (`fileNames_inj`).
-/

namespace SymbolIndex.FileStore

open SymbolIndex.Text (encode hexDigit)
open Disk (Fit)

set_option autoImplicit false

/-! ## Plain names -/

/-- Letters, digits, underscores and dots. -/
def isPlain (c : Char) : Bool := c.isAlphanum || c == '_' || c == '.'

theorem ascii_of_isPlain {c : Char} (plain : isPlain c = true) :
    c.toNat < 128 ∧ c.toNat ≠ 0 ∧ c.toNat ≠ 47 := by
  unfold isPlain Char.isAlphanum Char.isAlpha Char.isUpper Char.isLower Char.isDigit at plain
  simp only [Bool.or_eq_true, Bool.and_eq_true, decide_eq_true_eq, beq_iff_eq, UInt32.le_iff_toNat_le] at plain
  have shape : c.toNat = c.val.toNat := rfl
  rcases plain with (((⟨low, high⟩ | ⟨low, high⟩) | ⟨low, high⟩) | rfl) | rfl
  · simp at low high; omega
  · simp at low high; omega
  · simp at low high; omega
  · decide
  · decide

/-- A plain text that does not begin with a dot and is not too long is a proper name. -/
theorem proper_of_plain {cs : List Char} (plain : ∀ c ∈ cs, isPlain c = true)
    (first : ∀ c ∈ cs.head?, c ≠ '.') (some_ : cs ≠ []) (short : cs.length ≤ Disk.maxNameLength) :
    Name.Proper (encode (String.ofList cs)) := by
  have ascii : ∀ c ∈ cs, c.toNat < 128 := fun c member => (ascii_of_isPlain (plain c member)).1
  rw [SymbolIndex.Text.encode_ascii ascii]
  have other : ∀ c ∈ cs, ∀ n : UInt8, n.toNat ≠ c.toNat → n ≠ UInt8.ofNat c.toNat := by
    rintro c member _ different rfl
    have small := ascii c member
    rw [UInt8.toNat_ofNat'] at different
    omega
  have free : ∀ n : UInt8, (∀ c ∈ cs, n.toNat ≠ c.toNat) →
      n ∉ cs.map fun c => UInt8.ofNat c.toNat := by
    intro n different member
    obtain ⟨c, listed, same⟩ := List.mem_map.1 member
    exact other c listed n (different c listed) same.symm
  obtain ⟨c, cs, rfl⟩ := List.exists_cons_of_ne_nil some_
  have dotted : UInt8.ofNat c.toNat ≠ dot := by
    refine (other c (by simp) dot fun same => first c (by simp) ?_).symm
    exact Char.toNat_inj.1 same.symm
  refine ⟨by simp, by simp [dotted], by simp [dotted, Disk.dotDot], ?_, ?_, by simpa using short⟩
  · exact free slash fun c member same => (ascii_of_isPlain (plain c member)).2.2 same.symm
  · exact free 0 fun c member same => (ascii_of_isPlain (plain c member)).2.1 same.symm

theorem isPlain_hexDigit : ∀ n < 16, isPlain (hexDigit n) = true ∧ hexDigit n ≠ '.' := by decide

/-! ## The names of a key -/

/-- The digits of the digest of an identifier. -/
def digits (identifier : String) : List Char := (Sha256.hexDigest (encode identifier)).toList

theorem length_digits (identifier : String) : (digits identifier).length = 64 :=
  Sha256.length_hexDigest _

theorem plain_digits {identifier : String} {c : Char} (member : c ∈ digits identifier) :
    isPlain c = true ∧ c ≠ '.' := by
  obtain ⟨n, small, rfl⟩ := Sha256.mem_hexDigest member
  exact isPlain_hexDigit n small

/-- The name of the first directory of a key. -/
def shardName (key : RecordKey) : Name := encode (recordNames key).1

/-- The name of the second directory of a key. -/
def digitName (key : RecordKey) : Name := encode (recordNames key).2.1

/-- The name of the file of a key. -/
def fileName (key : RecordKey) : Name := encode (recordNames key).2.2

/-- The name of the draft of that file. -/
def draftName (key : RecordKey) : Name := encode ((recordNames key).2.2 ++ ".tmp")

/-- The name of the directory of records, in bytes. -/
def recordsPart : Name := encode recordsName

/-- The name of the file of the time of the last build. -/
def timestampName : Name := encode ("timestamp.v" ++ toString schemaVersion)

/-- The name of the draft of that file. -/
def timestampDraftName : Name := encode "timestamp.tmp"

/-- The names that lead to the directory of a key. -/
def directoryNames (key : RecordKey) : List Name := [recordsPart, shardName key, digitName key]

/-- The names that lead to the file of a key. -/
def fileNames (key : RecordKey) : List Name := directoryNames key ++ [fileName key]

/-- The names that lead to the draft of that file. -/
def draftNames (key : RecordKey) : List Name := directoryNames key ++ [draftName key]

/-- The store of an index. -/
def ofRoot (root : Path) : FileStore := ⟨root.child recordsName⟩

theorem child_below (root : Path) (names : List Name) (name : String) :
    (root.below names).child name = root.below (names ++ [encode name]) := by
  rw [Path.below_append]
  rfl

theorem root_below (root : Path) : (ofRoot root).root = root.below [recordsPart] := rfl

theorem recordDirectory_below (root : Path) (key : RecordKey) :
    (ofRoot root).recordDirectory key = root.below (directoryNames key) := by
  simp only [recordDirectory, root_below, child_below]
  rfl

theorem recordPath_below (root : Path) (key : RecordKey) :
    (ofRoot root).recordPath key = root.below (fileNames key) := by
  rw [recordPath, recordDirectory_below, child_below]
  rfl

theorem draftPath_below (root : Path) (key : RecordKey) :
    (ofRoot root).draftPath key = root.below (draftNames key) := by
  rw [draftPath, recordDirectory_below, child_below]
  rfl

theorem timestampPath_below (root : Path) :
    (ofRoot root).timestampPath = root.below [recordsPart, timestampName] := by
  rw [timestampPath, root_below, child_below]
  rfl

/-! ## Their characters -/

/-- The characters of the name of the first directory. -/
theorem shardName_chars (key : RecordKey) : ∃ c, isPlain c = true ∧
    (recordNames key).1 = String.ofList (key.recordType.name.toList ++ ['_', c]) := by
  obtain ⟨c, more, shape⟩ : ∃ c more, digits key.identifier = c :: more :=
    List.exists_cons_of_length_pos (by rw [length_digits]; decide)
  refine ⟨c, (plain_digits (by rw [shape]; simp)).1, ?_⟩
  have name : (recordNames key).1 = key.recordType.name ++ "_" ++
      String.ofList (((digits key.identifier).drop 0).take 1) := rfl
  rw [name, shape, ← String.toList_inj]
  simp

theorem digitName_chars (key : RecordKey) : ∃ c, isPlain c = true ∧ c ≠ '.' ∧
    (recordNames key).2.1 = String.ofList [c] := by
  obtain ⟨c, d, more, shape⟩ : ∃ c d more, digits key.identifier = c :: d :: more := by
    have long := length_digits key.identifier
    cases first : digits key.identifier with
    | nil => simp [first] at long
    | cons c rest =>
        cases second : rest with
        | nil => simp [first, second] at long
        | cons d more => exact ⟨c, d, more, rfl⟩
  obtain ⟨plain, notDot⟩ := @plain_digits key.identifier d (by rw [shape]; simp)
  refine ⟨d, plain, notDot, ?_⟩
  have name : (recordNames key).2.1 =
      String.ofList (((digits key.identifier).drop 1).take 1) := rfl
  rw [name, shape]
  rfl

theorem fileName_chars (key : RecordKey) :
    (recordNames key).2.2 = String.ofList (digits key.identifier ++ ".cache".toList) := by
  have name : (recordNames key).2.2 = String.ofList (digits key.identifier) ++ ".cache" := rfl
  rw [name, ← String.toList_inj]
  simp

theorem plain_name (type : RecordType) :
    (∀ c ∈ type.name.toList, isPlain c = true ∧ c ≠ '_') ∧ type.name.toList.length ≤ 8 ∧
      ∀ c ∈ type.name.toList.head?, c ≠ '.' := by
  have letters : type.name.toList.all (fun c => isPlain c = true ∧ c ≠ '_') = true := by cases type <;> decide
  have short : type.name.toList.length ≤ 8 := by cases type <;> decide
  have first : type.name.toList.head?.all (fun c => c ≠ '.') = true := by cases type <;> decide
  refine ⟨List.all_iff_forall_prop.1 letters, short, fun c head => ?_⟩
  rw [Option.mem_def.1 head] at first
  simpa using first

theorem shardName_spec (key : RecordKey) : (shardName key).Proper ∧ (shardName key).length ≤ 10 := by
  obtain ⟨c, plain, chars⟩ := shardName_chars key
  obtain ⟨letters, short, first⟩ := plain_name key.recordType
  have all : ∀ d ∈ key.recordType.name.toList ++ ['_', c], isPlain d = true := by
    intro d member
    rcases List.mem_append.1 member with member | member
    · exact (letters d member).1
    · rcases List.mem_cons.1 member with rfl | member
      · decide
      · exact List.mem_singleton.1 member ▸ plain
  have length : (key.recordType.name.toList ++ ['_', c]).length ≤ 10 := by
    rw [List.length_append]
    exact Nat.add_le_add_right short 2
  rw [shardName, chars]
  constructor
  · refine proper_of_plain all ?_ (by simp) (Nat.le_trans length (by decide))
    intro d head
    rw [List.head?_append, Option.mem_def, Option.or_eq_some_iff] at head
    rcases head with head | ⟨-, head⟩
    · exact first d head
    · exact Option.some.inj head ▸ (by decide)
  · rw [SymbolIndex.Text.encode_ascii fun d member => (ascii_of_isPlain (all d member)).1]
    simpa using length

theorem digitName_spec (key : RecordKey) : (digitName key).Proper ∧ (digitName key).length = 1 := by
  obtain ⟨c, plain, notDot, chars⟩ := digitName_chars key
  have all : ∀ d ∈ [c], isPlain d = true := fun d member => List.mem_singleton.1 member ▸ plain
  rw [digitName, chars]
  constructor
  · exact proper_of_plain all (by simp [notDot]) (by simp) (by simp [Disk.maxNameLength])
  · rw [SymbolIndex.Text.encode_ascii fun d member => (ascii_of_isPlain (all d member)).1]
    simp

/-- The digits of a digest, followed by a plain text. -/
theorem digits_append_spec (identifier suffix : String)
    (plain : ∀ c ∈ suffix.toList, isPlain c = true) (short : suffix.toList.length ≤ 16) :
    Name.Proper (encode (String.ofList (digits identifier ++ suffix.toList))) ∧
      (encode (String.ofList (digits identifier ++ suffix.toList))).length ≤ 80 := by
  have all : ∀ d ∈ digits identifier ++ suffix.toList, isPlain d = true := by
    intro d member
    rcases List.mem_append.1 member with member | member
    · exact (plain_digits member).1
    · exact plain d member
  have length : (digits identifier ++ suffix.toList).length ≤ 80 := by
    rw [List.length_append, length_digits]
    omega
  constructor
  · refine proper_of_plain all ?_ ?_ (Nat.le_trans length (by decide))
    · intro d head
      cases shape : digits identifier with
      | nil => simpa [shape] using length_digits identifier
      | cons c more =>
          rw [shape] at head
          exact Option.some.inj head ▸ (plain_digits (by rw [shape]; simp)).2
    · intro empty
      have long := length_digits identifier
      rw [(List.append_eq_nil_iff.1 empty).1] at long
      cases long
  · rw [SymbolIndex.Text.encode_ascii fun d member => (ascii_of_isPlain (all d member)).1]
    simpa using length

theorem fileName_spec (key : RecordKey) : (fileName key).Proper ∧ (fileName key).length ≤ 80 := by
  rw [fileName, fileName_chars]
  exact digits_append_spec key.identifier ".cache" (List.all_iff_forall_prop.1 (by decide)) (by decide)

theorem draftName_chars (key : RecordKey) : (recordNames key).2.2 ++ ".tmp" =
    String.ofList (digits key.identifier ++ ".cache.tmp".toList) := by
  rw [fileName_chars, ← String.toList_inj]
  simp

theorem draftName_spec (key : RecordKey) : (draftName key).Proper ∧ (draftName key).length ≤ 80 := by
  rw [draftName, draftName_chars]
  exact digits_append_spec key.identifier ".cache.tmp" (List.all_iff_forall_prop.1 (by decide)) (by decide)

/-! ## Below an index -/

/-- The names that do not hang on a key. -/
theorem fit_fixed : Fit [recordsPart] ∧ Fit [recordsPart, timestampName] ∧ Fit [recordsPart, timestampDraftName] ∧
    recordsPart.length = 7 := by decide +kernel

theorem fit_records : Fit [recordsPart] := fit_fixed.1

theorem fit_timestamp : Fit [recordsPart, timestampName] := fit_fixed.2.1

theorem fit_timestampDraft : Fit [recordsPart, timestampDraftName] := fit_fixed.2.2.1

theorem length_recordsPart : recordsPart.length = 7 := fit_fixed.2.2.2

theorem recordsPart_proper : recordsPart.Proper := fit_records.proper _ (by simp)

theorem fit_shard (key : RecordKey) : Fit [recordsPart, shardName key] where
  proper := by simpa using ⟨recordsPart_proper, (shardName_spec key).1⟩
  some_ := by simp
  short := by
    have shard := (shardName_spec key).2
    simp only [Path.addedLength, length_recordsPart, Disk.room]
    omega

theorem fit_directoryNames (key : RecordKey) : Fit (directoryNames key) where
  proper := by
    simpa [directoryNames] using
      ⟨recordsPart_proper, (shardName_spec key).1, (digitName_spec key).1⟩
  some_ := by simp [directoryNames]
  short := by
    have shard := (shardName_spec key).2
    have digit := (digitName_spec key).2
    simp only [directoryNames, Path.addedLength, length_recordsPart, Disk.room]
    omega

/-- Room for a name in the directory of a key. -/
theorem fit_append (key : RecordKey) {name : Name} (spec : name.Proper ∧ name.length ≤ 80) :
    Fit (directoryNames key ++ [name]) where
  proper := by
    intro n member
    rcases List.mem_append.1 member with member | member
    · exact (fit_directoryNames key).proper n member
    · exact List.mem_singleton.1 member ▸ spec.1
  some_ := by simp
  short := by
    have shard := (shardName_spec key).2
    have digit := (digitName_spec key).2
    have long := spec.2
    simp only [directoryNames, List.cons_append, List.nil_append, Path.addedLength, length_recordsPart, Disk.room]
    omega

theorem fit_fileNames (key : RecordKey) : Fit (fileNames key) := fit_append key (fileName_spec key)

theorem fit_draftNames (key : RecordKey) : Fit (draftNames key) := fit_append key (draftName_spec key)

/-! ## Telling names apart -/

theorem shardName_inj {key key' : RecordKey} (same : shardName key = shardName key') :
    key.recordType = key'.recordType := by
  obtain ⟨c, -, chars⟩ := shardName_chars key
  obtain ⟨c', -, chars'⟩ := shardName_chars key'
  have texts := SymbolIndex.Text.encode_injective same
  rw [chars, chars', String.ofList_inj] at texts
  -- No name of a kind has an underscore, so the name is what stands before it.
  have before : ∀ (type : RecordType) (d : Char),
      (type.name.toList ++ ['_', d]).takeWhile (· != '_') = type.name.toList := by
    intro type d
    have letters : ∀ c ∈ type.name.toList, (c != '_') = true := fun c member => by
      simpa using ((plain_name type).1 c member).2
    rw [List.takeWhile_append_of_pos letters]
    simp
  have names := congrArg (List.takeWhile (· != '_')) texts
  rw [before, before, String.toList_inj] at names
  revert names
  cases key.recordType <;> cases key'.recordType <;> decide

theorem fileName_inj {key key' : RecordKey} (same : fileName key = fileName key') :
    Sha256.hexDigest (encode key.identifier) = Sha256.hexDigest (encode key'.identifier) := by
  have texts := SymbolIndex.Text.encode_injective same
  rw [fileName_chars, fileName_chars, String.ofList_inj] at texts
  exact String.toList_inj.1 (List.append_cancel_right texts)

/-- Where no two identifiers share a digest, a file tells its key. -/
theorem fileNames_inj {S : String → Prop} (distinct : Sha256.DistinctOn S) {key key' : RecordKey}
    (used : S key.identifier) (used' : S key'.identifier) (same : fileNames key = fileNames key') :
    key = key' := by
  simp only [fileNames, directoryNames, List.cons_append, List.nil_append, List.cons.injEq] at same
  obtain ⟨-, shard, -, file, -⟩ := same
  have type := shardName_inj shard
  have identifier := distinct _ _ used used' (fileName_inj file)
  obtain ⟨t, i⟩ := key
  obtain ⟨t', i'⟩ := key'
  exact congr (congrArg RecordKey.mk type) identifier

theorem fileName_ne_draftName (key key' : RecordKey) : fileName key ≠ draftName key' := by
  intro same
  have texts := SymbolIndex.Text.encode_injective same
  rw [fileName_chars, draftName_chars, String.ofList_inj] at texts
  have lengths := congrArg List.length texts
  rw [List.length_append, List.length_append, length_digits, length_digits] at lengths
  revert lengths
  decide

/-- A name of a first directory has an underscore. -/
theorem shardName_ne {key : RecordKey} {text : String} (without : '_' ∉ text.toList) :
    shardName key ≠ encode text := by
  intro same
  obtain ⟨c, -, chars⟩ := shardName_chars key
  have texts := SymbolIndex.Text.encode_injective same
  rw [chars] at texts
  apply without
  rw [← texts]
  simp

theorem shardName_ne_timestampName (key : RecordKey) : shardName key ≠ timestampName :=
  shardName_ne (by decide)

theorem shardName_ne_timestampDraftName (key : RecordKey) : shardName key ≠ timestampDraftName :=
  shardName_ne (by decide)

theorem timestampName_ne_draft : timestampName ≠ timestampDraftName :=
  SymbolIndex.Text.encode_ne (by decide)

theorem extension_fileName (key : RecordKey) : Name.extension? (fileName key) = some extension := by
  have ascii : ∀ c ∈ digits key.identifier ++ ".cache".toList, c.toNat < 128 := by
    intro c member
    rcases List.mem_append.1 member with member | member
    · exact (ascii_of_isPlain (plain_digits member).1).1
    · have each : ∀ c ∈ ".cache".toList, c.toNat < 128 := List.all_iff_forall_prop.1 (by decide)
      exact each c member
  have bytes : fileName key = (digits key.identifier).map (fun c => UInt8.ofNat c.toNat) ++
      [46, 99, 97, 99, 104, 101] := by
    rw [fileName, fileName_chars, SymbolIndex.Text.encode_ascii ascii, List.map_append]
    rfl
  obtain ⟨b, front, shape⟩ : ∃ b front,
      ((digits key.identifier).map (fun c => UInt8.ofNat c.toNat)).reverse = b :: front := by
    refine List.exists_cons_of_length_pos ?_
    rw [List.length_reverse, List.length_map, length_digits]
    decide
  have long : fileName key ≠ [dot, dot] := by
    intro same
    have lengths := congrArg List.length same
    rw [bytes, List.length_append, List.length_map, length_digits] at lengths
    cases lengths
  have reversed : (fileName key).reverse = 101 :: 104 :: 99 :: 97 :: 99 :: dot :: b :: front := by
    rw [bytes, List.reverse_append, shape]
    rfl
  have kept : extension = [99, 97, 99, 104, 101] := rfl
  rw [Name.extension?, reversed]
  simpa [dot, kept] using long

end SymbolIndex.FileStore
