import SymbolIndex.Proofs.Json.RoundTrip
import SymbolIndex.Proofs.Record.RoundTrip
import SymbolIndex.Proofs.Store.FileNames
import SymbolIndex.Proofs.Store.Ledger
import SymbolIndex.Proofs.System.Named

/-!
# Proofs.Store.Shelf — a directory of records holds a ledger

`Shelved` relates a disk to a ledger: below the directory of records stand the files of the records of
the ledger and the directories that lead to them, each under the names of its key, and besides these
at most the file of the time of the last build. Two keys that are used share no file, because no two
identifiers that are used share a digest.

The lemmas after it say what writing, removing and clearing do to such a disk.
-/

namespace SymbolIndex

open SymbolIndex.Text (Bytes encode decode?)
open Disk (Hosts Fit addressOf OnTheWay)

set_option autoImplicit false

namespace FileStore

/-! ## Times as text -/

/-- The time of the last build that the content of a file writes. -/
def builtAtOf (content : Bytes) : Int64 :=
  ((decode? content).bind (fun t => parseInt64? (Text.trim t))).getD 0

theorem isBlank_of_isDigit {c : Char} (digit : c.isDigit = true) : Text.isBlank c = false := by
  simp only [Char.isDigit, Bool.and_eq_true, decide_eq_true_eq, UInt32.le_iff_toNat_le] at digit
  have low : 48 ≤ c.toNat := digit.1
  have high : c.toNat ≤ 57 := digit.2
  simp only [Text.isBlank, Bool.or_eq_false_iff, Bool.and_eq_false_iff, beq_eq_false_iff_ne,
    decide_eq_false_iff_not]
  omega

theorem trim_of_solid {s : String} (solid : ∀ c ∈ s.toList, Text.isBlank c = false) :
    Text.trim s = s := by
  have front : ∀ l : List Char, (∀ c ∈ l, Text.isBlank c = false) → l.dropWhile Text.isBlank = l := by
    intro l each
    cases l with
    | nil => rfl
    | cons c l => rw [List.dropWhile_cons, each c (by simp)]; rfl
  rw [Text.trim, Text.trimChars, front _ solid, front _ (by simpa using solid), List.reverse_reverse,
    String.ofList_toList]

theorem toString_int (i : Int) : (toString i).toList =
    if i < 0 then '-' :: Json.digitsOf i.natAbs else Json.digitsOf i.natAbs := by
  cases i with
  | ofNat n =>
      have positive : ¬ Int.ofNat n < 0 := Int.not_lt.2 (Int.natCast_nonneg n)
      rw [if_neg positive]
      exact String.toList_ofList
  | negSucc n =>
      rw [if_pos (Int.negSucc_lt_zero n)]
      show ("-" ++ String.ofList (Nat.toDigits 10 (n + 1))).toList = _
      rw [String.toList_append, @String.toList_ofList (Nat.toDigits 10 (n + 1))]
      rfl

theorem parseInt64?_toString (i : Int64) : parseInt64? (toString i.toInt) = some i := by
  have digits := fun c => @Json.isDigit_of_mem_digitsOf i.toInt.natAbs c
  have checked : ¬ (Json.digitsOf i.toInt.natAbs = [] ∨
      !(Json.digitsOf i.toInt.natAbs).all Char.isDigit) := by
    rw [not_or]
    exact ⟨Json.digitsOf_ne_nil _, by simpa using digits⟩
  rw [parseInt64?, toString_int]
  by_cases negative : i.toInt < 0
  · rw [if_pos negative]
    simp only [if_neg checked, Json.digitsValue_digitsOf, if_true]
    rw [show -(i.toInt.natAbs : Int) = i.toInt by omega, int64OfInt?_toInt]
  · rw [if_neg negative]
    obtain ⟨c, more, shape⟩ := List.exists_cons_of_ne_nil (Json.digitsOf_ne_nil i.toInt.natAbs)
    have digit : c.isDigit = true := digits c (by rw [shape]; simp)
    have notMinus : c ≠ '-' := by rintro rfl; cases digit
    have notPlus : c ≠ '+' := by rintro rfl; cases digit
    have value := Json.digitsValue_digitsOf i.toInt.natAbs
    rw [shape] at checked value ⊢
    split
    next same => exact absurd (List.cons.inj same).1 notMinus
    next same => exact absurd (List.cons.inj same).1 notPlus
    · simp only [if_neg checked, value]
      simp only [Bool.false_eq_true, if_false]
      rw [show (i.toInt.natAbs : Int) = i.toInt by omega, int64OfInt?_toInt]

theorem builtAtOf_encode (time : Int64) : builtAtOf (encode (toString time.toInt)) = time := by
  have solid : ∀ c ∈ (toString time.toInt).toList, Text.isBlank c = false := by
    intro c member
    rw [toString_int] at member
    have digits := fun c => @Json.isDigit_of_mem_digitsOf time.toInt.natAbs c
    split at member
    · rcases List.mem_cons.1 member with rfl | member
      · decide
      · exact isBlank_of_isDigit (digits c member)
    · exact isBlank_of_isDigit (digits c member)
  rw [builtAtOf, Text.decode?_encode, Option.bind_some, trim_of_solid solid, parseInt64?_toString]
  rfl

/-! ## Addresses -/

/-- The address of the file of a key. -/
def fileAddress (base : Address) (key : RecordKey) : Address :=
  fileName key :: digitName key :: shardName key :: recordsPart :: base

/-- The address of the file of the time of the last build. -/
def timestampAddress (base : Address) : Address := timestampName :: recordsPart :: base

theorem addressOf_records (base : Address) : addressOf base [recordsPart] = recordsPart :: base := rfl

theorem addressOf_directoryNames (base : Address) (key : RecordKey) :
    addressOf base (directoryNames key) =
      digitName key :: shardName key :: recordsPart :: base := rfl

theorem addressOf_fileNames (base : Address) (key : RecordKey) :
    addressOf base (fileNames key) = fileAddress base key := rfl

theorem fileAddress_inj {S : String → Prop} (distinct : Sha256.DistinctOn S) {base : Address}
    {key key' : RecordKey} (used : S key.identifier) (used' : S key'.identifier) :
    fileAddress base key = fileAddress base key' ↔ key = key' := by
  constructor
  · intro same
    refine fileNames_inj distinct used used' ?_
    obtain ⟨file, same⟩ := List.cons.inj same
    obtain ⟨digit, same⟩ := List.cons.inj same
    rw [fileNames, fileNames, directoryNames, directoryNames, file, digit, (List.cons.inj same).1]
  · rintro rfl
    rfl

theorem not_onTheWay_nil {base a : Address} : ¬ OnTheWay base [] a := by
  rintro ⟨first, rest, some_, parts, -⟩
  exact some_ (List.append_eq_nil_iff.1 parts.symm).1

theorem onTheWay_records {base a : Address} :
    OnTheWay base [recordsPart] a ↔ a = recordsPart :: base := by
  rw [Disk.onTheWay_cons]
  exact or_iff_left not_onTheWay_nil

theorem onTheWay_directoryNames {base a : Address} {key : RecordKey} :
    OnTheWay base (directoryNames key) a ↔ a = recordsPart :: base ∨
      a = shardName key :: recordsPart :: base ∨
      a = digitName key :: shardName key :: recordsPart :: base := by
  rw [directoryNames, Disk.onTheWay_cons, Disk.onTheWay_cons, Disk.onTheWay_cons]
  exact or_congr Iff.rfl (or_congr Iff.rfl (or_iff_left not_onTheWay_nil))

/-- What lies as deep as the file of a key is not on the way there. -/
theorem not_onTheWay_deep {base a : Address} {key : RecordKey} (deep : a.length = base.length + 4) :
    ¬ OnTheWay base (directoryNames key) a := by
  intro way
  rcases onTheWay_directoryNames.1 way with rfl | rfl | rfl <;> (simp only [List.length_cons] at deep; omega)

theorem ne_of_length {a b : Address} (different : a.length ≠ b.length) : a ≠ b := fun same =>
  different (congrArg List.length same)

/-- Whether two disks differ at most at the directory of records and below it. -/
def Aside (base : Address) (d d' : Disk) : Prop :=
  ∀ a, Disk.isUnder a (recordsPart :: base) = false → d'.node? a = d.node? a

theorem Aside.refl (base : Address) (d : Disk) : Aside base d d := fun _ _ => rfl

theorem Aside.trans {base : Address} {d d' d'' : Disk} (first : Aside base d d')
    (second : Aside base d' d'') : Aside base d d'' := fun a outside => by
  rw [second a outside, first a outside]

theorem isUnder_records (base : Address) (names : List Name) :
    Disk.isUnder (names ++ recordsPart :: base) (recordsPart :: base) = true :=
  Disk.isUnder_iff.2 ⟨names, rfl⟩

theorem outside_ne {base a : Address} (outside : Disk.isUnder a (recordsPart :: base) = false)
    (names : List Name) : a ≠ names ++ recordsPart :: base := by
  rintro rfl
  rw [isUnder_records] at outside
  cases outside

/-! ## Shelved ledgers -/

/-- The files below the directory of records are those of the records of a ledger, with the time of
its last build. -/
structure Shelved (S : String → Prop) (root : Path) (base : Address) (d : Disk) (l : Ledger) :
    Prop where
  hosts : d.Hosts root base
  home : ∃ m, d.node? (recordsPart :: base) = some (.directory m)
  stored : ∀ key r, l.get? key = some r →
    ∃ id m, d.node? (fileAddress base key) = some (.file id (encode r.encode) m)
  files : ∀ name digit shard node,
    d.node? (name :: digit :: shard :: recordsPart :: base) = some node →
      ∃ key, (l.get? key).isSome ∧
        name :: digit :: shard :: recordsPart :: base = fileAddress base key
  digits : ∀ name shard node, d.node? (name :: shard :: recordsPart :: base) = some node →
    ∃ key m, shard = shardName key ∧ name = digitName key ∧ node = .directory m
  shards : ∀ name node, d.node? (name :: recordsPart :: base) = some node →
    name = timestampName ∨ ∃ key m, name = shardName key ∧ node = .directory m
  clock : (d.node? (timestampAddress base) = none ∧ l.builtAt = 0) ∨
    ∃ id c m, d.node? (timestampAddress base) = some (.file id c m) ∧ builtAtOf c = l.builtAt
  used : ∀ key r, l.get? key = some r → S key.identifier
  keyed : l.Keyed

namespace Shelved

variable {S : String → Prop} {root : Path} {base : Address} {d : Disk} {l : Ledger}
  {key : RecordKey} {r : Record}

/-- What lies elsewhere does not matter. -/
theorem congr {d' : Disk} (shelved : Shelved S root base d l) (hosts : d'.Hosts root base)
    (same : ∀ a, Disk.isUnder a (recordsPart :: base) = true → d'.node? a = d.node? a) :
    Shelved S root base d' l := by
  have below : ∀ names, d'.node? (names ++ recordsPart :: base) =
      d.node? (names ++ recordsPart :: base) := fun names => same _ (isUnder_records base names)
  have home := below []
  have shard := fun name => below [name]
  have digit := fun name shard => below [name, shard]
  have file := fun name digit shard => below [name, digit, shard]
  simp only [List.cons_append, List.nil_append] at home shard digit file
  exact {
    hosts := hosts
    home := by rw [home]; exact shelved.home
    stored := fun key r found => by
      rw [fileAddress, file]
      exact shelved.stored key r found
    files := fun name digit shard node occupied => by
      rw [file] at occupied
      exact shelved.files name digit shard node occupied
    digits := fun name shard node occupied => by
      rw [digit] at occupied
      exact shelved.digits name shard node occupied
    shards := fun name node occupied => by
      rw [shard] at occupied
      exact shelved.shards name node occupied
    clock := by
      rw [timestampAddress, shard]
      exact shelved.clock
    used := shelved.used
    keyed := shelved.keyed }

/-- A key that is not in the ledger has no file. -/
theorem vacant (shelved : Shelved S root base d l) (distinct : Sha256.DistinctOn S)
    (used : S key.identifier) (missing : l.get? key = none) :
    d.node? (fileAddress base key) = none := by
  cases occupied : d.node? (fileAddress base key) with
  | none => rfl
  | some node =>
      obtain ⟨key', there, same⟩ := shelved.files _ _ _ _ occupied
      obtain ⟨r, found⟩ := Option.isSome_iff_exists.1 there
      have equal : key = key' :=
        (fileAddress_inj distinct used (shelved.used key' r found)).1 same
      rw [← equal, missing] at found
      cases found

theorem not_directory (shelved : Shelved S root base d l) (distinct : Sha256.DistinctOn S)
    (used : S key.identifier) (m : Int) : d.node? (fileAddress base key) ≠ some (.directory m) := by
  intro directory
  cases found : l.get? key with
  | none => cases (shelved.vacant distinct used found).symm.trans directory
  | some r =>
      obtain ⟨id, m', file⟩ := shelved.stored key r found
      cases file.symm.trans directory

/-- Below the file of a key there is nothing. -/
theorem nothing_deeper (shelved : Shelved S root base d l) {name fourth third second : Name} {more : List Name} :
    d.node? (name :: (more ++ fourth :: third :: second :: recordsPart :: base)) = none := by
  refine shelved.hosts.sound.nothing_below ⟨name :: more, by simp, rfl⟩ fun m directory => ?_
  obtain ⟨key, there, same⟩ := shelved.files _ _ _ _ directory
  obtain ⟨r, found⟩ := Option.isSome_iff_exists.1 there
  obtain ⟨id, m', file⟩ := shelved.stored key r found
  rw [same, file] at directory
  cases directory

/-- Every name in the directory of records is one of a key, or of the time of the last build. -/
theorem named (shelved : Shelved S root base d l) : d.Named (recordsPart :: base) := by
  intro name here node below occupied
  obtain ⟨names, some_, shape⟩ := below
  obtain ⟨first, rest, rfl⟩ := List.exists_cons_of_ne_nil some_
  obtain ⟨rfl, rfl⟩ := List.cons.inj shape
  match rest with
  | [] =>
      rcases shelved.shards _ _ occupied with rfl | ⟨key, -, rfl, -⟩
      · exact fit_timestamp.proper _ (by simp)
      · exact (shardName_spec key).1
  | [_] =>
      obtain ⟨key, -, -, rfl, -⟩ := shelved.digits _ _ _ occupied
      exact (digitName_spec key).1
  | [_, _] =>
      obtain ⟨key, -, same⟩ := shelved.files _ _ _ _ occupied
      exact (List.cons.inj same).1 ▸ (fileName_spec key).1
  | a :: b :: c :: more =>
      have three : ((a :: b :: c :: more).drop more.length).length = 3 := by
        rw [List.length_drop, List.length_cons, List.length_cons, List.length_cons]
        omega
      obtain ⟨fourth, third, second, last⟩ := List.length_eq_three.1 three
      have whole := List.take_append_drop more.length (a :: b :: c :: more)
      rw [last] at whole
      rw [← whole, List.append_eq, List.append_assoc] at occupied
      cases shelved.nothing_deeper.symm.trans occupied

/-- Nothing stands where the draft of a file goes. -/
theorem vacant_draft (shelved : Shelved S root base d l) (key : RecordKey) :
    d.node? (draftName key :: digitName key :: shardName key :: recordsPart :: base) = none := by
  cases occupied :
    d.node? (draftName key :: digitName key :: shardName key :: recordsPart :: base) with
  | none => rfl
  | some node =>
      obtain ⟨key', -, same⟩ := shelved.files _ _ _ _ occupied
      exact absurd (List.cons.inj same).1.symm (fileName_ne_draftName key' key)

/-- What stands on the way to a file is a directory. -/
theorem free (shelved : Shelved S root base d l) (key : RecordKey) (a : Address)
    (way : OnTheWay base (directoryNames key) a) :
    d.node? a = none ∨ ∃ m, d.node? a = some (.directory m) := by
  cases occupied : d.node? a with
  | none => exact .inl rfl
  | some node =>
      refine .inr ?_
      rcases onTheWay_directoryNames.1 way with rfl | rfl | rfl
      · obtain ⟨m, directory⟩ := shelved.home
        exact ⟨m, occupied.symm.trans directory⟩
      · rcases shelved.shards _ _ occupied with same | ⟨-, m, -, rfl⟩
        · exact absurd same (shardName_ne_timestampName key)
        · exact ⟨m, rfl⟩
      · obtain ⟨-, m, -, -, rfl⟩ := shelved.digits _ _ _ occupied
        exact ⟨m, rfl⟩

/-- A file with the record of a key, and the directories that lead there, shelve the record. -/
theorem place {d' : Disk} {id : Nat} {m : Int} (shelved : Shelved S root base d l)
    (distinct : Sha256.DistinctOn S) (used : S r.identifier) (firm : r.isSpeculative = false)
    (hosts : d'.Hosts root base)
    (file : d'.node? (fileAddress base r.key) = some (.file id (encode r.encode) m))
    (others : ∀ a, a ≠ fileAddress base r.key → d'.node? a = d.node? a ∨
      (OnTheWay base (directoryNames r.key) a ∧ ∃ m, d'.node? a = some (.directory m))) :
    Shelved S root base d' (l.write r) where
  hosts := hosts
  home := by
    rcases others (recordsPart :: base) (ne_of_length (by simp only [fileAddress, List.length_cons]; omega))
      with same | ⟨-, directory⟩
    · rw [same]
      exact shelved.home
    · exact directory
  stored key' r' found := by
    rw [Ledger.get?_write firm] at found
    split at found
    next same =>
      obtain rfl := Option.some.inj found
      rw [← same]
      exact ⟨id, m, file⟩
    next other =>
      obtain ⟨id', m', old⟩ := shelved.stored key' r' found
      have apart : fileAddress base key' ≠ fileAddress base r.key := fun same =>
        other ((fileAddress_inj distinct (shelved.used key' r' found) used).1 same).symm
      rcases others _ apart with same | ⟨way, -⟩
      · exact ⟨id', m', same.trans old⟩
      · have lengths := onTheWay_directoryNames.1 way
        rcases lengths with same | same | same <;>
          exact absurd same (ne_of_length (by simp only [fileAddress, List.length_cons]; omega))
  files name digit shard node occupied := by
    by_cases here : name :: digit :: shard :: recordsPart :: base = fileAddress base r.key
    · exact ⟨r.key, by simp [Ledger.get?_write firm], here⟩
    · rcases others _ here with same | ⟨way, -⟩
      · obtain ⟨key', there, address⟩ := shelved.files _ _ _ _ (same ▸ occupied)
        refine ⟨key', ?_, address⟩
        rw [Ledger.get?_write firm, if_neg]
        · exact there
        · rintro rfl
          exact here address
      · rcases onTheWay_directoryNames.1 way with same | same | same <;>
          exact absurd same (ne_of_length (by simp only [List.length_cons]; omega))
  digits name shard node occupied := by
    rcases others (name :: shard :: recordsPart :: base)
      (ne_of_length (by simp only [fileAddress, List.length_cons]; omega)) with same | ⟨way, m', directory⟩
    · exact shelved.digits _ _ _ (same ▸ occupied)
    · rcases onTheWay_directoryNames.1 way with same | same | same
      · exact absurd same (ne_of_length (by simp only [List.length_cons]; omega))
      · exact absurd same (ne_of_length (by simp only [List.length_cons]; omega))
      · obtain ⟨rfl, rest⟩ := List.cons.inj same
        obtain ⟨rfl, -⟩ := List.cons.inj rest
        exact ⟨r.key, m', rfl, rfl, Option.some.inj (occupied.symm.trans directory)⟩
  shards name node occupied := by
    rcases others (name :: recordsPart :: base)
      (ne_of_length (by simp only [fileAddress, List.length_cons]; omega)) with same | ⟨way, m', directory⟩
    · exact shelved.shards _ _ (same ▸ occupied)
    · rcases onTheWay_directoryNames.1 way with same | same | same
      · exact absurd same (ne_of_length (by simp only [List.length_cons]; omega))
      · obtain ⟨rfl, -⟩ := List.cons.inj same
        exact .inr ⟨r.key, m', rfl, Option.some.inj (occupied.symm.trans directory)⟩
      · exact absurd same (ne_of_length (by simp only [List.length_cons]; omega))
  clock := by
    rcases others (timestampAddress base)
      (ne_of_length (by simp only [fileAddress, timestampAddress, List.length_cons]; omega))
      with same | ⟨way, -⟩
    · rw [same, Ledger.builtAt_write]
      exact shelved.clock
    · rcases onTheWay_directoryNames.1 way with same | same | same
      · exact absurd same (ne_of_length (by simp only [timestampAddress, List.length_cons]; omega))
      · exact absurd (List.cons.inj same).1.symm (shardName_ne_timestampName r.key)
      · exact absurd same (ne_of_length (by simp only [timestampAddress, List.length_cons]; omega))
  used key' r' found := by
    rw [Ledger.get?_write firm] at found
    split at found
    next same => exact same ▸ used
    · exact shelved.used key' r' found
  keyed := shelved.keyed.write r

/-- Without the file of a key, the disk shelves what is left without that key. -/
theorem take {d' : Disk} (shelved : Shelved S root base d l) (distinct : Sha256.DistinctOn S)
    (used : S key.identifier) (hosts : d'.Hosts root base)
    (effect : ∀ a, d'.node? a = if a = fileAddress base key then none else d.node? a) :
    Shelved S root base d' (l.remove key) := by
  have others : ∀ a, a.length ≠ base.length + 4 → d'.node? a = d.node? a := fun a short => by
    rw [effect, if_neg (ne_of_length (by simpa only [fileAddress, List.length_cons] using short))]
  exact {
    hosts := hosts
    home := by
      rw [others _ (by simp only [List.length_cons]; omega)]
      exact shelved.home
    stored := fun key' r found => by
      rw [Ledger.get?_remove] at found
      split at found
      · cases found
      next other =>
        have apart : fileAddress base key' ≠ fileAddress base key := fun same =>
          other ((fileAddress_inj distinct (shelved.used key' r found) used).1 same).symm
        rw [effect, if_neg apart]
        exact shelved.stored key' r found
    files := fun name digit shard node occupied => by
      rw [effect] at occupied
      split at occupied
      · cases occupied
      next other =>
        obtain ⟨key', there, address⟩ := shelved.files _ _ _ _ occupied
        refine ⟨key', ?_, address⟩
        rw [Ledger.get?_remove, if_neg]
        · exact there
        · rintro rfl
          exact other address
    digits := fun name shard node occupied => by
      rw [others _ (by simp only [List.length_cons]; omega)] at occupied
      exact shelved.digits _ _ _ occupied
    shards := fun name node occupied => by
      rw [others _ (by simp only [List.length_cons]; omega)] at occupied
      exact shelved.shards _ _ occupied
    clock := by
      rw [others _ (by simp only [timestampAddress, List.length_cons]; omega)]
      exact shelved.clock
    used := fun key' r found => by
      rw [Ledger.get?_remove] at found
      split at found
      · cases found
      · exact shelved.used key' r found
    keyed := shelved.keyed.remove key }

/-- With another file of the time of the last build, the disk shelves the ledger with that time. -/
theorem stamp {d' : Disk} {id : Nat} {c : Bytes} {m : Int} (shelved : Shelved S root base d l)
    (hosts : d'.Hosts root base) (file : d'.node? (timestampAddress base) = some (.file id c m))
    (others : ∀ a, a ≠ timestampAddress base → d'.node? a = d.node? a) :
    Shelved S root base d' (l.markUpdated (builtAtOf c)) := by
  have others' : ∀ a, a.length ≠ base.length + 2 → d'.node? a = d.node? a := fun a other =>
    others a (ne_of_length (by simpa only [timestampAddress, List.length_cons] using other))
  exact {
    hosts := hosts
    home := by
      rw [others' _ (by simp only [List.length_cons]; omega)]
      exact shelved.home
    stored := fun key r found => by
      rw [others' _ (by simp only [fileAddress, List.length_cons]; omega)]
      exact shelved.stored key r found
    files := fun name digit shard node occupied => by
      rw [others' _ (by simp only [List.length_cons]; omega)] at occupied
      exact shelved.files _ _ _ _ occupied
    digits := fun name shard node occupied => by
      rw [others' _ (by simp only [List.length_cons]; omega)] at occupied
      exact shelved.digits _ _ _ occupied
    shards := fun name node occupied => by
      by_cases here : name = timestampName
      · exact .inl here
      · rw [others _ fun same => here (List.cons.inj same).1] at occupied
        exact shelved.shards _ _ occupied
    clock := .inr ⟨id, c, m, file, rfl⟩
    used := shelved.used
    keyed := shelved.keyed }

/-- An empty directory of records shelves the empty ledger. -/
theorem empty {m : Int} (hosts : d.Hosts root base)
    (home : d.node? (recordsPart :: base) = some (.directory m))
    (bare : ∀ names, names ≠ [] → d.node? (names ++ recordsPart :: base) = none) :
    Shelved S root base d .empty where
  hosts := hosts
  home := ⟨m, home⟩
  stored _ _ found := by cases found
  files name digit shard node occupied := by
    have none_ := bare [name, digit, shard] (by simp)
    cases occupied.symm.trans none_
  digits name shard node occupied := by
    have none_ := bare [name, shard] (by simp)
    cases occupied.symm.trans none_
  shards name node occupied := by
    have none_ := bare [name] (by simp)
    cases occupied.symm.trans none_
  clock := .inl ⟨bare [timestampName] (by simp), rfl⟩
  used _ _ found := by cases found
  keyed := Ledger.Keyed.empty

end Shelved

end FileStore

end SymbolIndex
