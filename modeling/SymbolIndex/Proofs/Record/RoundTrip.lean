import SymbolIndex.Proofs.Json.RoundTrip
import SymbolIndex.Record.Codec

/-!
# Proofs.Record.RoundTrip — encoded records decode

Every record, of every kind and with any texts, numbers and sets, is read back from its JSON text
as itself: `Record.decode_encode`. The steps are those of the decoder: the JSON value of a record is
plain (`plain_toJson`), so the parser returns it; it is shallow (`depth_toJson`), so the depth
limit does not refuse it; and each structure reads its own fields back (`ofJson_toJson` of
locations, references and records).

A set of references is written as the ascending list of its members, and a set is determined by
that list (`SortedSet.ofList_toList`).
-/

namespace SymbolIndex

open Json

set_option autoImplicit false

/-! ## Ordered sets -/

namespace SortedSet

variable {κ : Type} [KeyOrder κ]

/-- A member that is greater than all others is added at the end. -/
theorem insertMember_append {l : List κ} {k : κ} (greater : ∀ m ∈ l, m < k) :
    insertMember k l = l ++ [k] := by
  induction l with
  | nil => rfl
  | cons m rest ih =>
      have less : m < k := greater m (by simp)
      rw [insertMember, if_neg (KeyOrder.asymm less), if_pos less,
        ih fun n member => greater n (by simp [member])]
      rfl

theorem toList_foldl_insert {l : List κ} {s : SortedSet κ}
    (ascending : (s.toList ++ l).Pairwise (· < ·)) : (l.foldl insert s).toList = s.toList ++ l := by
  induction l generalizing s with
  | nil => simp
  | cons k rest ih =>
      have last : (s.insert k).toList = s.toList ++ [k] := by
        refine insertMember_append fun m member => ?_
        exact (List.pairwise_append.1 ascending).2.2 m member k (by simp)
      rw [List.foldl_cons, ih (by simpa [last] using ascending), last]
      simp

theorem ofList_toList (s : SortedSet κ) : ofList s.toList = s :=
  ext (toList_foldl_insert (s := empty) s.ascending)

end SortedSet

/-! ## Names -/

theorem RecordType.ofName?_name (t : RecordType) : RecordType.ofName? t.name = some t := by
  cases t <;> decide

theorem ClassType.ofName?_name (t : ClassType) : ClassType.ofName? t.name = some t := by
  cases t <;> decide

theorem MemberType.ofName?_name (t : MemberType) : MemberType.ofName? t.name = some t := by
  cases t <;> decide

/-! ## Fields -/

theorem forall_optionalField {P : Json → Prop} {name : String} {value : Option Json}
    (holds : ∀ v ∈ value, P v) : ∀ e ∈ optionalField name value, P e.2 := by
  cases value with
  | none => simp [optionalField]
  | some v => simpa [optionalField] using holds v rfl

theorem unique?_fields {entries : List (String × Json)} (distinct : (entries.map (·.1)).Nodup)
    (key : String) :
    unique? (entries.map (fun e => (some e.1, e.2))) key = some (entries.lookup key) := by
  have absent : ∀ l : List (String × Json), key ∉ l.map (·.1) →
      valuesOf (l.map (fun e => (some e.1, e.2))) key = [] := by
    intro l missing
    simp only [valuesOf, List.map_eq_nil_iff, List.filter_eq_nil_iff, List.mem_map,
      forall_exists_index, and_imp]
    rintro _ e member rfl
    simp only [beq_iff_eq, Option.some.injEq]
    rintro rfl
    exact missing (List.mem_map_of_mem member)
  induction entries with
  | nil => rfl
  | cons e entries ih =>
      obtain ⟨name, value⟩ := e
      obtain ⟨fresh, distinct⟩ := List.nodup_cons.1 distinct
      by_cases same : key = name
      · subst same
        have rest := absent entries fresh
        simp only [valuesOf] at rest
        simp [unique?, valuesOf, rest]
      · have rest := ih distinct
        simp only [unique?, valuesOf] at rest ⊢
        rw [List.map_cons, List.filter_cons_of_neg (by simpa using Ne.symm same), rest,
          List.lookup_cons, beq_eq_false_iff_ne.2 same]

/-- The slots of a structure whose fields have different names hold what is written for them. -/
theorem slots_fields {entries : List (String × Json)} (distinct : (entries.map (·.1)).Nodup)
    (names : List String) :
    slots names (fields entries) = some (names.map (entries.lookup ·)) := by
  have texts : (entries.map (fun e : String × Json => (some e.1, e.2))).all (fun e => e.1.isSome) :=
    by simp
  rw [fields, slots, if_pos texts]
  induction names with
  | nil => rfl
  | cons name names ih => simp [List.mapM_cons, unique?_fields distinct, ih]

@[simp] theorem text?_text (s : String) : text? (text s) = some s := rfl

theorem integer?_int (i : Int) : integer? (int i) = some i := by
  show (Number.ofInt i).integer? = some i
  by_cases negative : i < 0
  · have nonzero : i.natAbs ≠ 0 := by omega
    simp only [Number.ofInt, Number.integer?, digitsValue_digitsOf, negative, decide_true, if_true,
      nonzero, if_false, Option.some.injEq]
    omega
  · simp only [Number.ofInt, Number.integer?, digitsValue_digitsOf, negative, decide_false,
      Bool.false_eq_true, if_false, Option.some.injEq]
    omega

@[simp] theorem uint32?_nat (n : UInt32) : uint32? (nat n.toNat) = some n := by
  rw [uint32?, nat, integer?_int, Option.bind_eq_bind, Option.bind_some, uint32OfInt?_toNat]

@[simp] theorem int64?_int (n : Int64) : int64? (int n.toInt) = some n := by
  rw [int64?, integer?_int, Option.bind_eq_bind, Option.bind_some, int64OfInt?_toInt]

@[simp] theorem name?_text (emptyToo : Bool) (s : String) : name? emptyToo (text s) = some s := rfl

theorem list?_map {α : Type} {read : Json → Option α} {write : α → Json} {items : List α}
    (back : ∀ a ∈ items, read (write a) = some a) : list? read (.list write items) = some items := by
  show (items.map write).mapM read = some items
  induction items with
  | nil => rfl
  | cons a items ih =>
      rw [List.map_cons, List.mapM_cons, back a (by simp),
        ih fun b member => back b (by simp [member])]
      rfl

/-- What is written for a value that may be missing is read as that value. -/
theorem optional_map {α : Type} {read : Json → Option α} {write : α → Json}
    (visible : ∀ a, write a ≠ .null) (back : ∀ a, read (write a) = some a) (value : Option α) :
    Json.optional read (value.map write) = some value := by
  cases value with
  | none => rfl
  | some a =>
      have seen := visible a
      have same := back a
      rw [Option.map_some]
      generalize write a = j at *
      cases j <;> simp_all [Json.optional]

theorem text_ne_null (s : String) : text s ≠ .null := by
  rw [text]
  exact Json.noConfusion

theorem int_ne_null (i : Int) : int i ≠ .null := by
  rw [int]
  exact Json.noConfusion

/-! ## Structures

A structure reads back from any values that its fields read back from. The values stay variables
until the fields are found, so that the bounds of machine words are never computed with. -/

namespace Location

theorem ofJson?_fields {uri start stop : Json} {l : Location} (first : text? uri = some l.uri)
    (second : uint32? start = some l.start) (third : uint32? stop = some l.stop) :
    ofJson? (.fields [("uri", uri), ("start", start), ("end", stop)]) = some l := by
  have read : slots ["uri", "start", "end"] (.fields [("uri", uri), ("start", start), ("end", stop)]) =
      some [some uri, some start, some stop] := by
    rw [slots_fields (by simp)]
    simp [List.lookup_cons]
  simp only [ofJson?, read, required, first, second, third, Option.bind_eq_bind, Option.bind_some,
    Option.pure_def]

theorem ofJson?_toJson (l : Location) : ofJson? l.toJson = some l :=
  ofJson?_fields (text?_text _) (uint32?_nat _) (uint32?_nat _)

theorem plain_toJson (l : Location) : Plain l.toJson :=
  plain_fields (by simp [plain_text, plain_uint32])

theorem depth_toJson (l : Location) : l.toJson.depth ≤ 1 :=
  depth_fields_le (by simp [text, nat, int, Json.depth])

theorem toJson_ne_null (l : Location) : l.toJson ≠ .null := by
  rw [toJson, fields]
  exact Json.noConfusion

end Location

namespace RecordReference

theorem ofJson?_fields {kind identifier start stop flags : Json} {container : Option Json}
    {r : RecordReference} (type : name? true kind = some r.recordType.name)
    (name : text? identifier = some r.identifier) (first : uint32? start = some r.start)
    (last : uint32? stop = some r.stop)
    (holder : Json.optional text? container = some r.containerType)
    (bits : uint32? flags = some r.flags) :
    ofJson? (.fields ([("record_type", kind), ("identifier", identifier), ("start", start),
      ("end", stop)] ++ optionalField "container_type" container ++ [("flags", flags)])) =
        some r := by
  have read : slots ["record_type", "identifier", "start", "end", "container_type", "flags"]
      (.fields ([("record_type", kind), ("identifier", identifier), ("start", start),
        ("end", stop)] ++ optionalField "container_type" container ++ [("flags", flags)])) =
      some [some kind, some identifier, some start, some stop, container, some flags] := by
    cases container <;> rw [slots_fields (by simp [optionalField])] <;>
      simp [List.lookup_cons, optionalField]
  simp only [ofJson?, read, type, RecordType.ofName?_name, required, defaulted, name, first, last,
    holder, bits, Option.bind_eq_bind, Option.bind_some, Option.pure_def]

theorem ofJson?_toJson (r : RecordReference) : ofJson? r.toJson = some r :=
  ofJson?_fields rfl (text?_text _) (uint32?_nat _) (uint32?_nat _)
    (optional_map text_ne_null text?_text _) (uint32?_nat _)

theorem plain_toJson (r : RecordReference) : Plain r.toJson := by
  refine plain_fields fun e member => ?_
  simp only [List.mem_append, List.mem_cons, List.not_mem_nil, or_false] at member
  rcases member with ((rfl | rfl | rfl | rfl) | member) | rfl
  · exact plain_text _
  · exact plain_text _
  · exact plain_uint32 _
  · exact plain_uint32 _
  · exact forall_optionalField (by simp [plain_text]) e member
  · exact plain_uint32 _

theorem depth_toJson (r : RecordReference) : r.toJson.depth ≤ 1 := by
  refine depth_fields_le fun e member => ?_
  simp only [List.mem_append, List.mem_cons, List.not_mem_nil, or_false] at member
  rcases member with ((rfl | rfl | rfl | rfl) | member) | rfl
  all_goals try exact Nat.le_refl 0
  exact forall_optionalField (P := (·.depth ≤ 0)) (by simp [text, Json.depth]) e member

end RecordReference

/-! ## Records -/

namespace Record

theorem classOfJson?_fields {tag fqn flags : Json} {kind location : Option Json} {r : ClassRecord}
    (name : text? fqn = some r.fqn)
    (type : Json.optional (fun k => (name? true k).bind ClassType.ofName?) kind = some r.classType)
    (place : Json.optional Location.ofJson? location = some r.location)
    (bits : uint32? flags = some r.flags) :
    classOfJson? (.fields (("record_type", tag) :: ([("fqn", fqn)] ++ optionalField "type" kind ++
      optionalField "location" location ++ [("flags", flags)]))) = some r := by
  have read : slots ["fqn", "type", "location", "flags"]
      (.fields (("record_type", tag) :: ([("fqn", fqn)] ++ optionalField "type" kind ++
        optionalField "location" location ++ [("flags", flags)]))) =
      some [some fqn, kind, location, some flags] := by
    cases kind <;> cases location <;> rw [slots_fields (by simp [optionalField])] <;>
      simp [List.lookup_cons, optionalField]
  simp only [classOfJson?, read, required, defaulted, name, type, place, bits, Option.bind_eq_bind,
    Option.bind_some, Option.pure_def]

theorem locatedOfJson?_fields {tag fqn : Json} {location : Option Json} {name : String}
    {l : Option Location} (same : text? fqn = some name)
    (place : Json.optional Location.ofJson? location = some l) :
    locatedOfJson? (.fields (("record_type", tag) :: ([("fqn", fqn)] ++
      optionalField "location" location))) = some (name, l) := by
  have read : slots ["fqn", "location"] (.fields (("record_type", tag) :: ([("fqn", fqn)] ++
      optionalField "location" location))) = some [some fqn, location] := by
    cases location <;> rw [slots_fields (by simp [optionalField])] <;>
      simp [List.lookup_cons, optionalField]
  simp only [locatedOfJson?, read, required, same, place, Option.bind_eq_bind, Option.bind_some,
    Option.pure_def]

theorem memberOfJson?_fields {tag kind name references : Json} {container : Option Json}
    {r : MemberRecord} (type : name? true kind = some r.memberType.name)
    (same : text? name = some r.memberName)
    (holder : Json.optional text? container = some r.containerType)
    (uris : list? text? references = some r.references.toList) :
    memberOfJson? (.fields (("record_type", tag) :: ([("member_type", kind), ("member_name", name)] ++
      optionalField "container_type" container ++ [("references", references)]))) = some r := by
  have read : slots ["member_type", "member_name", "container_type", "references"]
      (.fields (("record_type", tag) :: ([("member_type", kind), ("member_name", name)] ++
        optionalField "container_type" container ++ [("references", references)]))) =
      some [some kind, some name, container, some references] := by
    cases container <;> rw [slots_fields (by simp [optionalField])] <;>
      simp [List.lookup_cons, optionalField]
  simp only [memberOfJson?, read, type, MemberType.ofName?_name, required, defaulted, same, holder,
    uris, SortedSet.ofList_toList, Option.bind_eq_bind, Option.bind_some, Option.pure_def]

theorem fileOfJson?_fields {tag path references : Json} {stamp : Option Json} {r : FileRecord}
    (same : text? path = some r.path) (time : Json.optional int64? stamp = some r.lastIndexed)
    (uses : list? RecordReference.ofJson? references = some r.references) :
    fileOfJson? (.fields (("record_type", tag) :: ([("path", path)] ++
      optionalField "last_indexed" stamp ++ [("references", references)]))) = some r := by
  have read : slots ["path", "last_indexed", "references"]
      (.fields (("record_type", tag) :: ([("path", path)] ++ optionalField "last_indexed" stamp ++
        [("references", references)]))) = some [some path, stamp, some references] := by
    cases stamp <;> rw [slots_fields (by simp [optionalField])] <;>
      simp [List.lookup_cons, optionalField]
  simp only [fileOfJson?, read, required, defaulted, same, time, uses, Option.bind_eq_bind,
    Option.bind_some, Option.pure_def]

theorem optional_location (l : Option Location) :
    Json.optional Location.ofJson? (l.map Location.toJson) = some l :=
  optional_map Location.toJson_ne_null Location.ofJson?_toJson l

theorem bodyOfJson?_toJson (r : Record) : bodyOfJson? r.recordType r.toJson = some r := by
  cases r with
  | klass r =>
      have type : Json.optional (fun k => (name? true k).bind ClassType.ofName?)
          (r.classType.map (fun t => .text t.name)) = some r.classType :=
        optional_map (fun _ => text_ne_null _) ClassType.ofName?_name _
      exact congrArg (Option.map Record.klass)
        (classOfJson?_fields (text?_text _) type (optional_location _) (uint32?_nat _))
  | function r =>
      exact congrArg (Option.map fun r => Record.function ⟨r.1, r.2⟩)
        (locatedOfJson?_fields (text?_text _) (optional_location _))
  | constant r =>
      exact congrArg (Option.map fun r => Record.constant ⟨r.1, r.2⟩)
        (locatedOfJson?_fields (text?_text _) (optional_location _))
  | member r =>
      exact congrArg (Option.map Record.member)
        (memberOfJson?_fields rfl (text?_text _) (optional_map text_ne_null text?_text _)
          (list?_map fun s _ => text?_text s))
  | file r =>
      exact congrArg (Option.map Record.file)
        (fileOfJson?_fields (text?_text _)
          (optional_map (fun _ => int_ne_null _) int64?_int _)
          (list?_map fun r _ => r.ofJson?_toJson))

/-- What holds of the kind and of the fields of a record holds of all that is written for it. -/
theorem forall_fields {P : Json → Prop} {r : Record} (words : ∀ s, P (.text s))
    (numbers : ∀ n : UInt32, P (.nat n.toNat)) (times : ∀ n : Int64, P (.int n.toInt))
    (places : ∀ l : Location, P l.toJson) (texts : ∀ l, P (.list .text l))
    (uses : ∀ l, P (.list RecordReference.toJson l)) :
    ∀ e ∈ ("record_type", text r.recordType.name) :: r.bodyFields, P e.2 := by
  intro e member
  rcases List.mem_cons.1 member with rfl | member
  · exact words _
  cases r with
  | klass r =>
      simp only [bodyFields, classFields, List.mem_append, List.mem_singleton] at member
      rcases member with ((rfl | member) | member) | rfl
      · exact words _
      · exact forall_optionalField (by simp [words]) e member
      · exact forall_optionalField (by simp [places]) e member
      · exact numbers _
  | function r =>
      simp only [bodyFields, functionFields, List.mem_append, List.mem_singleton] at member
      rcases member with rfl | member
      · exact words _
      · exact forall_optionalField (by simp [places]) e member
  | constant r =>
      simp only [bodyFields, constantFields, List.mem_append, List.mem_singleton] at member
      rcases member with rfl | member
      · exact words _
      · exact forall_optionalField (by simp [places]) e member
  | member r =>
      simp only [bodyFields, memberFields, List.mem_append, List.mem_cons, List.not_mem_nil,
        or_false] at member
      rcases member with ((rfl | rfl) | member) | rfl
      · exact words _
      · exact words _
      · exact forall_optionalField (by simp [words]) e member
      · exact texts _
  | file r =>
      simp only [bodyFields, fileFields, List.mem_append, List.mem_singleton] at member
      rcases member with (rfl | member) | rfl
      · exact words _
      · exact forall_optionalField (by simp [times]) e member
      · exact uses _

theorem plain_toJson (r : Record) : Plain r.toJson :=
  plain_fields (forall_fields plain_text plain_uint32 plain_int64 Location.plain_toJson
    (fun _ => plain_list fun s _ => plain_text s)
    (fun _ => plain_list fun r _ => r.plain_toJson))

theorem depth_toJson (r : Record) : r.toJson.depth ≤ 3 := by
  refine depth_fields_le (forall_fields (P := (·.depth ≤ 2)) (fun _ => Nat.zero_le _)
    (fun _ => Nat.zero_le _) (fun _ => Nat.zero_le _) (fun l => Nat.le_succ_of_le l.depth_toJson)
    (fun _ => ?_) fun _ => ?_)
  · exact depth_list_le fun s _ => Nat.zero_le _
  · exact depth_list_le fun r _ => r.depth_toJson

theorem distinct_fields (r : Record) :
    ((("record_type", text r.recordType.name) :: r.bodyFields).map (·.1)).Nodup := by
  have names : ∀ (name : String) (value : Option Json),
      (optionalField name value).map (·.1) = [] ∨ (optionalField name value).map (·.1) = [name] := by
    rintro name (_ | v)
    · exact .inl rfl
    · exact .inr rfl
  cases r with
  | klass r =>
      simp only [bodyFields, classFields, List.map_cons, List.map_append, List.map_nil]
      rcases names "type" (r.classType.map fun t => .text t.name) with h | h <;>
        rcases names "location" (r.location.map Location.toJson) with h' | h' <;>
        rw [h, h'] <;> decide
  | function r =>
      simp only [bodyFields, functionFields, List.map_cons, List.map_append, List.map_nil]
      rcases names "location" (r.location.map Location.toJson) with h | h <;> rw [h] <;> decide
  | constant r =>
      simp only [bodyFields, constantFields, List.map_cons, List.map_append, List.map_nil]
      rcases names "location" (r.location.map Location.toJson) with h | h <;> rw [h] <;> decide
  | member r =>
      simp only [bodyFields, memberFields, List.map_cons, List.map_append, List.map_nil]
      rcases names "container_type" (r.containerType.map .text) with h | h <;> rw [h] <;> decide
  | file r =>
      simp only [bodyFields, fileFields, List.map_cons, List.map_append, List.map_nil]
      rcases names "last_indexed" (r.lastIndexed.map (.int ·.toInt)) with h | h <;> rw [h] <;> decide

theorem tagged?_toJson (r : Record) : tagged? r.toJson = some (r.recordType, r.toJson) := by
  have tag : unique? ((("record_type", text r.recordType.name) :: r.bodyFields).map
      (fun e => (some e.1, e.2))) "record_type" = some (some (text r.recordType.name)) := by
    rw [unique?_fields r.distinct_fields, List.lookup_cons_self]
  simp only [toJson, fields, tagged?, tag, Option.bind_eq_bind, Option.bind_some, text?_text,
    RecordType.ofName?_name, Option.pure_def]

/-- **Round trip.** The text of a record is read as that record. -/
theorem decode_encode (r : Record) : decode? r.encode = some r := by
  have shallow : r.toJson.depth ≤ maxDepth := Nat.le_trans r.depth_toJson (by decide)
  have read : ofJson? r.toJson = some r := by
    simp only [ofJson?, isSound_of_plain _ r.plain_toJson, tagged?_toJson, bodyOfJson?_toJson,
      Bool.not_true, Bool.false_eq_true, if_false, Option.bind_eq_bind, Option.bind_some]
  rw [decode?, encode, parse_print r.plain_toJson, Option.bind_eq_bind, Option.bind_some,
    if_pos shallow, read]

end Record

end SymbolIndex
