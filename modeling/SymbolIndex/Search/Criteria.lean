import SymbolIndex.Search.Entry

/-!
# Search.Criteria — what a search asks for

A criteria is a predicate on search entries. `matches` is the predicate itself, and the only judge
of an answer; the filters an index derives from a criteria may let too much through, never too
little.
-/

namespace SymbolIndex

open Json

/-- A composable predicate on search entries. -/
inductive Criteria where
  | exactShortName (name : String)
  | shortNameBeginsWith (start : String)
  | fqnBeginsWith (start : String)
  | isClass
  | isFunction
  | isConstant
  | isClassType (classType : ClassType)
  | and (parts : List Criteria)

/-- Whether a text begins with another. -/
def beginsWith (text start : String) : Bool := start.toList.isPrefixOf text.toList

namespace Criteria

mutual

/-- Whether an entry satisfies the criteria. -/
def accepts : Criteria → SearchEntry → Bool
  | .exactShortName name, e => e.shortName == name
  | .shortNameBeginsWith start, e => beginsWith e.shortName start
  | .fqnBeginsWith start, e => beginsWith e.identifier start
  | .isClass, e => e.recordType == .klass
  | .isFunction, e => e.recordType == .function
  | .isConstant, e => e.recordType == .constant
  | .isClassType t, e => e.recordType == .klass && e.classType == some t
  | .and parts, e => allAccept parts e

/-- Whether an entry satisfies every part. -/
def allAccept : List Criteria → SearchEntry → Bool
  | [], _ => true
  | c :: rest, e => accepts c e && allAccept rest e

end

/-- Whether a record has an entry that satisfies the criteria. -/
def acceptsRecord (c : Criteria) (r : Record) : Bool :=
  match SearchEntry.ofRecord? r with
  | some e => c.accepts e
  | none => false

/-- The kinds in both lists; nothing stands for every kind. -/
def commonKinds : Option (List RecordType) → Option (List RecordType) → Option (List RecordType)
  | none, kinds => kinds
  | kinds, none => kinds
  | some kinds, some more => some (kinds.filter (more.contains ·))

mutual

/-- The kinds of the records that can satisfy the criteria, nothing meaning any. -/
def recordTypes : Criteria → Option (List RecordType)
  | .isClass | .isClassType _ => some [.klass]
  | .isFunction => some [.function]
  | .isConstant => some [.constant]
  | .exactShortName _ | .shortNameBeginsWith _ | .fqnBeginsWith _ => none
  | .and parts => commonRecordTypes none parts

/-- The kinds in `kinds` that every part allows. -/
def commonRecordTypes (kinds : Option (List RecordType)) :
    List Criteria → Option (List RecordType)
  | [] => kinds
  | c :: rest => commonRecordTypes (commonKinds kinds (recordTypes c)) rest

end

/-- Whether the kind of an entry is among those the criteria can accept. -/
def admits (c : Criteria) (e : SearchEntry) : Bool :=
  match c.recordTypes with
  | some kinds => kinds.contains e.recordType
  | none => true

mutual

/-- The JSON form of a criteria. -/
def toJson : Criteria → Json
  | .exactShortName name => .fields [("exact_short_name", .text name)]
  | .shortNameBeginsWith start => .fields [("short_name_begins_with", .text start)]
  | .fqnBeginsWith start => .fields [("fqn_begins_with", .text start)]
  | .isClass => .text "is_class"
  | .isFunction => .text "is_function"
  | .isConstant => .text "is_constant"
  | .isClassType t => .fields [("is_class_type", .text t.name)]
  | .and parts => .fields [("and", .array (partsToJson parts))]

/-- The JSON forms of the parts. -/
def partsToJson : List Criteria → List Json
  | [] => []
  | c :: rest => toJson c :: partsToJson rest

end

mutual

/-- The criteria a JSON value writes. -/
def ofJson? : Json → Option Criteria
  | .object [(some "and", .array parts)] => (partsOfJson? parts).map .and
  | .object [(some "exact_short_name", .string (some name))] => some (.exactShortName name)
  | .object [(some "short_name_begins_with", .string (some start))] =>
    some (.shortNameBeginsWith start)
  | .object [(some "fqn_begins_with", .string (some start))] => some (.fqnBeginsWith start)
  | .object [(some "is_class_type", t)] =>
    ((name? false t).bind ClassType.ofName?).map .isClassType
  | j =>
    match name? false j with
    | some "is_class" => some .isClass
    | some "is_function" => some .isFunction
    | some "is_constant" => some .isConstant
    | _ => none

/-- The parts that JSON values write. -/
def partsOfJson? : List Json → Option (List Criteria)
  | [] => some []
  | j :: rest => do return (← ofJson? j) :: (← partsOfJson? rest)

end

end Criteria

end SymbolIndex
