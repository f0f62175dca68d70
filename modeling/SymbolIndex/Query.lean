import SymbolIndex.Store.Basic

/-!
# Query — questions about single symbols

A question is answered from the records of a store, given as a function from keys to records. A
record that is missing or is only a placeholder is no error: it has no definition, and it adds no
references.

`referencesTo` lists the places where a member is used, file by file in the order of the URIs. How
certain a place is depends on the container: that of the reference as it is stored, or what an
enhancer makes of a reference that has none.
-/

namespace SymbolIndex

/-- A guess at what is missing in a reference, from the file it stands in. -/
abbrev Enhancer := FileRecord → RecordReference → RecordReference

/-- The records of a store by key. -/
abbrev RecordReader := RecordKey → Stored (Option Record)

namespace RecordReader

/-- The class of a name. -/
def class? (get : RecordReader) (fqn : String) : Stored (Option ClassRecord) := do
  match ← get (.ofClass fqn) with
  | some (.klass r) => return some r
  | _ => return none

/-- The function of a name. -/
def function? (get : RecordReader) (fqn : String) : Stored (Option FunctionRecord) := do
  match ← get (.ofFunction fqn) with
  | some (.function r) => return some r
  | _ => return none

/-- The constant of a name. -/
def constant? (get : RecordReader) (fqn : String) : Stored (Option ConstantRecord) := do
  match ← get (.ofConstant fqn) with
  | some (.constant r) => return some r
  | _ => return none

/-- The file at a path. -/
def file? (get : RecordReader) (path : String) : Stored (Option FileRecord) := do
  match ← get (.ofFile path) with
  | some (.file r) => return some r
  | _ => return none

/-- The member of a kind and a name. -/
def member? (get : RecordReader) (kind : MemberType) (name : String) :
    Stored (Option MemberRecord) := do
  match ← get (.ofMember kind name) with
  | some (.member r) => return some r
  | _ => return none

/-- The member of an identifier. A text that is no identifier has none. -/
def memberOf? (get : RecordReader) (identifier : String) : Stored (Option MemberRecord) :=
  match RecordKey.parseMember identifier with
  | .ok (kind, name) => get.member? kind name
  | .error _ => return none

/-- Where the record of a key is defined. -/
def definition? (get : RecordReader) (key : RecordKey) : Stored (Option Location) := do
  return (← get key).bind (·.location?)

/-- The reference with what an enhancer finds, if a container is asked for and the reference has
none. -/
def enhanced (enhance : Enhancer) (container : Option String) (file : FileRecord)
    (r : RecordReference) : RecordReference :=
  if container.isSome && r.containerType.isNone then enhance file r else r

/-- How certain it is that a reference with a container is meant when one is asked for. -/
def confidence : (actual wanted : Option String) → Confidence
  | none, _ => .maybe
  | some actual, some wanted => if actual = wanted then .surely else .never
  | some _, none => .surely

/-- The references of a file to a member, in order. -/
def referencesIn (enhance : Enhancer) (container : Option String) (identifier : String)
    (file : FileRecord) : List LocationConfidence :=
  (file.referencesTo .member identifier).map fun r =>
    let r := enhanced enhance container file r
    ⟨⟨file.path, r.start, r.stop⟩, confidence r.containerType container⟩

/-- The references that some files make to a member, at most as many as the limit. A file is read
only when the files before it leave room. -/
def referencesFrom (get : RecordReader) (enhance : Enhancer) (container : Option String)
    (identifier : String) :
    Option Nat → List String → Script (List (Except StoreError LocationConfidence))
  | some 0, _ => return []
  | _, [] => return []
  | limit, uri :: rest => do
    match ← get (.ofFile uri) with
    | .ok (some (.file file)) =>
      let found := referencesIn enhance container identifier file
      let found := match limit with
        | some n => found.take n
        | none => found
      return found.map .ok ++ (← referencesFrom get enhance container identifier
        (limit.map (· - found.length)) rest)
    | .ok _ => referencesFrom get enhance container identifier limit rest
    | .error e =>
      return .error e :: (← referencesFrom get enhance container identifier
        (limit.map (· - 1)) rest)

/-- The places where a member is used, at most as many as the limit. -/
def referencesTo (get : RecordReader) (enhance : Enhancer) (kind : MemberType) (name : String)
    (container : Option String) (limit : Option Nat) :
    Stored (List (Except StoreError LocationConfidence)) := do
  match ← get.member? kind name with
  | none => return []
  | some member =>
    ExceptT.lift (referencesFrom get enhance container (RecordKey.memberIdentifier kind name) limit
      member.references.toList)

end RecordReader

end SymbolIndex
