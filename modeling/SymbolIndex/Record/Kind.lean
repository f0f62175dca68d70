import SymbolIndex.Ordered.Key
import SymbolIndex.Text.Quoted

/-!
# Record.Kind — the kinds of records, classes and members

Each kind has one name, used in identifiers, in JSON text and in table columns. `ofName?` reads a
name back, and is the only way a kind is read anywhere.
-/

namespace SymbolIndex

/-- A text that is no name of a kind, or no member identifier. -/
inductive ParseError where
  | recordType (value : String)
  | classType (value : String)
  | memberType (value : String)
  | memberIdentifier (value : String)
  deriving DecidableEq

/-- What was looked for, and the value that is none, in quotes. -/
def ParseError.message : ParseError → String
  | .recordType v => "Invalid record type: " ++ Text.quote v
  | .classType v => "Invalid class type: " ++ Text.quote v
  | .memberType v => "Invalid member type: " ++ Text.quote v
  | .memberIdentifier v => "Invalid member identifier: " ++ Text.quote v

/-- The kinds of records. -/
inductive RecordType where
  | klass
  | function
  | constant
  | member
  | file
  deriving DecidableEq

namespace RecordType

/-- Every kind, in order. -/
def all : List RecordType := [.klass, .function, .constant, .member, .file]

/-- The name of a kind. -/
def name : RecordType → String
  | .klass => "class"
  | .function => "function"
  | .constant => "constant"
  | .member => "member"
  | .file => "file"

/-- The place of a kind in the order of kinds. -/
def rank : RecordType → Nat
  | .klass => 0
  | .function => 1
  | .constant => 2
  | .member => 3
  | .file => 4

/-- The kind of a name. -/
def ofName? (s : String) : Option RecordType := all.find? (fun t => t.name == s)

/-- The kind of a name, or the reason why there is none. -/
def parse (s : String) : Except ParseError RecordType :=
  match ofName? s with
  | some t => .ok t
  | none => .error (.recordType s)

/-- Whether records of this kind are projected into the search index. -/
def isSearchable : RecordType → Bool
  | .klass | .function | .constant => true
  | .member | .file => false

theorem rank_injective {a b : RecordType} (h : a.rank = b.rank) : a = b := by
  cases a <;> cases b <;> first | rfl | cases h

end RecordType

/-- The declared kinds of class-like symbols. -/
inductive ClassType where
  | klass
  | interface
  | trait
  | enumeration
  deriving DecidableEq

namespace ClassType

/-- Every kind, in order. -/
def all : List ClassType := [.klass, .interface, .trait, .enumeration]

/-- The name of a kind. -/
def name : ClassType → String
  | .klass => "class"
  | .interface => "interface"
  | .trait => "trait"
  | .enumeration => "enum"

/-- The kind of a name. -/
def ofName? (s : String) : Option ClassType := all.find? (fun t => t.name == s)

/-- The kind of a name, or the reason why there is none. -/
def parse (s : String) : Except ParseError ClassType :=
  match ofName? s with
  | some t => .ok t
  | none => .error (.classType s)

end ClassType

/-- The kinds of class members. -/
inductive MemberType where
  | method
  | property
  | constant
  deriving DecidableEq

namespace MemberType

/-- Every kind, in order. -/
def all : List MemberType := [.method, .property, .constant]

/-- The name of a kind. -/
def name : MemberType → String
  | .method => "method"
  | .property => "property"
  | .constant => "constant"

/-- The kind of a name. -/
def ofName? (s : String) : Option MemberType := all.find? (fun t => t.name == s)

/-- The kind of a name, or the reason why there is none. -/
def parse (s : String) : Except ParseError MemberType :=
  match ofName? s with
  | some t => .ok t
  | none => .error (.memberType s)

end MemberType

end SymbolIndex
