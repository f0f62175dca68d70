import SymbolIndex.Search.Criteria
import SymbolIndex.Search.Glob

/-!
# Search.Condition — criteria as conditions on rows

A condition is what stands after `WHERE` in a scan of the search table: its text, with a question
mark for each value, and the values from left to right. In the text `AND` binds tighter than `OR`.
The condition of a criteria holds of the row of every entry that the criteria accepts; it may hold
of more.
-/

namespace SymbolIndex

/-- The text columns of the search table. -/
inductive SearchColumn where
  | recordType
  | identifier
  | classType
  deriving DecidableEq

/-- The name of a column. -/
def SearchColumn.name : SearchColumn → String
  | .recordType => "record_type"
  | .identifier => "identifier"
  | .classType => "type"

/-- A condition on one row. A disjunction stands in a conjunction only as a group. -/
inductive Condition where
  | equals (column : SearchColumn) (value : String)
  | glob (column : SearchColumn) (pattern : String)
  | always
  | both (left right : Condition)
  | either (left right : Condition)
  | group (inner : Condition)
  deriving DecidableEq

namespace Condition

/-- The text of a condition. -/
def text : Condition → String
  | .equals column _ => column.name ++ " = ?"
  | .glob column _ => column.name ++ " GLOB ?"
  | .always => "1 = 1"
  | .both left right => left.text ++ " AND " ++ right.text
  | .either left right => left.text ++ " OR " ++ right.text
  | .group inner => "(" ++ inner.text ++ ")"

/-- The values of the question marks, from left to right. -/
def params : Condition → List String
  | .equals _ value => [value]
  | .glob _ pattern => [pattern]
  | .always => []
  | .both left right => left.params ++ right.params
  | .either left right => left.params ++ right.params
  | .group inner => inner.params

/-- Whether a condition holds of a row with the given columns. -/
def holds (row : SearchColumn → String) : Condition → Bool
  | .equals column value => row column == value
  | .glob column pattern => globMatches pattern.toList (row column).toList
  | .always => true
  | .both left right => left.holds row && right.holds row
  | .either left right => left.holds row || right.holds row
  | .group inner => inner.holds row

/-- Every condition, each in a group. -/
def all : List Condition → Condition
  | [] => .always
  | c :: rest => rest.foldl (fun acc d => .both acc (.group d)) (.group c)

end Condition

/-- The columns of an entry's row. -/
def SearchEntry.column (e : SearchEntry) : SearchColumn → String
  | .recordType => e.recordType.name
  | .identifier => e.identifier
  | .classType => e.typeColumn

/-- A text that no condition can carry, because a condition's values end at their first NUL. -/
structure UnsupportedText where
  text : String
  deriving DecidableEq

/-- The backend and the text, in quotes. -/
def UnsupportedText.message (e : UnsupportedText) : String :=
  "Criteria not supported by sqlite: NUL byte in " ++ Text.quote e.text

/-- A text, if it has no NUL. -/
def supported (text : List Char) : Except UnsupportedText String :=
  if text.contains '\x00' then .error ⟨String.ofList text⟩ else .ok (String.ofList text)

namespace Criteria

/-- The condition that the record is of a kind. -/
def kindCondition (kind : RecordType) : Condition := .equals .recordType kind.name

mutual

/-- The condition of a criteria. -/
def condition : Criteria → Except UnsupportedText Condition
  | .exactShortName name => do
    let value ← supported name.toList
    let pattern ← supported ('*' :: namespaceSeparator :: escapeGlob name.toList)
    return .either (.equals .identifier value) (.glob .identifier pattern)
  | .shortNameBeginsWith start => do
    return .glob .identifier (← supported ('*' :: escapeGlob start.toList ++ ['*']))
  | .fqnBeginsWith start => do
    return .glob .identifier (← supported (escapeGlob start.toList ++ ['*']))
  | .isClass => return kindCondition .klass
  | .isFunction => return kindCondition .function
  | .isConstant => return kindCondition .constant
  | .isClassType t => return .both (kindCondition .klass) (.equals .classType t.name)
  | .and parts => return .all (← conditions parts)

/-- The conditions of the parts. -/
def conditions : List Criteria → Except UnsupportedText (List Condition)
  | [] => return []
  | c :: rest => return (← condition c) :: (← conditions rest)

end

end Criteria

end SymbolIndex
