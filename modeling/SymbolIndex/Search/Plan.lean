import SymbolIndex.Database.Cell
import SymbolIndex.Search.Condition

/-!
# Search.Plan — what a database engine makes of a condition

A statement that is beyond the limits of the engine is refused before a row is read: one whose
condition is too deep, has too many values or too many equalities to choose an index by, or is too
long. A pattern that is too long is noticed only when a row is compared with it, so it matters which
rows are compared and with what:

* a condition that asks for a kind is compared with the rows in the order of their ids, the kinds
  before its other parts;
* else, if it has a pattern that begins literally, the rows whose identifiers begin so are looked up,
  and all of them are compared before the first is delivered;
* else it is compared with the rows in the order of their ids.

The parts are compared from left to right, and no further than needed.
-/

namespace SymbolIndex

/-- The most rows that are read at a time. -/
def pageSize : Nat := 256

/-- The greatest depth of the expression in a statement. -/
def depthLimit : Nat := 1000

/-- The most values of a statement. -/
def valueLimit : Nat := 32766

/-- The equalities among which the engine does not choose any more. -/
def equalityLimit : Nat := 21000

/-- The most bytes of a statement, and of a value. -/
def lengthLimit : Nat := 1000000000

namespace Condition

/-- The text after `WHERE` in the statement that reads a page. -/
def clause (cond : Condition) : String := "(" ++ cond.text ++ ") AND id > ?"

/-- The statement that reads a page. -/
def statement (c : Condition) : String :=
  "SELECT id, record_type, identifier, type, flags FROM search_index\n             WHERE " ++
    c.clause ++ " ORDER BY id LIMIT " ++ toString pageSize

/-- The depth of a condition as an expression. A group has the depth of what is in it. -/
def depth : Condition → Nat
  | .equals _ _ | .glob _ _ | .always => 2
  | .both left right | .either left right => max left.depth right.depth + 1
  | .group inner => inner.depth

/-- The patterns of a condition. -/
def patterns : Condition → List String
  | .equals _ _ | .always => []
  | .glob _ pattern => [pattern]
  | .both left right | .either left right => left.patterns ++ right.patterns
  | .group inner => inner.patterns

/-- The conditions that a condition joins, from left to right. -/
def parts : Condition → List Condition
  | .both left right => left.parts ++ right.parts
  | .group inner => inner.parts
  | c => [c]

/-- Whether a condition compares a column with a value. -/
def isEquality : Condition → Bool
  | .equals _ _ => true
  | _ => false

/-- Whether the engine takes the statement of a page. The statement compares the ids with one more
value. -/
def isTaken (c : Condition) : Bool :=
  c.depth + 1 ≤ depthLimit && c.params.length + 1 ≤ valueLimit &&
    c.parts.countP isEquality < equalityLimit && byteLength c.statement.toList ≤ lengthLimit &&
    c.params.all (fun value => byteLength value.toList ≤ lengthLimit)

/-- Whether a condition is within all limits of the engine. -/
def fits (c : Condition) : Bool :=
  c.isTaken && c.patterns.all (fun pattern => byteLength pattern.toList ≤ patternLimit)

/-- Whether a condition holds of a row, compared no further than needed. -/
def eval (row : SearchColumn → String) : Condition → Except DatabaseError Bool
  | .equals column value => .ok (row column == value)
  | .glob column pattern =>
    match glob? pattern.toList (row column).toList with
    | some matched => .ok matched
    | none => .error .statement
  | .always => .ok true
  | .both left right => do if ← left.eval row then right.eval row else return false
  | .either left right => do if ← left.eval row then return true else right.eval row
  | .group inner => inner.eval row

/-- The condition that joins some conditions. -/
def joined (parts : List Condition) : Condition := parts.foldr .both .always

/-- Whether a condition asks for a kind of record. -/
def isKind : Condition → Bool
  | .equals .recordType _ => true
  | _ => false

/-- The pattern of a condition by which identifiers can be looked up: one that begins literally. -/
def lookup? : Condition → Option String
  | .glob .identifier pattern => if literalStart pattern.toList = [] then none else some pattern
  | _ => none

/-- Whether a pattern asks for nothing but what the identifier begins with. -/
def isStart (pattern : String) : Bool :=
  pattern.toList = literalStart pattern.toList ++ ['*']

end Condition

/-- How the rows of a page are found. -/
inductive Access where
  /-- All rows are compared, in the order of their ids, until the page is full. -/
  | byId (condition : Condition)
  /-- The rows whose identifiers begin in a way are looked up, and all of them are compared. -/
  | byStart (start : List Char) (condition : Condition)
  deriving DecidableEq

namespace Condition

/-- The access by some parts, of which none asks for a kind. The last pattern that asks for more than
a start is preferred, else the last one. With a start nothing is left to compare. -/
def accessOf (parts : List Condition) : Access :=
  let patterns := parts.filterMap lookup?
  match (patterns.filter (!isStart ·)).getLast? with
  | some pattern => .byStart (literalStart pattern.toList) (joined parts)
  | none =>
    match patterns.getLast? with
    | some pattern =>
      .byStart (literalStart pattern.toList)
        (joined (parts.reverse.erase (.glob .identifier pattern)).reverse)
    | none => .byId (joined parts)

/-- How the rows that satisfy a condition are found. -/
def access (c : Condition) : Access :=
  if c.parts.any isKind then
    .byId (joined (c.parts.filter isKind ++ c.parts.filter (!isKind ·)))
  else accessOf c.parts

end Condition

/-- Whether the engine takes the statements of a criteria. -/
def Criteria.isTaken (criteria : Criteria) : Bool :=
  match criteria.condition with
  | .ok condition => condition.isTaken
  | .error _ => true

/-- Whether a criteria is within all limits of the engine. -/
def Criteria.fits (criteria : Criteria) : Bool :=
  match criteria.condition with
  | .ok condition => condition.fits
  | .error _ => true

end SymbolIndex
