import SymbolIndex.Integer
import SymbolIndex.Record.Kind

/-!
# Database.Cell — what a column holds

Columns of text hold text and columns of kinds hold names, but a column of numbers may hold
anything, since whoever edits a database by hand may put it there. Reading such a cell as the
number a record needs either yields that number or is an error.
-/

namespace SymbolIndex

/-- Why a transaction fails. -/
inductive DatabaseError where
  /-- A statement could not be run, or a cell does not hold what was asked for. -/
  | statement
  /-- A text that should name a kind does not. -/
  | corrupt (error : ParseError)
  deriving DecidableEq

/-- What a column of numbers holds. -/
inductive Cell where
  | null
  | integer (value : Int)
  | text (value : String)
  deriving DecidableEq

namespace Cell

/-- The cell of a 32-bit number. -/
def ofUInt32 (n : UInt32) : Cell := .integer n.toNat

/-- The 32-bit number in a cell. -/
def uint32 : Cell → Except DatabaseError UInt32
  | .integer i =>
    match uint32OfInt? i with
    | some n => .ok n
    | none => .error .statement
  | _ => .error .statement

/-- The 32-bit number in a cell that may be empty. -/
def uint32? : Cell → Except DatabaseError (Option UInt32)
  | .null => .ok none
  | cell => cell.uint32.map some

end Cell

/-- A kind read by name, where a text that is no name is a corrupt row. -/
def corruptUnless {α : Type} (result : Except ParseError α) : Except DatabaseError α :=
  result.mapError .corrupt

end SymbolIndex
