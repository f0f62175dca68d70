import SymbolIndex.Database.Basic
import SymbolIndex.Json.Basic
import SymbolIndex.System.Outside
import SymbolIndex.Text.Lines

/-!
# Database.Edit — edits of stored rows by hand

Whoever has the database may edit it past the index, which has to live with the rows it finds. No
operation of an index makes such an edit. A column takes what its type lets in: a column
of text turns a number into its digits, a column of numbers turns a text that writes a whole number
into that number and keeps any other text. What a column or a unique key forbids is refused.
-/

namespace SymbolIndex

/-- What a value becomes in a column of text. -/
def Cell.toText? : Cell → Option String
  | .null => none
  | .integer i => some (toString i)
  | .text s => some s

/-- The whole number that a text writes, as digits with an optional sign, fraction and exponent
and blank space around them. -/
def wholeNumber? (s : String) : Option Int :=
  let cs := (s.toList.dropWhile (fun c => c = ' ' ∨ ('\t' ≤ c ∧ c ≤ '\r'))).reverse
  let cs := (cs.dropWhile (fun c => c = ' ' ∨ ('\t' ≤ c ∧ c ≤ '\r'))).reverse
  let (negative, cs) := match cs with
    | '-' :: rest => (true, rest)
    | '+' :: rest => (false, rest)
    | rest => (false, rest)
  let whole := cs.takeWhile Char.isDigit
  let cs := cs.dropWhile Char.isDigit
  let (fraction, cs) := match cs with
    | '.' :: rest => (rest.takeWhile Char.isDigit, rest.dropWhile Char.isDigit)
    | rest => ([], rest)
  let exponent : Option Int := match cs with
    | [] => some 0
    | e :: rest =>
      if e = 'e' ∨ e = 'E' then
        let (down, digits) := match rest with
          | '-' :: digits => (true, digits)
          | '+' :: digits => (false, digits)
          | digits => (false, digits)
        if digits = [] ∨ !digits.all Char.isDigit then none
        else some (if down then -(Json.digitsValue digits : Int) else Json.digitsValue digits)
      else none
  match exponent with
  | none => none
  | some exponent =>
    if whole = [] ∧ fraction = [] then none
    else
      let mantissa : Int := Json.digitsValue (whole ++ fraction)
      let mantissa := if negative then -mantissa else mantissa
      let scale := exponent - fraction.length
      if mantissa = 0 then some 0
      else if 20 < scale ∨ scale < -400 then none
      else if 0 ≤ scale then some (mantissa * (powerOfTen scale.toNat : Nat))
      else
        let unit : Int := (powerOfTen (-scale).toNat : Nat)
        if mantissa % unit = 0 then some (mantissa / unit) else none

/-- What a value becomes in a column of numbers. -/
def Cell.toNumber : Cell → Cell
  | .text s =>
    match wholeNumber? s with
    | some i => .integer i
    | none => .text s
  | cell => cell

/-- A column that an edit can set. The rows are those of one name. -/
inductive EditedColumn where
  | classType
  | classStart
  | classStop
  | classFile
  | classFlags
  | functionStart
  | constantFile
  | referenceType
  | searchType
  | searchRecordType
  | searchFlags
  deriving DecidableEq

/-- An edit of stored rows. -/
inductive Edit where
  /-- Set a column of every row of a name. -/
  | set (column : EditedColumn) (name : String) (value : Cell)
  /-- Add a row of a class without a location. -/
  | insertClass (fqn : String) (classType : Cell)
  /-- Drop a table, and the rows of other tables that belong to its rows. -/
  | dropTable (name : String)

namespace Edit

/-- Change some rows of a table so that a key stays unique. -/
def change {ρ κ : Type} [DecidableEq κ] (table : Table ρ) (key : ρ → κ) (p : ρ → Bool)
    (f : ρ → Option ρ) : Transaction Unit := do
  let rows ← table.rows
  match rows.mapM (fun r => if p r then f r else some r) with
  | none => throw .statement
  | some rows =>
    if (rows.map key).Nodup then table.modify (fun _ => rows) else throw .statement

/-- Set a column of every row of a name. -/
def setColumn (column : EditedColumn) (name : String) (value : Cell) : Transaction Unit :=
  let classRows (f : ClassRow → Option ClassRow) : Transaction Unit :=
    change Table.classes (fun r => (r.classType, r.fqn)) (fun r => r.fqn == name) f
  let searchRows (f : SearchRow → Option SearchRow) : Transaction Unit :=
    change Table.search (fun r => (r.recordType, r.identifier)) (fun r => r.identifier == name) f
  let required : Option Cell := if value = .null then none else some value.toNumber
  match column with
  | .classType => classRows (fun r => value.toText?.map (fun t => { r with classType := t }))
  | .classStart => classRows (fun r => some { r with start := value.toNumber })
  | .classStop => classRows (fun r => some { r with stop := value.toNumber })
  | .classFile => classRows (fun r => some { r with filePath := value.toText? })
  | .classFlags => classRows (fun r => required.map (fun v => { r with flags := v }))
  | .functionStart =>
    change Table.functions (·.fqn) (fun r => r.fqn == name)
      (fun r => some { r with start := value.toNumber })
  | .constantFile =>
    change Table.constants (·.fqn) (fun r => r.fqn == name)
      (fun r => some { r with filePath := value.toText? })
  | .referenceType =>
    change Table.fileReferences (fun r => (r.fileId, r.position)) (fun r => r.identifier == name)
      (fun r => value.toText?.map (fun t => { r with recordType := t }))
  | .searchType => searchRows (fun r => value.toText?.map (fun t => { r with classType := t }))
  | .searchRecordType =>
    searchRows (fun r => value.toText?.map (fun t => { r with recordType := t }))
  | .searchFlags => searchRows (fun r => required.map (fun v => { r with flags := v }))

/-- Add a row of a class without a location. -/
def addClass (fqn : String) (classType : Cell) : Transaction Unit := do
  let rows ← Table.classes.rows
  match classType.toText? with
  | none => throw .statement
  | some t =>
    if rows.any (fun r => r.classType == t && r.fqn == fqn) then throw .statement
    else
      Table.classes.modify
        (· ++ [⟨nextId (rows.map (·.id)), t, fqn, .null, .null, none, .integer 0⟩])

/-- Drop a table that is there. -/
def dropPresent {ρ : Type} (table : Table ρ) : Transaction Unit := do
  let _ ← table.rows
  table.drop

/-- Remove every row of a table, if it is there. -/
def empty {ρ : Type} (table : Table ρ) : Transaction Unit := fun db =>
  match table.rows? db with
  | some _ => .ok ((), table.replace db (some []))
  | none => .ok ((), db)

/-- Drop the table of a name. -/
def dropNamed (name : String) : Transaction Unit :=
  match name with
  | "class_index" => dropPresent Table.classes
  | "function_index" => dropPresent Table.functions
  | "constant_index" => dropPresent Table.constants
  | "member_index" => do
    dropPresent Table.members
    empty Table.memberReferences
  | "member_reference_index" => dropPresent Table.memberReferences
  | "file_index" => do
    dropPresent Table.files
    empty Table.fileReferences
  | "file_reference_index" => dropPresent Table.fileReferences
  | "index_meta" => dropPresent Table.properties
  | "search_index" => dropPresent Table.search
  | "dirty_file" => dropPresent Table.dirty
  | _ => throw .statement

/-- Make an edit. -/
def apply : Edit → Transaction Unit
  | .set column name value => setColumn column name value
  | .insertClass fqn classType => addClass fqn classType
  | .dropTable name => dropNamed name

end Edit

end SymbolIndex
