/-!
# Toml.Basic — values and tables

A document is a table. A table remembers how it came about, because that decides how it may grow: a
table that a header only passed through may still get a header of its own, a table made by a dotted
key may only grow by dotted keys, and a table written inline does not grow at all.

Only what a configuration can be written with is here: there are no dates, no fractions and no
arrays of tables.
-/

namespace SymbolIndex

/-- A value. The flags of a table say whether it has no header of its own, and whether a dotted key
made it. -/
inductive Toml where
  | string (value : String)
  | integer (value : Int)
  | boolean (value : Bool)
  | array (items : List Toml)
  | inlineTable (entries : List (String × Toml))
  | table (implicit dotted : Bool) (entries : List (String × Toml))

namespace Toml

/-- The entries of a table by key. -/
abbrev Entries := List (String × Toml)

/-- Whether there is a value for a key. -/
def Entries.has (entries : Entries) (key : String) : Bool := entries.any (fun e => e.1 == key)

/-- The value for a key. -/
def Entries.find? (entries : Entries) (key : String) : Option Toml :=
  (List.find? (fun e => e.1 == key) entries).map (·.2)

/-- The entries with another value for a key that has one. -/
def Entries.update (entries : Entries) (key : String) (value : Toml) : Entries :=
  entries.map (fun e => if e.1 == key then (key, value) else e)

/-- The entries with one more; a key is given one value at most. -/
def Entries.add (entries : Entries) (key : String) (value : Toml) : Option Entries :=
  if entries.has key then none else some (entries ++ [(key, value)])

/-- Open the table of a header. -/
def Entries.openTable (entries : Entries) : List String → Option Entries
  | [] => none
  | [key] =>
    match entries.find? key with
    | none => some (entries ++ [(key, .table false false [])])
    | some (.table true false inner) => some (entries.update key (.table false false inner))
    | some _ => none
  | key :: rest =>
    match entries.find? key with
    | none => do return entries ++ [(key, .table true false (← openTable [] rest))]
    | some (.table implicit dotted inner) => do
      return entries.update key (.table implicit dotted (← openTable inner rest))
    | some _ => none

/-- Give a value to a key. `below` says whether a dotted key has led here and, if so, whether a
dotted key made this table. -/
def Entries.assign (entries : Entries) (below : Option Bool) (value : Toml) :
    List String → Option Entries
  | [] => none
  | [key] => if below = some false then none else entries.add key value
  | key :: rest =>
    match entries.find? key with
    | none => do
      return entries ++ [(key, .table true true (← assign [] (some true) value rest))]
    | some (.table true dotted inner) => do
      return entries.update key (.table true dotted (← assign inner (some dotted) value rest))
    | some _ => none

/-- Give a value to a key under the table of a header. -/
def Entries.assignUnder (entries : Entries) (path : List String) (value : Toml) :
    List String → Option Entries
  | [] => entries.assign none value path
  | name :: rest =>
    match entries.find? name with
    | some (.table implicit dotted inner) => do
      return entries.update name (.table implicit dotted (← assignUnder inner path value rest))
    | _ => none

end Toml

end SymbolIndex
