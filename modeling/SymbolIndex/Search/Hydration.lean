import SymbolIndex.Search.Index

/-!
# Search.Hydration — from entries to records

The records of the entries that a search finds. An entry whose record is gone is passed over.
-/

namespace SymbolIndex

/-- A limit with one answer less. -/
def lessOne (limit : Option Nat) : Option Nat := limit.map (· - 1)

/-- The records of some entries, at most as many as the limit, each looked up only when it is
needed. -/
def hydrate (get : RecordKey → Stored (Option Record)) :
    Option Nat → List (Hit SearchEntry) → Script (List (Hit Record))
  | some 0, _ => return []
  | _, [] => return []
  | limit, .error e :: rest => do return .error e :: (← hydrate get (lessOne limit) rest)
  | limit, .ok entry :: rest => do
    match ← get entry.key with
    | .ok none => hydrate get limit rest
    | .ok (some record) => return .ok record :: (← hydrate get (lessOne limit) rest)
    | .error e => return .error (.store e) :: (← hydrate get (lessOne limit) rest)

/-- The records that a criteria accepts, at most as many as the limit. -/
def SearchIndex.records (get : RecordKey → Stored (Option Record)) (criteria : Criteria)
    (limit : Option Nat) : Searched (List (Hit Record)) := do
  let hits ← SearchIndex.search criteria
  Action.ofPlain (hydrate get limit hits)

end SymbolIndex
