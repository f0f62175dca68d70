import SymbolIndex.System.Script

/-!
# Index.Freshness — the stamps of files

A file is fresh when its stamp is no earlier than the time it was last changed. A stamp comes from
the clock, and is always past the stamp before it, even when the clock is not. Times before the
epoch count as the epoch.
-/

namespace SymbolIndex.Freshness

/-- The clock in milliseconds. -/
def nowMillis : Script Int64 := do return max 0 (← Script.ask .now)

/-- The clock in seconds. -/
def nowSeconds : Script Int64 := do return (← nowMillis) / 1000

/-- The stamp of a file that is indexed now and had a stamp before, or none. -/
def nextStamp (now : Int64) (previous : Option Int64) : Int64 :=
  match previous with
  | some stamp => max now (stamp + 1)
  | none => now

/-- The time a file was last changed, in milliseconds. -/
def mtime (path : Path) : Script (Except DiskError Int64) := do
  match ← Script.ask (.stat path) with
  | .ok found => return .ok (Int64.ofInt (max 0 found.modified))
  | .error e => return .error e

end SymbolIndex.Freshness
