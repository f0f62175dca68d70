import SymbolIndex.Database.Basic
import SymbolIndex.Search.Plan

/-!
# Search.Scan — reading the search table page by page

A scan reads the rows that satisfy a condition in the order of their ids, at most a page at a
time, and goes on after the greatest id it has seen. Each row is checked against the criteria
before it is answered, because the condition may let too much through. A page whose statement fails,
before or after it delivered rows, and a page with a row that cannot be read end the scan with an
error.

`next` ends because each page that is read leaves fewer rows to come.
-/

namespace SymbolIndex

/-- The columns of a row. -/
def SearchRow.column (r : SearchRow) : SearchColumn → String
  | .recordType => r.recordType
  | .identifier => r.identifier
  | .classType => r.classType

/-- The entry in a row. -/
def SearchRow.entry (r : SearchRow) : Except DatabaseError SearchEntry := do
  let flags ← r.flags.uint32
  let classType ← if r.classType = "" then pure none
    else (corruptUnless (ClassType.parse r.classType)).map some
  let recordType ← corruptUnless (RecordType.parse r.recordType)
  return ⟨recordType, r.identifier, classType, flags⟩

/-- A scan of the search table: what it looks for, the greatest id it has passed, the entries it
has read and not passed yet, and whether the last page was read. -/
structure Scan where
  condition : Condition
  criteria : Criteria
  lastId : Nat
  page : List (Nat × SearchEntry)
  exhausted : Bool

namespace Scan

/-- A scan from the first row on. -/
def start (condition : Condition) (criteria : Criteria) : Scan :=
  ⟨condition, criteria, 0, [], false⟩

/-- The rows of the next page after an id, if nothing fails. -/
def pageRows (rows : List SearchRow) (condition : Condition) (lastId : Nat) : List SearchRow :=
  (rows.filter (fun r => condition.holds r.column && lastId < r.id)).take pageSize

/-- The entries in some rows, with the ids of the rows. -/
def readPage (rows : List SearchRow) : Except DatabaseError (List (Nat × SearchEntry)) :=
  rows.mapM (fun r => r.entry.map (fun e => (r.id, e)))

/-- The rows that satisfy a condition, at most `n` of them, up to the first row that cannot be compared
with it, and the error of that row. -/
def deliver (condition : Condition) : Nat → List SearchRow → List SearchRow × Option DatabaseError
  | 0, _ => ([], none)
  | _, [] => ([], none)
  | n + 1, r :: rest =>
    match condition.eval r.column with
    | .error e => ([], some e)
    | .ok false => deliver condition (n + 1) rest
    | .ok true =>
      let (found, failure) := deliver condition n rest
      (r :: found, failure)

/-- The rows that the statement of a page delivers, and the error it ends with, if any. -/
def select (rows : List SearchRow) (condition : Condition) (lastId : Nat) :
    List SearchRow × Option DatabaseError :=
  match condition.access with
  | .byId condition => deliver condition pageSize (rows.filter (fun r => lastId < r.id))
  | .byStart start condition =>
    let visited := rows.filter (fun r => globMatches (start ++ ['*']) r.identifier.toList)
    match deliver condition visited.length visited with
    | (found, none) => ((found.filter (fun r => lastId < r.id)).take pageSize, none)
    | (_, some e) => ([], some e)

/-- Read the next page after an id. -/
def fetch (rows : List SearchRow) (condition : Condition) (lastId : Nat) :
    Except DatabaseError (List (Nat × SearchEntry)) :=
  if condition.isTaken then
    match select rows condition lastId with
    | (found, none) => readPage found
    | (found, some e) => (readPage found).bind (fun _ => .error e)
  else .error .statement

/-- Pass entries up to the first that the criteria accepts: the id of the last entry passed, and
that entry with the rest of the page. -/
def pass (criteria : Criteria) (lastId : Nat) :
    List (Nat × SearchEntry) → Nat × Option (SearchEntry × List (Nat × SearchEntry))
  | [] => (lastId, none)
  | (id, e) :: rest => if criteria.accepts e then (id, some (e, rest)) else pass criteria id rest

/-- The id a scan has passed once its page is passed. -/
def endId (lastId : Nat) (page : List (Nat × SearchEntry)) : Nat :=
  match page.getLast? with
  | some e => e.1
  | none => lastId

/-- The number of rows after an id. -/
def rowsAfter (rows : List SearchRow) (id : Nat) : Nat :=
  (rows.filter (fun r => decide (id < r.id))).length

theorem pass_eq_endId {criteria : Criteria} {lastId id : Nat} {page : List (Nat × SearchEntry)}
    (h : pass criteria lastId page = (id, none)) : id = endId lastId page := by
  induction page generalizing lastId with
  | nil => simpa [pass, endId] using h.symm
  | cons e rest ih =>
    rw [pass] at h
    split at h
    · simp at h
    · rw [ih h]
      cases rest with
      | nil => rfl
      | cons f rest => rfl

theorem map_id_of_readPage {rows : List SearchRow} {page : List (Nat × SearchEntry)}
    (h : readPage rows = .ok page) : page.map (·.1) = rows.map (·.id) := by
  induction rows generalizing page with
  | nil =>
    have : page = [] := by simpa [readPage, pure, Except.pure, eq_comm] using h
    simp [this]
  | cons r rest ih =>
    rw [readPage, List.mapM_cons] at h
    cases hr : r.entry with
    | error e => rw [hr] at h; cases h
    | ok e =>
      rw [hr] at h
      cases hp : rest.mapM (fun r => r.entry.map (fun e => (r.id, e))) with
      | error e' => rw [hp] at h; cases h
      | ok more =>
        rw [hp] at h
        cases h
        simp [ih hp]

theorem rowsAfter_lt {rows : List SearchRow} {r : SearchRow} {id : Nat} (hr : r ∈ rows)
    (h : id < r.id) : rowsAfter rows r.id < rowsAfter rows id := by
  have hsub : (rows.filter (fun s => decide (r.id < s.id))).Sublist
      (rows.filter (fun s => decide (id < s.id))) := by
    rw [show rows.filter (fun s => decide (r.id < s.id)) =
      (rows.filter (fun s => decide (id < s.id))).filter (fun s => decide (r.id < s.id)) by
        rw [List.filter_filter]
        congr 1
        funext s
        by_cases hs : r.id < s.id
        · simp [hs, Nat.lt_trans h hs]
        · simp [hs]]
    exact List.filter_sublist
  refine Nat.lt_of_le_of_ne hsub.length_le fun e => ?_
  have heq := hsub.eq_of_length e
  have hmem : r ∈ rows.filter (fun s => decide (id < s.id)) := by simp [hr, h]
  rw [← heq] at hmem
  simp at hmem

theorem mem_deliver {condition : Condition} {n : Nat} {rows : List SearchRow} {r : SearchRow}
    (member : r ∈ (deliver condition n rows).1) : r ∈ rows := by
  induction rows generalizing n with
  | nil => cases n <;> simp [deliver] at member
  | cons s rest ih =>
    cases n with
    | zero => simp [deliver] at member
    | succ n =>
      rw [deliver] at member
      split at member
      · cases member
      · exact List.mem_cons_of_mem s (ih member)
      · rcases List.mem_cons.1 member with rfl | member
        · exact List.mem_cons_self
        · exact List.mem_cons_of_mem s (ih member)

theorem mem_select {rows : List SearchRow} {condition : Condition} {id : Nat} {r : SearchRow}
    (member : r ∈ (select rows condition id).1) : r ∈ rows ∧ id < r.id := by
  rw [select] at member
  split at member
  · simpa using List.mem_filter.1 (mem_deliver member)
  · simp only at member
    split at member
    next found delivered =>
      obtain ⟨inside, later⟩ := List.mem_filter.1 (List.mem_of_mem_take member)
      have visited := mem_deliver (show r ∈ (deliver _ _ _).1 by rw [delivered]; exact inside)
      exact ⟨(List.mem_filter.1 visited).1, by simpa using later⟩
    · cases member

theorem rowsAfter_endId_lt {rows : List SearchRow} {condition : Condition} {id : Nat}
    {page : List (Nat × SearchEntry)} (h : fetch rows condition id = .ok page)
    (hne : page ≠ []) : rowsAfter rows (endId id page) < rowsAfter rows id := by
  obtain ⟨found, hfound, hread⟩ : ∃ found, found = (select rows condition id).1 ∧
      readPage found = .ok page := by
    rw [fetch] at h
    split at h
    · split at h
      next found selected => exact ⟨found, by rw [selected], h⟩
      next found e _ => cases hr : readPage found <;> (rw [hr] at h; cases h)
    · cases h
  have hmap := map_id_of_readPage hread
  obtain ⟨last, hlast⟩ : ∃ e, page.getLast? = some e := by
    cases hp : page.getLast? with
    | none => exact absurd (List.getLast?_eq_none_iff.1 hp) hne
    | some e => exact ⟨e, rfl⟩
  have hid : last.1 ∈ found.map (·.id) := by
    rw [← hmap]
    exact List.mem_map_of_mem (List.mem_of_getLast? hlast)
  obtain ⟨r, hr, hrid⟩ := List.mem_map.1 hid
  obtain ⟨hmem, hlt⟩ := mem_select (hfound ▸ hr)
  have : endId id page = r.id := by simp [endId, hlast, hrid]
  rw [this]
  exact rowsAfter_lt hmem hlt

set_option linter.unusedVariables false in
/-- The next answer of a scan, none when there is no more. -/
def next (rows : List SearchRow) (s : Scan) : Option (Except DatabaseError SearchEntry) × Scan :=
  match hpass : pass s.criteria s.lastId s.page with
  | (id, some (e, rest)) => (some (.ok e), { s with lastId := id, page := rest })
  | (id, none) =>
    if s.exhausted then (none, { s with lastId := id, page := [] })
    else
      match hpage : fetch rows s.condition id with
      | .error e => (some (.error e), { s with lastId := id, page := [], exhausted := true })
      | .ok page =>
        if hne : page = [] then (none, { s with lastId := id, page := [], exhausted := true })
        else
          next rows { s with lastId := id, page := page, exhausted := page.length < pageSize }
termination_by rowsAfter rows (endId s.lastId s.page)
decreasing_by
  rw [← pass_eq_endId hpass]
  exact rowsAfter_endId_lt hpage hne

/-- The first answers of a scan, at most as many as `fuel`. -/
def collect (rows : List SearchRow) (s : Scan) :
    (fuel : Nat) → List (Except DatabaseError SearchEntry)
  | 0 => []
  | fuel + 1 =>
    match s.next rows with
    | (some answer, s) => answer :: collect rows s fuel
    | (none, _) => []

/-- The answers of a scan. Each row is answered once at most, and an error ends the scan. -/
def answers (rows : List SearchRow) (s : Scan) : List (Except DatabaseError SearchEntry) :=
  s.collect rows (s.page.length + rows.length + 2)

end Scan

end SymbolIndex
