import Mathlib.Data.List.Nodup
import SymbolIndex.Database.Basic
import SymbolIndex.Proofs.System.Run

/-!
# Proofs.Database.Rows — rows as a finite function

A table with one row for each key lists a partial function on keys: `Lists` says so, with a relation
`shape` between a row and the value it stands for. Looking up a row, putting one in its place and
removing one are then looking up, setting and removing a value (`Lists.find?_some`, `Lists.of_upsert`,
`Lists.delete`).
-/

namespace SymbolIndex

set_option autoImplicit false

variable {ρ κ α : Type}

/-! ## Statements on a table -/

namespace Table

variable {t : Table ρ} {db : Database} {rows : List ρ}

theorem rows_ok (there : t.rows? db = some rows) : t.rows db = .ok (rows, db) := by
  rw [Table.rows, there]

theorem modify_ok (there : t.rows? db = some rows) (f : List ρ → List ρ) :
    t.modify f db = .ok ((), t.replace db (some (f rows))) := by
  rw [modify, there]

theorem rows_eq_ok {db' : Database} {found : List ρ} :
    t.rows db = .ok (found, db') ↔ t.rows? db = some found ∧ db' = db := by
  rw [Table.rows]
  cases t.rows? db with
  | none => simp
  | some rows => simp [eq_comm]

theorem modify_eq_ok {f : List ρ → List ρ} {db' : Database} :
    t.modify f db = .ok ((), db') ↔ ∃ rows, t.rows? db = some rows ∧ db' = t.replace db (some (f rows)) := by
  rw [modify]
  cases t.rows? db with
  | none => simp
  | some rows => simp [eq_comm]

theorem delete_ok (there : t.rows? db = some rows) (p : ρ → Bool) :
    t.delete p db = .ok ((), t.replace db (some (rows.filter fun r => !p r))) :=
  modify_ok there _

theorem drop_ok (t : Table ρ) (db : Database) : t.drop db = .ok ((), t.replace db none) := rfl

theorem ensure_missing (missing : t.rows? db = none) :
    t.ensure db = .ok ((), t.replace db (some [])) := by
  rw [ensure, missing]

theorem ensure_there (there : t.rows? db = some rows) : t.ensure db = .ok ((), db) := by
  rw [ensure, there]

end Table

/-! ## Ids -/

theorem le_foldl_max (ids : List Nat) (n : Nat) : n ≤ ids.foldl max n ∧ ∀ id ∈ ids, id ≤ ids.foldl max n := by
  induction ids generalizing n with
  | nil => simp
  | cons id ids ih =>
      obtain ⟨first, rest⟩ := ih (max n id)
      rw [List.foldl_cons]
      refine ⟨by omega, fun id' member => ?_⟩
      rcases List.mem_cons.1 member with rfl | member
      · omega
      · exact rest id' member

theorem lt_nextId {ids : List Nat} {id : Nat} (member : id ∈ ids) : id < nextId ids :=
  Nat.lt_succ_of_le ((le_foldl_max ids 0).2 id member)

/-! ## Upserts -/

/-- An upsert changes the first row that is looked for, or adds a row at the end. -/
theorem upsert_cases (p : ρ → Bool) (change : ρ → ρ) (fresh : ρ) (rows : List ρ) :
    (∃ front row back, rows = front ++ row :: back ∧ (∀ r ∈ front, p r = false) ∧ p row = true ∧
      upsert p change fresh rows = front ++ change row :: back) ∨
    ((∀ r ∈ rows, p r = false) ∧ upsert p change fresh rows = rows ++ [fresh]) := by
  induction rows with
  | nil => exact .inr ⟨by simp, rfl⟩
  | cons r rows ih =>
      rw [upsert]
      by_cases hit : p r = true
      · rw [if_pos hit]
        exact .inl ⟨[], r, rows, rfl, by simp, hit, rfl⟩
      · rw [if_neg hit]
        rcases ih with ⟨front, row, back, rfl, before, found, result⟩ | ⟨none_, result⟩
        · refine .inl ⟨r :: front, row, back, rfl, ?_, found, by rw [result]; rfl⟩
          intro r' member
          rcases List.mem_cons.1 member with rfl | member
          · simpa using hit
          · exact before r' member
        · refine .inr ⟨?_, by rw [result]; rfl⟩
          intro r' member
          rcases List.mem_cons.1 member with rfl | member
          · simpa using hit
          · exact none_ r' member

/-- An upsert leaves the ids as they are, or adds the id of the new row. -/
theorem map_upsert {idOf : ρ → κ} {p : ρ → Bool} {change : ρ → ρ} {fresh : ρ} {rows : List ρ}
    (kept : ∀ r, idOf (change r) = idOf r) :
    (upsert p change fresh rows).map idOf = rows.map idOf ∨
      (upsert p change fresh rows).map idOf = rows.map idOf ++ [idOf fresh] := by
  rcases upsert_cases p change fresh rows with ⟨front, row, back, rfl, -, -, result⟩ | ⟨-, result⟩
  · left
    rw [result]
    simp [kept]
  · right
    rw [result, List.map_append, List.map_singleton]

/-- Ids stay distinct when a changed row keeps its id and a new row has a new one. -/
theorem nodup_upsert {idOf : ρ → κ} {p : ρ → Bool} {change : ρ → ρ} {fresh : ρ} {rows : List ρ}
    (distinct : (rows.map idOf).Nodup) (kept : ∀ r, idOf (change r) = idOf r)
    (new : (∀ r ∈ rows, p r = false) → idOf fresh ∉ rows.map idOf) :
    ((upsert p change fresh rows).map idOf).Nodup := by
  rcases upsert_cases p change fresh rows with ⟨front, row, back, rfl, -, -, result⟩ | ⟨none_, result⟩
  · rw [result]
    simpa [kept] using distinct
  · rw [result, List.map_append, List.nodup_append']
    refine ⟨distinct, by simp, ?_⟩
    intro id member last
    rw [List.map_singleton, List.mem_singleton] at last
    exact new none_ (last ▸ member)

theorem find?_upsert {p : ρ → Bool} {change : ρ → ρ} {fresh : ρ} {rows : List ρ}
    (changed : ∀ r, p r = true → p (change r) = true) (hit : p fresh = true) :
    ∃ row, (upsert p change fresh rows).find? p = some row ∧
      ((∃ r ∈ rows, p r = true ∧ row = change r) ∨ ((∀ r ∈ rows, p r = false) ∧ row = fresh)) := by
  rcases upsert_cases p change fresh rows with
    ⟨front, row, back, rfl, before, found, result⟩ | ⟨none_, result⟩
  · refine ⟨change row, ?_, .inl ⟨row, by simp, found, rfl⟩⟩
    have skipped : front.find? p = none := List.find?_eq_none.2 fun r member => by
      simp [before r member]
    rw [result, List.find?_append, skipped]
    simp [changed row found]
  · refine ⟨fresh, ?_, .inr ⟨none_, rfl⟩⟩
    have skipped : rows.find? p = none := List.find?_eq_none.2 fun r member => by
      simp [none_ r member]
    rw [result, List.find?_append, skipped]
    simp [hit]

/-! ## Rows that list a function -/

/-- The rows list a partial function: one row for each key with a value, of the shape of that value. -/
structure Lists (rows : List ρ) (keyOf : ρ → κ) (shape : ρ → α → Prop) (find : κ → Option α) :
    Prop where
  distinct : (rows.map keyOf).Nodup
  listed : ∀ row ∈ rows, ∃ a, find (keyOf row) = some a ∧ shape row a
  complete : ∀ k a, find k = some a → ∃ row ∈ rows, keyOf row = k

namespace Lists

variable {rows : List ρ} {keyOf : ρ → κ} {shape : ρ → α → Prop} {find : κ → Option α}

theorem empty : Lists [] keyOf shape (fun _ => none) :=
  ⟨by simp, by simp, fun _ _ found => by cases found⟩

theorem shape_of (lists : Lists rows keyOf shape find) {row : ρ} (member : row ∈ rows) {a : α}
    (found : find (keyOf row) = some a) : shape row a := by
  obtain ⟨b, found', shaped⟩ := lists.listed row member
  rw [found, Option.some.injEq] at found'
  exact found' ▸ shaped

theorem row_of (lists : Lists rows keyOf shape find) {k : κ} {a : α} (found : find k = some a) :
    ∃ row ∈ rows, keyOf row = k ∧ shape row a := by
  obtain ⟨row, member, rfl⟩ := lists.complete k a found
  exact ⟨row, member, rfl, lists.shape_of member found⟩

theorem absent (lists : Lists rows keyOf shape find) {k : κ} (missing : find k = none) :
    ∀ row ∈ rows, keyOf row ≠ k := by
  rintro row member rfl
  obtain ⟨a, found, -⟩ := lists.listed row member
  rw [missing] at found
  cases found

theorem eq_of_key (lists : Lists rows keyOf shape find) {row row' : ρ} (member : row ∈ rows)
    (member' : row' ∈ rows) (same : keyOf row = keyOf row') : row = row' :=
  List.inj_on_of_nodup_map lists.distinct member member' same

/-- The row of a key is found by any test that singles out the key. -/
theorem find?_some (lists : Lists rows keyOf shape find) {k : κ} {a : α} (found : find k = some a)
    {p : ρ → Bool} (test : ∀ row ∈ rows, p row = true ↔ keyOf row = k) :
    ∃ row ∈ rows, rows.find? p = some row ∧ keyOf row = k ∧ shape row a := by
  obtain ⟨row, member, key, shaped⟩ := lists.row_of found
  cases hit : rows.find? p with
  | none => exact absurd ((test row member).2 key) (List.find?_eq_none.1 hit row member)
  | some row' =>
      have member' := List.mem_of_find?_eq_some hit
      have key' := (test row' member').1 (List.find?_some hit)
      have same := lists.eq_of_key member' member (key'.trans key.symm)
      exact ⟨row', member', rfl, key', same ▸ shaped⟩

theorem find?_none (lists : Lists rows keyOf shape find) {k : κ} (missing : find k = none)
    {p : ρ → Bool} (test : ∀ row ∈ rows, p row = true ↔ keyOf row = k) : rows.find? p = none := by
  rw [List.find?_eq_none]
  intro row member hit
  exact lists.absent missing row member ((test row member).1 hit)

/-- Rows of one key are one row at most. -/
theorem filter_some (lists : Lists rows keyOf shape find) {k : κ} {a : α} (found : find k = some a)
    {p : ρ → Bool} (test : ∀ row ∈ rows, p row = true ↔ keyOf row = k) :
    ∃ row ∈ rows, rows.filter p = [row] ∧ keyOf row = k ∧ shape row a := by
  obtain ⟨row, member, key, shaped⟩ := lists.row_of found
  refine ⟨row, member, List.perm_singleton.1 ((List.perm_ext_iff_of_nodup ?_ ?_).2 fun row' => ?_),
    key, shaped⟩
  · exact (List.Nodup.of_map _ lists.distinct).filter _
  · simp
  · rw [List.mem_filter, List.mem_singleton]
    constructor
    · rintro ⟨member', hit⟩
      exact lists.eq_of_key member' member (((test row' member').1 hit).trans key.symm)
    · rintro rfl
      exact ⟨member, (test row' member).2 key⟩

theorem filter_none (lists : Lists rows keyOf shape find) {k : κ} (missing : find k = none)
    {p : ρ → Bool} (test : ∀ row ∈ rows, p row = true ↔ keyOf row = k) : rows.filter p = [] := by
  rw [List.filter_eq_nil_iff]
  intro row member hit
  exact lists.absent missing row member ((test row member).1 hit)

/-- Put a value at a key. The rows of other keys may change their shape, and the row of the key may be
missing or of any shape before. -/
theorem of_upsert [DecidableEq κ] {find' : κ → Option α} {shape' : ρ → α → Prop} {k : κ} {a : α}
    {p : ρ → Bool} {change : ρ → ρ} {fresh : ρ} (distinct : (rows.map keyOf).Nodup)
    (others : ∀ row ∈ rows, keyOf row ≠ k → ∃ b, find (keyOf row) = some b ∧ shape' row b)
    (complete : ∀ k' b, k' ≠ k → find k' = some b → ∃ row ∈ rows, keyOf row = k')
    (effect : ∀ k', find' k' = if k = k' then some a else find k')
    (test : ∀ row ∈ rows, p row = true ↔ keyOf row = k) (kept : ∀ r, keyOf (change r) = keyOf r)
    (changed : ∀ row ∈ rows, keyOf row = k → shape' (change row) a) (freshKey : keyOf fresh = k)
    (added : (∀ row ∈ rows, keyOf row ≠ k) → shape' fresh a) :
    Lists (upsert p change fresh rows) keyOf shape' find' := by
  have missed : (∀ r ∈ rows, p r = false) → ∀ row ∈ rows, keyOf row ≠ k := by
    intro none_ row member same
    have hit := (test row member).2 same
    rw [none_ row member] at hit
    cases hit
  refine ⟨nodup_upsert distinct kept fun none_ => ?_, ?_, ?_⟩
  · rw [freshKey, List.mem_map]
    rintro ⟨row, member, same⟩
    exact missed none_ row member same
  · rcases upsert_cases p change fresh rows with
      ⟨front, row, back, rfl, -, found, result⟩ | ⟨none_, result⟩
    · rw [result]
      have key : keyOf row = k := (test row (by simp)).1 found
      intro row' member
      have split : row' = change row ∨ (row' ∈ front ++ row :: back ∧ keyOf row' ≠ k) := by
        rcases List.mem_append.1 member with early | late
        · right
          refine ⟨List.mem_append_left _ early, fun same => ?_⟩
          rw [List.map_append, List.nodup_append'] at distinct
          refine distinct.2.2 (List.mem_map_of_mem early) ?_
          rw [same, ← key]
          simp
        · rcases List.mem_cons.1 late with rfl | late
          · exact .inl rfl
          · right
            refine ⟨List.mem_append_right _ (List.mem_cons_of_mem _ late), fun same => ?_⟩
            rw [List.map_append, List.nodup_append', List.map_cons, List.nodup_cons] at distinct
            refine distinct.2.1.1 ?_
            rw [key, ← same]
            exact List.mem_map_of_mem late
      rcases split with rfl | ⟨there, other⟩
      · refine ⟨a, ?_, changed row (by simp) key⟩
        rw [kept, key, effect, if_pos rfl]
      · obtain ⟨b, found', shaped⟩ := others row' there other
        exact ⟨b, by rw [effect, if_neg (Ne.symm other), found'], shaped⟩
    · rw [result]
      intro row' member
      rcases List.mem_append.1 member with there | last
      · have other := missed none_ row' there
        obtain ⟨b, found', shaped⟩ := others row' there other
        exact ⟨b, by rw [effect, if_neg (Ne.symm other), found'], shaped⟩
      · rw [List.mem_singleton] at last
        subst last
        exact ⟨a, by rw [freshKey, effect, if_pos rfl], added (missed none_)⟩
  · intro k' b found'
    rw [effect] at found'
    rcases upsert_cases p change fresh rows with
      ⟨front, row, back, rfl, -, hit, result⟩ | ⟨none_, result⟩
    · rw [result]
      have key : keyOf row = k := (test row (by simp)).1 hit
      split at found'
      next same => exact ⟨change row, by simp, by rw [kept, key, same]⟩
      next other =>
        obtain ⟨row', member, key'⟩ := complete k' b (Ne.symm other) found'
        refine ⟨row', ?_, key'⟩
        have different : row' ≠ row := by
          rintro rfl
          exact other (key.symm.trans key')
        simp only [List.mem_append, List.mem_cons] at member ⊢
        rcases member with early | rfl | late
        · exact .inl early
        · exact absurd rfl different
        · exact .inr (.inr late)
    · rw [result]
      split at found'
      next same => exact ⟨fresh, by simp, by rw [freshKey, same]⟩
      next other =>
        obtain ⟨row', member, key'⟩ := complete k' b (Ne.symm other) found'
        exact ⟨row', List.mem_append_left _ member, key'⟩

/-- Put a value at a key of rows that list a function. -/
theorem upsert [DecidableEq κ] (lists : Lists rows keyOf shape find) {find' : κ → Option α} {k : κ}
    {a : α} {p : ρ → Bool} {change : ρ → ρ} {fresh : ρ}
    (effect : ∀ k', find' k' = if k = k' then some a else find k')
    (test : ∀ row ∈ rows, p row = true ↔ keyOf row = k) (kept : ∀ r, keyOf (change r) = keyOf r)
    (changed : ∀ row ∈ rows, keyOf row = k → shape (change row) a) (freshKey : keyOf fresh = k)
    (added : shape fresh a) : Lists (upsert p change fresh rows) keyOf shape find' :=
  of_upsert lists.distinct (fun row member _ => lists.listed row member)
    (fun k' b _ found => lists.complete k' b found) effect test kept changed freshKey fun _ => added

/-- Remove the value at a key. -/
theorem delete [DecidableEq κ] (lists : Lists rows keyOf shape find) {find' : κ → Option α} {k : κ}
    {p : ρ → Bool} {shape' : ρ → α → Prop}
    (effect : ∀ k', find' k' = if k = k' then none else find k')
    (test : ∀ row ∈ rows, p row = true ↔ keyOf row = k)
    (kept : ∀ row ∈ rows, keyOf row ≠ k → ∀ a, shape row a → shape' row a) :
    Lists (rows.filter fun r => !p r) keyOf shape' find' := by
  refine ⟨lists.distinct.sublist (List.filter_sublist.map _), ?_, ?_⟩
  · intro row member
    obtain ⟨member, missed⟩ := List.mem_filter.1 member
    have other : keyOf row ≠ k := by
      intro same
      simp [(test row member).2 same] at missed
    obtain ⟨a, found, shaped⟩ := lists.listed row member
    exact ⟨a, by rw [effect, if_neg (Ne.symm other), found], kept row member other a shaped⟩
  · intro k' a found
    rw [effect] at found
    split at found
    · cases found
    next other =>
      obtain ⟨row, member, key⟩ := lists.complete k' a found
      refine ⟨row, List.mem_filter.2 ⟨member, ?_⟩, key⟩
      cases hit : p row with
      | false => rfl
      | true => exact absurd (((test row member).1 hit).symm.trans key) other

/-- Rows that list a function list any function with the same values. -/
theorem congr (lists : Lists rows keyOf shape find) {find' : κ → Option α}
    (same : ∀ k, find' k = find k) : Lists rows keyOf shape find' := by
  rw [show find' = find from funext same]
  exact lists

end Lists

end SymbolIndex
