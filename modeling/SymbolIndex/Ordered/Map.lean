import SymbolIndex.Ordered.Key

/-!
# Ordered.Map — finite maps listed in key order

A `SortedMap` is its list of entries, keys strictly ascending. Two maps with the same entries are
therefore the same value, and listing a map is reading the field.

The main statements give each operation through `get?`: `get?_insert`, `get?_erase`.
-/

namespace SymbolIndex

/-- Entries in strictly ascending key order, one for each key. -/
structure SortedMap (κ α : Type) [KeyOrder κ] where
  toList : List (κ × α)
  ascending : toList.Pairwise (fun a b => a.1 < b.1)

namespace SortedMap

variable {κ α : Type} [KeyOrder κ]

theorem ext {m n : SortedMap κ α} (h : m.toList = n.toList) : m = n := by
  cases m; cases n; cases h; rfl

instance [DecidableEq κ] [DecidableEq α] : DecidableEq (SortedMap κ α) := fun m n =>
  decidable_of_iff (m.toList = n.toList) ⟨ext, fun h => h ▸ rfl⟩

/-- No entries. -/
def empty : SortedMap κ α := ⟨[], .nil⟩

instance : Inhabited (SortedMap κ α) := ⟨empty⟩

/-- Put `(k, v)` before the first greater key, in place of an equal one. -/
def insertEntry (k : κ) (v : α) : List (κ × α) → List (κ × α)
  | [] => [(k, v)]
  | e :: rest =>
    if k < e.1 then (k, v) :: e :: rest
    else if e.1 < k then e :: insertEntry k v rest
    else (k, v) :: rest

theorem mem_insertEntry {k : κ} {v : α} {l : List (κ × α)} {e : κ × α} :
    e ∈ insertEntry k v l → e = (k, v) ∨ e ∈ l := by
  induction l with
  | nil => simp [insertEntry]
  | cons f rest ih =>
    rw [insertEntry]
    split
    · simp
    · split
      · rintro (_ | ⟨_, h⟩)
        · exact .inr List.mem_cons_self
        · exact (ih h).imp_right (List.mem_cons_of_mem _)
      · rintro (_ | ⟨_, h⟩)
        · exact .inl rfl
        · exact .inr (List.mem_cons_of_mem _ h)

theorem ascending_insertEntry (k : κ) (v : α) {l : List (κ × α)}
    (h : l.Pairwise (fun a b => a.1 < b.1)) :
    (insertEntry k v l).Pairwise (fun a b => a.1 < b.1) := by
  induction l with
  | nil => simp [insertEntry]
  | cons f rest ih =>
    have hf := List.pairwise_cons.1 h
    rw [insertEntry]
    split
    next hlt =>
      refine List.pairwise_cons.2 ⟨fun e he => ?_, h⟩
      rcases List.mem_cons.1 he with rfl | he
      · exact hlt
      · exact KeyOrder.trans hlt (hf.1 e he)
    next hge =>
      split
      next hlt =>
        refine List.pairwise_cons.2 ⟨fun e he => ?_, ih hf.2⟩
        rcases mem_insertEntry he with rfl | he
        · exact hlt
        · exact hf.1 e he
      next hle =>
        have hk : k = f.1 := KeyOrder.eq_of_not_lt hge hle
        exact List.pairwise_cons.2 ⟨fun e he => hk ▸ hf.1 e he, hf.2⟩

/-- The map with `v` at `k`. -/
def insert (m : SortedMap κ α) (k : κ) (v : α) : SortedMap κ α :=
  ⟨insertEntry k v m.toList, ascending_insertEntry k v m.ascending⟩

/-- Keep the entries that satisfy `p`. -/
def filter (p : κ → α → Bool) (m : SortedMap κ α) : SortedMap κ α :=
  ⟨m.toList.filter (fun e => p e.1 e.2), m.ascending.filter _⟩

/-- The map without `k`. -/
def erase [DecidableEq κ] (m : SortedMap κ α) (k : κ) : SortedMap κ α :=
  m.filter (fun k' _ => k' ≠ k)

/-- The value at `k`. -/
def get? [DecidableEq κ] (m : SortedMap κ α) (k : κ) : Option α :=
  (m.toList.find? (fun e => e.1 = k)).map (·.2)

/-- Keys, ascending. -/
def keys (m : SortedMap κ α) : List κ := m.toList.map (·.1)

/-- Values in the order of their keys. -/
def values (m : SortedMap κ α) : List α := m.toList.map (·.2)

/-- Number of entries. -/
def size (m : SortedMap κ α) : Nat := m.toList.length

/-- Whether there is no entry. -/
def isEmpty (m : SortedMap κ α) : Bool := m.toList.isEmpty

/-- The map of a list of entries; of two entries with one key the later stands. -/
def ofList (entries : List (κ × α)) : SortedMap κ α :=
  entries.foldl (fun m e => m.insert e.1 e.2) empty

section Lemmas

variable [DecidableEq κ]

@[simp] theorem get?_empty (k : κ) : (empty : SortedMap κ α).get? k = none := rfl

theorem find?_insertEntry (k k' : κ) (v : α) (l : List (κ × α)) :
    ((insertEntry k v l).find? (fun e => e.1 = k')).map (·.2) =
      if k = k' then some v else (l.find? (fun e => e.1 = k')).map (·.2) := by
  induction l with
  | nil => by_cases h : k = k' <;> simp [insertEntry, h]
  | cons f rest ih =>
    rw [insertEntry]
    split
    · by_cases h : k = k' <;> simp [List.find?_cons, h]
    next hge =>
      split
      next hlt =>
        by_cases hf : f.1 = k'
        · have : k ≠ k' := fun e => KeyOrder.ne_of_lt hlt (hf.trans e.symm)
          simp [hf, this]
        · simp [hf, ih]
      next hle =>
        have hk : k = f.1 := KeyOrder.eq_of_not_lt hge hle
        by_cases h : k = k'
        · simp [h]
        · have : f.1 ≠ k' := hk ▸ h
          simp [h, this]

theorem get?_insert (m : SortedMap κ α) (k k' : κ) (v : α) :
    (m.insert k v).get? k' = if k = k' then some v else m.get? k' :=
  find?_insertEntry k k' v m.toList

omit [KeyOrder κ] in
theorem find?_filter_ne (l : List (κ × α)) (k k' : κ) :
    ((l.filter (fun e => decide (e.1 ≠ k))).find? (fun e => e.1 = k')).map (·.2) =
      if k = k' then none else (l.find? (fun e => e.1 = k')).map (·.2) := by
  induction l with
  | nil => simp
  | cons f rest ih =>
    by_cases hf : f.1 = k
    · by_cases h : k = k'
      · simp [hf, h]
      · simpa [hf, h] using ih
    · by_cases h : k = k'
      · subst h; simp [hf]
      · by_cases hk : f.1 = k'
        · simp [hk, h, Ne.symm h]
        · simpa [hf, hk, h] using ih

theorem get?_erase (m : SortedMap κ α) (k k' : κ) :
    (m.erase k).get? k' = if k = k' then none else m.get? k' :=
  find?_filter_ne m.toList k k'

end Lemmas

end SortedMap

end SymbolIndex
