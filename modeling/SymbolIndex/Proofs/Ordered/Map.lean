import Mathlib.Data.List.Nodup
import SymbolIndex.Ordered.Map

/-!
# Proofs.Ordered.Map — a map is what it answers

A sorted map is determined by `get?` (`ext_get?`), its list of entries is the graph of `get?`
(`mem_toList`), and each key stands in that list once (`nodup_keys`). With these, an equation between
maps is an equation between answers.
-/

namespace SymbolIndex.SortedMap

set_option autoImplicit false

variable {κ α : Type} [KeyOrder κ]

theorem nodup_keys (m : SortedMap κ α) : (m.toList.map (·.1)).Nodup := by
  rw [List.nodup_iff_pairwise_ne, List.pairwise_map]
  exact m.ascending.imp fun less => KeyOrder.ne_of_lt less

/-- Two maps that list the same entries are the same, in whatever order they were filled. -/
theorem ext_mem {m n : SortedMap κ α} (same : ∀ e, e ∈ m.toList ↔ e ∈ n.toList) : m = n := by
  have perm : m.toList.Perm n.toList := by
    refine (List.perm_ext_iff_of_nodup ?_ ?_).2 same
    · exact List.Nodup.of_map _ m.nodup_keys
    · exact List.Nodup.of_map _ n.nodup_keys
  refine ext (perm.eq_of_pairwise ?_ m.ascending n.ascending)
  intro a b _ _ less greater
  exact absurd greater (KeyOrder.asymm less)

variable [DecidableEq κ]

theorem mem_toList {m : SortedMap κ α} {k : κ} {v : α} :
    (k, v) ∈ m.toList ↔ m.get? k = some v := by
  have unique := m.nodup_keys
  rw [get?, Option.map_eq_some_iff]
  constructor
  · intro member
    cases found : m.toList.find? (fun e => e.1 = k) with
    | none => simpa using List.find?_eq_none.1 found _ member
    | some e =>
        have same : e.1 = k := by simpa using List.find?_some found
        have entry : e = (k, v) :=
          List.inj_on_of_nodup_map unique (List.mem_of_find?_eq_some found) member same
        exact ⟨e, rfl, by rw [entry]⟩
  · rintro ⟨e, found, rfl⟩
    have same : e.1 = k := by simpa using List.find?_some found
    exact same ▸ List.mem_of_find?_eq_some found

theorem ext_get? {m n : SortedMap κ α} (same : ∀ k, m.get? k = n.get? k) : m = n :=
  ext_mem fun e => by rw [show e = (e.1, e.2) from rfl, mem_toList, mem_toList, same]

theorem mem_values {m : SortedMap κ α} {v : α} : v ∈ m.values ↔ ∃ k, m.get? k = some v := by
  rw [values, List.mem_map]
  constructor
  · rintro ⟨e, member, rfl⟩
    exact ⟨e.1, mem_toList.1 member⟩
  · rintro ⟨k, found⟩
    exact ⟨(k, v), mem_toList.2 found, rfl⟩

theorem get?_filter (m : SortedMap κ α) (p : κ → α → Bool) (k : κ) :
    (m.filter p).get? k = (m.get? k).filter (p k) := by
  ext v
  rw [← mem_toList, Option.filter_eq_some_iff, ← mem_toList]
  exact List.mem_filter

theorem get?_insert_self (m : SortedMap κ α) (k : κ) (v : α) : (m.insert k v).get? k = some v := by
  rw [get?_insert, if_pos rfl]

theorem get?_insert_of_ne (m : SortedMap κ α) {k k' : κ} (v : α) (different : k ≠ k') :
    (m.insert k v).get? k' = m.get? k' := by
  rw [get?_insert, if_neg different]

theorem get?_erase_self (m : SortedMap κ α) (k : κ) : (m.erase k).get? k = none := by
  rw [get?_erase, if_pos rfl]

theorem get?_erase_of_ne (m : SortedMap κ α) {k k' : κ} (different : k ≠ k') :
    (m.erase k).get? k' = m.get? k' := by
  rw [get?_erase, if_neg different]

/-- Values under keys of their own are each there once. -/
theorem nodup_values {m : SortedMap κ α} {keyOf : α → κ}
    (keyed : ∀ k v, m.get? k = some v → keyOf v = k) : (m.values.map keyOf).Nodup := by
  have same : m.values.map keyOf = m.toList.map (·.1) := by
    rw [values, List.map_map]
    refine List.map_congr_left fun e member => ?_
    exact keyed e.1 e.2 (mem_toList.1 member)
  rw [same]
  exact m.nodup_keys

/-- Entries put into a map one after the other, by keys of their own. -/
theorem get?_foldl_insert {keyOf : α → κ} {l : List α} (distinct : (l.map keyOf).Nodup)
    (m : SortedMap κ α) (k : κ) :
    (l.foldl (fun m v => m.insert (keyOf v) v) m).get? k =
      ((l.find? (fun v => keyOf v = k)).or (m.get? k)) := by
  induction l generalizing m with
  | nil => rfl
  | cons v l ih =>
      obtain ⟨fresh, distinct⟩ := List.nodup_cons.1 distinct
      rw [List.foldl_cons, ih distinct, List.find?_cons]
      by_cases same : keyOf v = k
      · have absent : l.find? (fun v => keyOf v = k) = none := by
          rw [List.find?_eq_none]
          intro u member equal
          refine fresh (List.mem_map.2 ⟨u, member, ?_⟩)
          rw [same]
          simpa using equal
        simp [same, absent, get?_insert_self]
      · simp [same, get?_insert_of_ne]

/-- Entries put into a map one after the other: of those with one key the last stands. -/
theorem get?_foldl_insert_last {keyOf : α → κ} (l : List α) (m : SortedMap κ α) (k : κ) :
    (l.foldl (fun m v => m.insert (keyOf v) v) m).get? k =
      (l.filter (fun v => keyOf v = k)).getLast?.or (m.get? k) := by
  induction l generalizing m with
  | nil => rfl
  | cons v l ih =>
      rw [List.foldl_cons, ih, List.filter_cons]
      by_cases same : keyOf v = k
      · subst same
        rw [get?_insert_self, if_pos (decide_eq_true rfl), List.getLast?_cons]
        cases (l.filter fun u => keyOf u = keyOf v).getLast? <;> rfl
      · rw [get?_insert_of_ne _ _ same, if_neg (by simpa using same)]

theorem find?_values {m : SortedMap κ α} {keyOf : α → κ}
    (keyed : ∀ k v, m.get? k = some v → keyOf v = k) (k : κ) :
    m.values.find? (fun v => keyOf v = k) = m.get? k := by
  ext v
  constructor
  · intro found
    obtain ⟨k', there⟩ := mem_values.1 (List.mem_of_find?_eq_some found)
    have same : keyOf v = k := by simpa using List.find?_some found
    rw [← same, keyed k' v there]
    exact there
  · intro there
    cases found : m.values.find? (fun v => keyOf v = k) with
    | none =>
        have missed := List.find?_eq_none.1 found v (mem_values.2 ⟨k, there⟩)
        exact absurd (keyed k v there) (by simpa using missed)
    | some u =>
        obtain ⟨k', other⟩ := mem_values.1 (List.mem_of_find?_eq_some found)
        have same : keyOf u = k := by simpa using List.find?_some found
        rw [keyed k' u other] at same
        rw [← same, other] at there
        exact there

/-! ## Sizes -/

omit [DecidableEq κ] in
theorem size_insert_le (m : SortedMap κ α) (k : κ) (v : α) : (m.insert k v).size ≤ m.size + 1 := by
  have entries : ∀ l : List (κ × α), (insertEntry k v l).length ≤ l.length + 1 := by
    intro l
    induction l with
    | nil => simp [insertEntry]
    | cons e l ih =>
        rw [insertEntry]
        split
        · simp
        · split
          · simpa using ih
          · simp
  exact entries m.toList

theorem size_erase_le (m : SortedMap κ α) (k : κ) : (m.erase k).size ≤ m.size :=
  List.length_filter_le _ _

omit [DecidableEq κ] in
theorem isEmpty_iff {m : SortedMap κ α} : m.isEmpty = true ↔ m = empty := by
  rw [isEmpty, List.isEmpty_iff]
  exact ⟨fun none_ => ext none_, fun same => same ▸ rfl⟩

end SymbolIndex.SortedMap
