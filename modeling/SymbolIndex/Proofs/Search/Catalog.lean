import Mathlib.Data.List.Nodup
import SymbolIndex.Search.Criteria

/-!
# Proofs.Search.Catalog — what a search index stands for

A catalog is a finite map from keys to entries that remembers in which order the keys came. An entry
that is put under a key that is there stays in its place; a key that was removed comes last when it
comes again. Every operation takes effect at once.

* `Catalog.get?_put`, `Catalog.get?_filter` — each operation through lookup;
* `Catalog.mem_iff` — the entries are the values of lookup;
* `Catalog.filter_put` — a filter on keys can be put off.
-/

set_option autoImplicit false

namespace SymbolIndex

/-- Entries under keys of their own, in the order in which the keys came. -/
structure Catalog where
  entries : List SearchEntry
  distinct : (entries.map SearchEntry.key).Nodup

namespace Catalog

/-- An entry takes the place of the entry of its key, or comes last. -/
def place (e : SearchEntry) : List SearchEntry → List SearchEntry
  | [] => [e]
  | f :: rest => if f.key = e.key then e :: rest else f :: place e rest

theorem keys_place (e : SearchEntry) (l : List SearchEntry) :
    (place e l).map SearchEntry.key =
      if e.key ∈ l.map SearchEntry.key then l.map SearchEntry.key
      else l.map SearchEntry.key ++ [e.key] := by
  induction l with
  | nil => rfl
  | cons f l ih =>
      rw [place]
      by_cases same : f.key = e.key
      · rw [if_pos same, if_pos (by rw [← same]; exact List.mem_cons_self), List.map_cons,
          List.map_cons, same]
      · rw [if_neg same, List.map_cons, List.map_cons, ih]
        by_cases inside : e.key ∈ l.map SearchEntry.key
        · rw [if_pos inside, if_pos (List.mem_cons_of_mem _ inside)]
        · rw [if_neg inside, if_neg, List.cons_append]
          intro member
          rcases List.mem_cons.1 member with first | later
          · exact same first.symm
          · exact inside later

theorem nodup_place (e : SearchEntry) {l : List SearchEntry}
    (distinct : (l.map SearchEntry.key).Nodup) : ((place e l).map SearchEntry.key).Nodup := by
  rw [keys_place]
  split
  · exact distinct
  next new =>
    rw [List.nodup_append']
    refine ⟨distinct, List.nodup_singleton _, ?_⟩
    intro key member last
    rw [List.mem_singleton.1 last] at member
    exact new member

/-- No entries. -/
def empty : Catalog := ⟨[], List.nodup_nil⟩

/-- Put an entry under its key. -/
def put (c : Catalog) (e : SearchEntry) : Catalog := ⟨place e c.entries, nodup_place e c.distinct⟩

/-- Keep the entries that satisfy `p`. -/
def filter (c : Catalog) (p : SearchEntry → Bool) : Catalog :=
  ⟨c.entries.filter p, c.distinct.sublist (List.filter_sublist.map _)⟩

/-- Put the entry of a record, if it has one. -/
def write (c : Catalog) (r : Record) : Catalog :=
  match SearchEntry.ofRecord? r with
  | some e => c.put e
  | none => c

/-- Remove the entry of a key, if it has this class type. -/
def drop (c : Catalog) (key : RecordKey) (classType : Option ClassType) : Catalog :=
  c.filter fun e => !(decide (e.key = key) && decide (e.classType = classType))

/-- Remove the entry of a record, if it has the class type of the record. -/
def remove (c : Catalog) (r : Record) : Catalog := c.drop r.key r.classType?

/-- Remove the entries of classes. -/
def reset (c : Catalog) : Catalog := c.filter (·.recordType != .klass)

/-- The entry of a key. -/
def get? (c : Catalog) (key : RecordKey) : Option SearchEntry := c.entries.find? (·.key = key)

variable {c : Catalog} {e : SearchEntry} {key : RecordKey}

theorem ext {c c' : Catalog} (same : c.entries = c'.entries) : c = c' := by
  cases c
  cases c'
  cases same
  rfl

/-! ## Lookup -/

theorem key_of_get? (found : c.get? key = some e) : e.key = key := by
  have hit := List.find?_some found
  exact of_decide_eq_true hit

theorem mem_of_get? (found : c.get? key = some e) : e ∈ c.entries := List.mem_of_find?_eq_some found

/-- The entries are the values of lookup. -/
theorem mem_iff : e ∈ c.entries ↔ c.get? e.key = some e := by
  constructor
  · intro member
    cases found : c.get? e.key with
    | none =>
        have missed := List.find?_eq_none.1 found e member
        exact absurd (decide_eq_true rfl) missed
    | some f =>
        have same : f.key = e.key := key_of_get? found
        rw [List.inj_on_of_nodup_map c.distinct (mem_of_get? found) member same]
  · exact mem_of_get?

theorem get?_eq_some : c.get? key = some e ↔ e ∈ c.entries ∧ e.key = key := by
  constructor
  · exact fun found => ⟨mem_of_get? found, key_of_get? found⟩
  · rintro ⟨member, rfl⟩
    exact mem_iff.1 member

@[simp] theorem get?_empty (key : RecordKey) : empty.get? key = none := rfl

theorem get?_put (c : Catalog) (e : SearchEntry) (key : RecordKey) :
    (c.put e).get? key = if e.key = key then some e else c.get? key := by
  have placed : ∀ l : List SearchEntry, (place e l).find? (fun f => decide (f.key = key)) =
      if e.key = key then some e else l.find? (fun f => decide (f.key = key)) := by
    intro l
    induction l with
    | nil =>
        rw [place, List.find?_cons, List.find?_nil]
        by_cases hit : e.key = key
        · simp only [hit, decide_true, if_true]
        · simp only [hit, decide_false, if_false]
    | cons f l ih =>
        rw [place]
        by_cases same : f.key = e.key
        · rw [if_pos same, List.find?_cons, List.find?_cons, same]
          by_cases hit : e.key = key
          · simp only [hit, decide_true, if_true]
          · simp only [hit, decide_false, if_false]
        · rw [if_neg same, List.find?_cons, List.find?_cons, ih]
          by_cases hit : f.key = key
          · have other : ¬ e.key = key := fun hit' => same (hit.trans hit'.symm)
            simp only [hit, decide_true, other, if_false]
          · simp only [hit, decide_false]
  exact placed c.entries

theorem get?_filter (c : Catalog) (p : SearchEntry → Bool) (key : RecordKey) :
    (c.filter p).get? key = (c.get? key).filter p := by
  ext e
  rw [get?_eq_some, Option.filter_eq_some_iff, get?_eq_some]
  show e ∈ c.entries.filter p ∧ e.key = key ↔ _
  rw [List.mem_filter]
  constructor
  · rintro ⟨⟨member, kept⟩, same⟩
    exact ⟨⟨member, same⟩, kept⟩
  · rintro ⟨⟨member, same⟩, kept⟩
    exact ⟨⟨member, kept⟩, same⟩

/-! ## Filters -/

/-- A filter that looks at keys alone can be put off until an entry is put, unless the entry itself
is filtered out. -/
theorem filter_put (c : Catalog) (e : SearchEntry) {p : SearchEntry → Bool}
    (by_key : ∀ f g : SearchEntry, f.key = g.key → p f = p g) :
    (c.put e).filter p = if p e then (c.filter p).put e else c.filter p := by
  have placed : ∀ l : List SearchEntry, (place e l).filter p =
      if p e then place e (l.filter p) else l.filter p := by
    intro l
    induction l with
    | nil =>
        rw [place, List.filter_cons, List.filter_nil]
        split <;> rfl
    | cons f l ih =>
        rw [place]
        by_cases same : f.key = e.key
        · rw [if_pos same, List.filter_cons, List.filter_cons, by_key f e same]
          by_cases kept : p e = true
          · rw [if_pos kept, if_pos kept, if_pos kept, place, if_pos same]
          · rw [if_neg kept, if_neg kept, if_neg kept]
        · rw [if_neg same, List.filter_cons, List.filter_cons, ih]
          by_cases kept : p e = true
          · rw [if_pos kept, if_pos kept]
            by_cases there : p f = true
            · rw [if_pos there, if_pos there, place, if_neg same]
            · rw [if_neg there, if_neg there]
          · rw [if_neg kept, if_neg kept]
  by_cases kept : p e = true
  · rw [if_pos kept]
    exact ext ((placed c.entries).trans (if_pos kept))
  · rw [if_neg kept]
    exact ext ((placed c.entries).trans (if_neg kept))

/-- What is put in with a filter afterwards is what passes the filter, put in after it. -/
theorem filter_foldl_put (l : List SearchEntry) (c : Catalog) {p : SearchEntry → Bool}
    (by_key : ∀ f g : SearchEntry, f.key = g.key → p f = p g) :
    (l.foldl put c).filter p = (l.filter p).foldl put (c.filter p) := by
  induction l generalizing c with
  | nil => rfl
  | cons e l ih =>
      rw [List.foldl_cons, ih, filter_put c e by_key, List.filter_cons]
      by_cases kept : p e = true
      · rw [if_pos kept, if_pos kept, List.foldl_cons]
      · rw [if_neg kept, if_neg kept]

/-! ## Identifiers -/

/-- No identifier has a NUL. -/
def Readable (c : Catalog) : Prop := ∀ e ∈ c.entries, '\x00' ∉ e.identifier.toList

theorem readable_empty : empty.Readable := fun _ member => absurd member List.not_mem_nil

theorem Readable.put (readable : c.Readable) (clean : '\x00' ∉ e.identifier.toList) :
    (c.put e).Readable := by
  intro f member
  rw [mem_iff, get?_put] at member
  split at member
  · cases member
    exact clean
  · exact readable f (mem_iff.2 member)

theorem Readable.filter (readable : c.Readable) (p : SearchEntry → Bool) : (c.filter p).Readable :=
  fun e member => readable e (List.mem_filter.1 member).1

end Catalog

end SymbolIndex
