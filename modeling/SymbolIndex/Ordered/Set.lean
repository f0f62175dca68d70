import SymbolIndex.Ordered.Map

/-!
# Ordered.Set — finite sets listed in order

A `SortedSet` is the strictly ascending list of its members. Its operations are described by
membership in that list: `mem_insert`, `mem_erase`, `mem_union`.
-/

namespace SymbolIndex

/-- Members in strictly ascending order. -/
structure SortedSet (κ : Type) [KeyOrder κ] where
  toList : List κ
  ascending : toList.Pairwise (· < ·)

namespace SortedSet

variable {κ : Type} [KeyOrder κ]

theorem ext {s t : SortedSet κ} (h : s.toList = t.toList) : s = t := by
  cases s; cases t; cases h; rfl

instance [DecidableEq κ] : DecidableEq (SortedSet κ) := fun s t =>
  decidable_of_iff (s.toList = t.toList) ⟨ext, fun h => h ▸ rfl⟩

/-- No members. -/
def empty : SortedSet κ := ⟨[], .nil⟩

instance : Inhabited (SortedSet κ) := ⟨empty⟩

/-- Put `k` before the first greater member, in place of an equal one. -/
def insertMember (k : κ) : List κ → List κ
  | [] => [k]
  | m :: rest =>
    if k < m then k :: m :: rest
    else if m < k then m :: insertMember k rest
    else k :: rest

theorem mem_insertMember {k m : κ} {l : List κ} :
    m ∈ insertMember k l ↔ m = k ∨ m ∈ l := by
  induction l with
  | nil => simp [insertMember]
  | cons f rest ih =>
    rw [insertMember]
    split
    · simp
    next hge =>
      split
      · simp only [List.mem_cons, ih]; grind
      next hle =>
        have hk : k = f := KeyOrder.eq_of_not_lt hge hle
        simp [hk]

theorem ascending_insertMember (k : κ) {l : List κ} (h : l.Pairwise (· < ·)) :
    (insertMember k l).Pairwise (· < ·) := by
  induction l with
  | nil => simp [insertMember]
  | cons f rest ih =>
    have hf := List.pairwise_cons.1 h
    rw [insertMember]
    split
    next hlt =>
      refine List.pairwise_cons.2 ⟨fun m hm => ?_, h⟩
      rcases List.mem_cons.1 hm with rfl | hm
      · exact hlt
      · exact KeyOrder.trans hlt (hf.1 m hm)
    next hge =>
      split
      next hlt =>
        refine List.pairwise_cons.2 ⟨fun m hm => ?_, ih hf.2⟩
        rcases mem_insertMember.1 hm with rfl | hm
        · exact hlt
        · exact hf.1 m hm
      next hle =>
        have hk : k = f := KeyOrder.eq_of_not_lt hge hle
        exact List.pairwise_cons.2 ⟨fun m hm => hk ▸ hf.1 m hm, hf.2⟩

/-- The set with `k`. -/
def insert (s : SortedSet κ) (k : κ) : SortedSet κ :=
  ⟨insertMember k s.toList, ascending_insertMember k s.ascending⟩

/-- Keep the members that satisfy `p`. -/
def filter (p : κ → Bool) (s : SortedSet κ) : SortedSet κ :=
  ⟨s.toList.filter p, s.ascending.filter _⟩

/-- The set without `k`. -/
def erase [DecidableEq κ] (s : SortedSet κ) (k : κ) : SortedSet κ :=
  s.filter (· ≠ k)

/-- Whether `k` is a member. -/
def contains [DecidableEq κ] (s : SortedSet κ) (k : κ) : Bool :=
  s.toList.contains k

/-- The members of either set. -/
def union (s t : SortedSet κ) : SortedSet κ :=
  t.toList.foldl insert s

/-- The set of a list's members. -/
def ofList (members : List κ) : SortedSet κ :=
  members.foldl insert empty

instance : Membership κ (SortedSet κ) := ⟨fun s k => k ∈ s.toList⟩

theorem mem_toList {s : SortedSet κ} {k : κ} : k ∈ s.toList ↔ k ∈ s := Iff.rfl

@[simp] theorem not_mem_empty (k : κ) : ¬ k ∈ (empty : SortedSet κ) := List.not_mem_nil

@[simp] theorem mem_insert {s : SortedSet κ} {k m : κ} : m ∈ s.insert k ↔ m = k ∨ m ∈ s :=
  mem_insertMember

@[simp] theorem mem_filter {s : SortedSet κ} {p : κ → Bool} {m : κ} :
    m ∈ s.filter p ↔ m ∈ s ∧ p m = true :=
  List.mem_filter

@[simp] theorem mem_erase [DecidableEq κ] {s : SortedSet κ} {k m : κ} :
    m ∈ s.erase k ↔ m ∈ s ∧ m ≠ k := by
  simp [erase]

theorem mem_foldl_insert {l : List κ} {s : SortedSet κ} {m : κ} :
    m ∈ l.foldl insert s ↔ m ∈ s ∨ m ∈ l := by
  induction l generalizing s with
  | nil => simp
  | cons k rest ih => simp only [List.foldl_cons, ih, mem_insert, List.mem_cons]; grind

@[simp] theorem mem_union {s t : SortedSet κ} {m : κ} : m ∈ s.union t ↔ m ∈ s ∨ m ∈ t :=
  mem_foldl_insert

@[simp] theorem mem_ofList {l : List κ} {m : κ} : m ∈ ofList l ↔ m ∈ l := by
  simp [ofList, mem_foldl_insert]

end SortedSet

end SymbolIndex
