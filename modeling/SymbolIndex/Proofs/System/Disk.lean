import Mathlib.Data.List.Nodup
import SymbolIndex.System.Disk

/-!
# Proofs.System.Disk — a disk by its nodes

`node?` is all there is to know of a disk. Each change is described by what it does to `node?`
(`node?_put`, `node?_drop`, `node?_append`, `node?_move`), and a disk on which addresses form a tree
and files have numbers of their own (`Sound`) stays one under each of them.
-/

namespace SymbolIndex

open SymbolIndex.Text (Bytes)

set_option autoImplicit false

namespace Disk

/-! ## Addresses -/

theorem isUnder_iff {here base : Address} : isUnder here base = true ↔ ∃ names, here = names ++ base := by
  rw [isUnder, List.isSuffixOf_iff_suffix]
  constructor
  · rintro ⟨names, rfl⟩
    exact ⟨names, rfl⟩
  · rintro ⟨names, rfl⟩
    exact ⟨names, rfl⟩

theorem isUnder_self (here : Address) : isUnder here here = true := isUnder_iff.2 ⟨[], rfl⟩

/-- Whether an address lies below another, and is not that address itself. -/
def Below (base here : Address) : Prop := ∃ names, names ≠ [] ∧ here = names ++ base

theorem Below.ne {base here : Address} (below : Below base here) : here ≠ base := by
  obtain ⟨names, some_, rfl⟩ := below
  exact fun same => some_ (by simpa using same)

theorem below_cons (name : Name) (base : Address) : Below base (name :: base) :=
  ⟨[name], by simp, rfl⟩

theorem Below.trans {base here there : Address} (first : Below base here)
    (second : Below here there) : Below base there := by
  obtain ⟨names, some_, rfl⟩ := first
  obtain ⟨more, -, rfl⟩ := second
  exact ⟨more ++ names, by simp [some_], by simp⟩

theorem Below.ne_nil {base here : Address} (below : Below base here) : here ≠ [] := by
  obtain ⟨names, some_, rfl⟩ := below
  simp [some_]

/-! ## What each change does -/

theorem node?_nil (d : Disk) : d.node? [] = some (.directory 0) := rfl

theorem node?_of_ne {d : Disk} {here : Address} (proper : here ≠ []) :
    d.node? here = (d.nodes.find? (fun e => e.1 == here)).map (·.2) := by
  cases here with
  | nil => exact absurd rfl proper
  | cons name here => rfl

theorem find?_filter_same {α : Type} (l : List α) (p q : α → Bool) (implied : ∀ a, p a → q a) :
    (l.filter q).find? p = l.find? p := by
  rw [List.find?_filter]
  congr 1
  funext a
  by_cases holds : p a
  · simp [holds, implied a holds]
  · simp [holds]

theorem node?_put {d : Disk} {here : Address} (proper : here ≠ []) (node : Node) (a : Address) :
    (d.put here node).node? a = if a = here then some node else d.node? a := by
  by_cases top : a = []
  · subst top
    rw [if_neg (Ne.symm proper)]
    rfl
  · rw [node?_of_ne top, node?_of_ne top, put, List.find?_cons]
    by_cases same : a = here
    · subst same
      simp
    · have other : (here == a) = false := beq_eq_false_iff_ne.2 (Ne.symm same)
      rw [other, if_neg same]
      rw [find?_filter_same _ _ _ fun e holds => ?_]
      rw [beq_iff_eq] at holds
      simp [holds, same]

theorem node?_drop {d : Disk} {here : Address} (proper : here ≠ []) (a : Address) :
    (d.drop here).node? a = if isUnder a here then none else d.node? a := by
  by_cases top : a = []
  · subst top
    have outside : isUnder [] here = false := by
      rw [Bool.eq_false_iff, Ne, isUnder_iff]
      rintro ⟨names, same⟩
      exact proper (List.append_eq_nil_iff.1 same.symm).2
    rw [outside]
    rfl
  · rw [node?_of_ne top, node?_of_ne top, drop]
    by_cases under : isUnder a here
    · have gone : (d.nodes.filter (fun e => !isUnder e.1 here)).find? (fun e => e.1 == a) = none := by
        rw [List.find?_eq_none]
        intro e member same
        rw [beq_iff_eq] at same
        have outside := (List.mem_filter.1 member).2
        rw [same, under] at outside
        exact absurd outside (by decide)
      rw [gone, if_pos under]
      rfl
    · rw [if_neg under, find?_filter_same _ _ _ fun e holds => ?_]
      rw [beq_iff_eq] at holds
      simp [holds, under]

theorem find?_map_node (f : Node → Node) (l : List (Address × Node)) (a : Address) :
    (l.map (fun e => (e.1, f e.2))).find? (fun e => e.1 == a) =
      (l.find? (fun e => e.1 == a)).map (fun e => (e.1, f e.2)) := by
  induction l with
  | nil => rfl
  | cons e l ih =>
      rw [List.map_cons, List.find?_cons, List.find?_cons, ih]
      cases e.1 == a <;> rfl

theorem node?_append (d : Disk) (now : Int) (id : Nat) (bytes : Bytes) (a : Address) :
    (d.append now id bytes).node? a = (d.node? a).map (Node.append id bytes now) := by
  by_cases top : a = []
  · subst top
    rfl
  · rw [node?_of_ne top, node?_of_ne top, append, find?_map_node]
    simp [Function.comp_def]

/-! ## Sound disks -/

/-- The addresses of a disk form a tree, and each file has a number that is its own and was given
out. -/
structure Sound (d : Disk) : Prop where
  distinct : (d.nodes.map (·.1)).Nodup
  rooted : ∀ e ∈ d.nodes, e.1 ≠ []
  upward : ∀ {name : Name} {here : Address} {node : Node}, d.node? (name :: here) = some node →
    ∃ m, d.node? here = some (.directory m)
  identified : ∀ {a b : Address} {id : Nat} {c c' : Bytes} {m m' : Int},
    d.node? a = some (.file id c m) → d.node? b = some (.file id c' m') → a = b
  numbered : ∀ {a : Address} {id : Nat} {c : Bytes} {m : Int},
    d.node? a = some (.file id c m) → id < d.nextId

namespace Sound

variable {d : Disk}

theorem mem_nodes (sound : d.Sound) {a : Address} {node : Node} :
    (a, node) ∈ d.nodes ↔ a ≠ [] ∧ d.node? a = some node := by
  constructor
  · intro member
    have proper := sound.rooted _ member
    refine ⟨proper, ?_⟩
    rw [node?_of_ne proper]
    cases found : d.nodes.find? (fun e => e.1 == a) with
    | none => simpa using List.find?_eq_none.1 found _ member
    | some e =>
        have same : e.1 = a := by simpa using List.find?_some found
        have entry : e = (a, node) :=
          List.inj_on_of_nodup_map sound.distinct (List.mem_of_find?_eq_some found) member same
        rw [entry]
        rfl
  · rintro ⟨proper, there⟩
    rw [node?_of_ne proper, Option.map_eq_some_iff] at there
    obtain ⟨e, found, rfl⟩ := there
    have same : e.1 = a := by simpa using List.find?_some found
    exact same ▸ List.mem_of_find?_eq_some found

/-- Whatever has a node below it is a directory. -/
theorem ancestor (sound : d.Sound) {here there : Address} {node : Node} (below : Below here there)
    (occupied : d.node? there = some node) : ∃ m, d.node? here = some (.directory m) := by
  obtain ⟨names, some_, rfl⟩ := below
  induction names generalizing node with
  | nil => exact absurd rfl some_
  | cons name names ih =>
      obtain ⟨m, parent⟩ := sound.upward occupied
      cases names with
      | nil => exact ⟨m, parent⟩
      | cons next names => exact ih (by simp) parent

/-- There is nothing below what is no directory. -/
theorem nothing_below (sound : d.Sound) {here there : Address} (below : Below here there)
    (leaf : ∀ m, d.node? here ≠ some (.directory m)) : d.node? there = none := by
  cases occupied : d.node? there with
  | none => rfl
  | some node =>
      obtain ⟨m, directory⟩ := sound.ancestor below occupied
      exact absurd directory (leaf m)

end Sound

theorem node?_move {d : Disk} (sound : d.Sound) {source target : Address} {id : Nat} {c : Bytes}
    {m : Int} (there : d.node? source = some (.file id c m)) (proper : target ≠ [])
    (different : source ≠ target) (leaf : ∀ m, d.node? target ≠ some (.directory m)) (a : Address) :
    (d.move source target).node? a =
      if a = target then some (.file id c m) else if a = source then none else d.node? a := by
  have sourceProper : source ≠ [] := by
    rintro rfl
    rw [node?_nil] at there
    cases there
  have sourceLeaf : ∀ m, d.node? source ≠ some (.directory m) := by
    intro m
    rw [there]
    simp
  -- Nothing lies below either address, so the dropped nodes are those two at most.
  have dropped : ((d.drop source).drop target).node? a =
      if a = target ∨ a = source then none else d.node? a := by
    rw [node?_drop proper, node?_drop sourceProper]
    by_cases underTarget : isUnder a target
    · obtain ⟨names, rfl⟩ := isUnder_iff.1 underTarget
      rw [if_pos underTarget]
      cases names with
      | nil => simp
      | cons name names =>
          have empty := sound.nothing_below ⟨name :: names, by simp, rfl⟩ leaf
          rw [empty, ite_self]
    · have notTarget : a ≠ target := by
        rintro rfl
        exact underTarget (isUnder_self _)
      rw [if_neg underTarget]
      by_cases underSource : isUnder a source
      · obtain ⟨names, rfl⟩ := isUnder_iff.1 underSource
        rw [if_pos underSource]
        cases names with
        | nil => simp
        | cons name names =>
            have empty := sound.nothing_below ⟨name :: names, by simp, rfl⟩ sourceLeaf
            rw [empty, ite_self]
      · have notSource : a ≠ source := by
          rintro rfl
          exact underSource (isUnder_self _)
        rw [if_neg underSource, if_neg (by simp [notTarget, notSource])]
  have moved : (d.nodes.filter (fun e => isUnder e.1 source)).map
      (fun e => (e.1.take (e.1.length - source.length) ++ target, e.2)) =
        [(target, Node.file id c m)] := by
    have only : d.nodes.filter (fun e => isUnder e.1 source) = [(source, Node.file id c m)] := by
      have member : (source, Node.file id c m) ∈ d.nodes := sound.mem_nodes.2 ⟨sourceProper, there⟩
      refine List.perm_singleton.1 ((List.perm_ext_iff_of_nodup ?_ ?_).2 fun e => ?_)
      · exact (List.Nodup.of_map _ sound.distinct).filter _
      · simp
      rw [List.mem_filter, List.mem_singleton]
      constructor
      · rintro ⟨listed, under⟩
        obtain ⟨names, same⟩ := isUnder_iff.1 under
        obtain ⟨-, occupied⟩ := sound.mem_nodes.1 (show (e.1, e.2) ∈ d.nodes from listed)
        cases names with
        | nil =>
            rw [same, List.nil_append, there, Option.some.injEq] at occupied
            exact Prod.ext same occupied.symm
        | cons name names =>
            rw [same, sound.nothing_below ⟨name :: names, by simp, rfl⟩ sourceLeaf] at occupied
            cases occupied
      · rintro rfl
        exact ⟨member, isUnder_self _⟩
    rw [only]
    simp
  by_cases top : a = []
  · subst top
    rw [if_neg (Ne.symm proper), if_neg (Ne.symm sourceProper)]
    rfl
  · rw [node?_of_ne top, move, moved]
    rw [node?_of_ne top] at dropped
    simp only [List.singleton_append, List.find?_cons]
    by_cases same : a = target
    · subst same
      simp
    · rw [beq_eq_false_iff_ne.2 (Ne.symm same), if_neg same, dropped]
      simp [same]

/-! ## Every change keeps a disk sound -/

namespace Sound

variable {d : Disk}

theorem distinct_put (sound : d.Sound) (here : Address) (node : Node) :
    ((d.put here node).nodes.map (·.1)).Nodup := by
  rw [put, List.map_cons, List.nodup_cons]
  refine ⟨?_, sound.distinct.sublist (List.filter_sublist.map _)⟩
  rw [List.mem_map]
  rintro ⟨e, member, same⟩
  simpa [same] using (List.mem_filter.1 member).2

theorem rooted_put (sound : d.Sound) {here : Address} (proper : here ≠ []) (node : Node) :
    ∀ e ∈ (d.put here node).nodes, e.1 ≠ [] := by
  intro e member
  rcases List.mem_cons.1 member with rfl | member
  · exact proper
  · exact sound.rooted e (List.mem_filter.1 member).1

theorem put_directory (sound : d.Sound) {name : Name} {here : Address} {now m : Int}
    (vacant : d.node? (name :: here) = none) (parent : d.node? here = some (.directory m)) :
    (d.put (name :: here) (.directory now)).Sound := by
  have effect := node?_put (d := d) (List.cons_ne_nil name here) (.directory now)
  have self : here ≠ name :: here := (below_cons name here).ne.symm
  refine ⟨sound.distinct_put _ _, sound.rooted_put (List.cons_ne_nil _ _) _, ?_, ?_, ?_⟩
  · intro name' here' node occupied
    rw [effect] at occupied
    rw [effect]
    split at occupied
    next same =>
      obtain ⟨-, rfl⟩ := List.cons.inj same
      exact ⟨m, by rw [if_neg self, parent]⟩
    · split
      · exact ⟨now, rfl⟩
      · exact sound.upward occupied
  · intro a b id c c' m m' first second
    rw [effect] at first second
    split at first
    · cases first
    · split at second
      · cases second
      · exact sound.identified first second
  · intro a id c m first
    rw [effect] at first
    split at first
    · cases first
    · exact sound.numbered first

theorem put_file (sound : d.Sound) {name : Name} {here : Address} {c : Bytes} {now m : Int}
    (leaf : ∀ m, d.node? (name :: here) ≠ some (.directory m))
    (parent : d.node? here = some (.directory m)) :
    ({ d.put (name :: here) (.file d.nextId c now) with nextId := d.nextId + 1 } : Disk).Sound := by
  have effect : ∀ a, ({ d.put (name :: here) (.file d.nextId c now) with
      nextId := d.nextId + 1 } : Disk).node? a =
        if a = name :: here then some (.file d.nextId c now) else d.node? a :=
    node?_put (d := d) (List.cons_ne_nil name here) (.file d.nextId c now)
  have self : here ≠ name :: here := (below_cons name here).ne.symm
  refine ⟨sound.distinct_put _ _, sound.rooted_put (List.cons_ne_nil _ _) _, ?_, ?_, ?_⟩
  · intro name' here' node occupied
    rw [effect] at occupied
    rw [effect]
    split at occupied
    next same =>
      obtain ⟨-, rfl⟩ := List.cons.inj same
      exact ⟨m, by rw [if_neg self, parent]⟩
    · obtain ⟨m', directory⟩ := sound.upward occupied
      split
      next same => exact absurd (same ▸ directory) (leaf m')
      · exact ⟨m', directory⟩
  · intro a b id c₁ c₂ m₁ m₂ first second
    rw [effect] at first second
    split at first
    next same =>
      obtain ⟨rfl, -, -⟩ : d.nextId = id ∧ _ ∧ _ := by simpa using first
      split at second
      next same' => rw [same, same']
      · exact absurd (sound.numbered second) (Nat.lt_irrefl _)
    · split at second
      next same =>
        obtain ⟨rfl, -, -⟩ : d.nextId = id ∧ _ ∧ _ := by simpa using second
        exact absurd (sound.numbered first) (Nat.lt_irrefl _)
      · exact sound.identified first second
  · intro a id c₁ m₁ first
    rw [effect] at first
    split at first
    · obtain ⟨rfl, -, -⟩ : d.nextId = id ∧ _ ∧ _ := by simpa using first
      exact Nat.lt_succ_self _
    · exact Nat.lt_succ_of_lt (sound.numbered first)

/-- The file at an address gets another content. -/
theorem rewrite_file (sound : d.Sound) {here : Address} {id : Nat} {c c' : Bytes} {m now : Int}
    (there : d.node? here = some (.file id c m)) : (d.put here (.file id c' now)).Sound := by
  have proper : here ≠ [] := by
    rintro rfl
    rw [node?_nil] at there
    cases there
  have effect := node?_put (d := d) proper (.file id c' now)
  refine ⟨sound.distinct_put _ _, sound.rooted_put proper _, ?_, ?_, ?_⟩
  · intro name' here' node occupied
    rw [effect] at occupied
    have before : ∃ node', d.node? (name' :: here') = some node' := by
      split at occupied
      next same => exact ⟨_, same ▸ there⟩
      · exact ⟨_, occupied⟩
    obtain ⟨_, before⟩ := before
    obtain ⟨m', directory⟩ := sound.upward before
    rw [effect]
    split
    next same => rw [same, there] at directory; cases directory
    · exact ⟨m', directory⟩
  · intro a b id' c₁ c₂ m₁ m₂ first second
    have before : ∀ {a c₁ m₁}, (d.put here (.file id c' now)).node? a = some (.file id' c₁ m₁) →
        ∃ c₂ m₂, d.node? a = some (.file id' c₂ m₂) := by
      intro a c₁ m₁ first
      rw [effect] at first
      split at first
      next same =>
        obtain ⟨rfl, -, -⟩ : id = id' ∧ _ ∧ _ := by simpa using first
        exact ⟨c, m, same ▸ there⟩
      · exact ⟨_, _, first⟩
    obtain ⟨_, _, first⟩ := before first
    obtain ⟨_, _, second⟩ := before second
    exact sound.identified first second
  · intro a id' c₁ m₁ first
    rw [effect] at first
    split at first
    · obtain ⟨rfl, -, -⟩ : id = id' ∧ _ ∧ _ := by simpa using first
      exact sound.numbered there
    · exact sound.numbered first

theorem append_eq_file {n : Node} {id id' : Nat} {bytes c : Bytes} {now m : Int}
    (written : Node.append id bytes now n = .file id' c m) : ∃ c' m', n = .file id' c' m' := by
  cases n with
  | file id₀ c₀ m₀ =>
      rw [Node.append] at written
      split at written
      · obtain ⟨rfl, -, -⟩ := Node.file.inj written
        exact ⟨_, _, rfl⟩
      · exact ⟨_, _, written⟩
  | directory m => cases written
  | link target => cases written

theorem append (sound : d.Sound) (now : Int) (id : Nat) (bytes : Bytes) :
    (d.append now id bytes).Sound := by
  have effect := node?_append d now id bytes
  refine ⟨?_, ?_, ?_, ?_, ?_⟩
  · have same : (d.append now id bytes).nodes.map (·.1) = d.nodes.map (·.1) := by
      simp [Disk.append, Function.comp_def]
    rw [same]
    exact sound.distinct
  · intro e member
    obtain ⟨e', listed, rfl⟩ := List.mem_map.1 member
    exact sound.rooted e' listed
  · intro name here node occupied
    rw [effect, Option.map_eq_some_iff] at occupied
    obtain ⟨node', before, -⟩ := occupied
    obtain ⟨m, directory⟩ := sound.upward before
    exact ⟨m, by rw [effect, directory]; rfl⟩
  · intro a b id' c₁ c₂ m₁ m₂ first second
    rw [effect, Option.map_eq_some_iff] at first second
    obtain ⟨n₁, before₁, written₁⟩ := first
    obtain ⟨n₂, before₂, written₂⟩ := second
    obtain ⟨_, _, rfl⟩ := append_eq_file written₁
    obtain ⟨_, _, rfl⟩ := append_eq_file written₂
    exact sound.identified before₁ before₂
  · intro a id' c₁ m₁ first
    rw [effect, Option.map_eq_some_iff] at first
    obtain ⟨n₁, before₁, written₁⟩ := first
    obtain ⟨_, _, rfl⟩ := append_eq_file written₁
    exact sound.numbered before₁

theorem drop (sound : d.Sound) {here : Address} (proper : here ≠ []) : (d.drop here).Sound := by
  have effect := node?_drop (d := d) proper
  refine ⟨sound.distinct.sublist (List.filter_sublist.map _), ?_, ?_, ?_, ?_⟩
  · intro e member
    exact sound.rooted e (List.mem_filter.1 member).1
  · intro name here' node occupied
    rw [effect] at occupied
    rw [effect]
    split at occupied
    · cases occupied
    next outside =>
      have parentOutside : ¬ isUnder here' here = true := by
        rw [isUnder_iff]
        rintro ⟨names, rfl⟩
        exact outside (isUnder_iff.2 ⟨name :: names, rfl⟩)
      rw [if_neg parentOutside]
      exact sound.upward occupied
  · intro a b id c₁ c₂ m₁ m₂ first second
    rw [effect] at first second
    split at first
    · cases first
    · split at second
      · cases second
      · exact sound.identified first second
  · intro a id c m first
    rw [effect] at first
    split at first
    · cases first
    · exact sound.numbered first

theorem move (sound : d.Sound) {source : Address} {name : Name} {here : Address} {id : Nat}
    {c : Bytes} {m m' : Int} (there : d.node? source = some (.file id c m))
    (different : source ≠ name :: here)
    (leaf : ∀ m, d.node? (name :: here) ≠ some (.directory m))
    (parent : d.node? here = some (.directory m')) : (d.move source (name :: here)).Sound := by
  have effect := node?_move sound there (List.cons_ne_nil name here) different leaf
  have fileBefore : ∀ {a id' c₁ m₁}, (d.move source (name :: here)).node? a =
      some (.file id' c₁ m₁) → (a = name :: here ∧ d.node? source = some (.file id' c₁ m₁)) ∨
        (a ≠ name :: here ∧ a ≠ source ∧ d.node? a = some (.file id' c₁ m₁)) := by
    intro a id' c₁ m₁ first
    rw [effect] at first
    split at first
    next same => exact .inl ⟨same, by rw [there, first]⟩
    next other =>
      split at first
      · cases first
      next elsewhere => exact .inr ⟨other, elsewhere, first⟩
  have proper : source ≠ [] := by
    rintro rfl
    rw [node?_nil] at there
    cases there
  refine ⟨?_, ?_, ?_, ?_, ?_⟩
  · have rest : (((d.drop source).drop (name :: here)).nodes.map (·.1)).Nodup :=
      ((sound.drop proper).drop (List.cons_ne_nil _ _)).distinct
    rw [Disk.move, List.map_append, List.nodup_append']
    refine ⟨?_, rest, ?_⟩
    · rw [List.map_map]
      refine List.Nodup.map_on ?_ ((List.Nodup.of_map _ sound.distinct).filter _)
      intro e first f second same
      obtain ⟨listed, under⟩ := List.mem_filter.1 first
      obtain ⟨listed', under'⟩ := List.mem_filter.1 second
      obtain ⟨names, split⟩ := isUnder_iff.1 under
      obtain ⟨names', split'⟩ := isUnder_iff.1 under'
      refine List.inj_on_of_nodup_map sound.distinct listed listed' ?_
      simp only [Function.comp_apply, split, split'] at same
      rw [split, split']
      simpa using same
    · intro a first second
      obtain ⟨f, member, rfl⟩ := List.mem_map.1 first
      obtain ⟨e, -, rfl⟩ := List.mem_map.1 member
      obtain ⟨g, member', same⟩ := List.mem_map.1 second
      have outside := (List.mem_filter.1 member').2
      rw [same, isUnder_iff.2 ⟨_, rfl⟩] at outside
      exact absurd outside (by decide)
  · intro e member
    rcases List.mem_append.1 member with member | member
    · obtain ⟨e', -, rfl⟩ := List.mem_map.1 member
      simp
    · exact ((sound.drop proper).drop (List.cons_ne_nil _ _)).rooted e member
  · intro name' here' node occupied
    have before : ∃ m, d.node? here' = some (.directory m) := by
      rw [effect] at occupied
      split at occupied
      next same =>
        obtain ⟨-, rfl⟩ := List.cons.inj same
        exact ⟨m', parent⟩
      · split at occupied
        · cases occupied
        · exact sound.upward occupied
    obtain ⟨m₀, directory⟩ := before
    refine ⟨m₀, ?_⟩
    rw [effect, if_neg, if_neg, directory]
    · rintro rfl
      rw [there] at directory
      cases directory
    · rintro rfl
      exact leaf m₀ directory
  · intro a b id' c₁ c₂ m₁ m₂ first second
    rcases fileBefore first with ⟨rfl, before⟩ | ⟨other, elsewhere, before⟩ <;>
      rcases fileBefore second with ⟨rfl, before'⟩ | ⟨other', elsewhere', before'⟩
    · rfl
    · exact absurd (sound.identified before' before) elsewhere'
    · exact absurd (sound.identified before before') elsewhere
    · exact sound.identified before before'
  · intro a id' c₁ m₁ first
    rcases fileBefore first with ⟨-, before⟩ | ⟨-, -, before⟩
    · exact sound.numbered before
    · exact sound.numbered before

end Sound

end Disk

end SymbolIndex
