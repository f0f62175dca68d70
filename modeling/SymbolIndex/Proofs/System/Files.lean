import SymbolIndex.Proofs.System.Paths

/-!
# Proofs.System.Files — operations below a hosting directory

Below a directory that hosts an index, each operation of the disk succeeds where it should and changes
the nodes at its own addresses only. Every statement gives the new disk, says that it hosts the index
again, and gives all its nodes in terms of the nodes before.
-/

namespace SymbolIndex

open SymbolIndex.Text (Bytes)

set_option autoImplicit false

namespace Disk

/-- What is in the file at an address, nothing if there is none. -/
def contentAt (d : Disk) (here : Address) : Bytes :=
  match d.node? here with
  | some (.file _ c _) => c
  | _ => []

namespace Hosts

variable {d : Disk} {root : Path} {base : Address} {names : List Name} {name : Name} {follow : Bool}
  {now : Int} {m : Int}

/-! ## Looking -/

/-- What is at a path that is not too long is found there. -/
theorem locate_occupied (hosts : d.Hosts root base) (proper : ∀ name ∈ names, name.Proper) (some_ : names ≠ [])
    (short : (root.below names).bytes.length ≤ maxPathLength) {node : Node}
    (occupied : d.node? (addressOf base names) = some node) :
    d.locate follow (root.below names) = .ok (.found (addressOf base names) node) := by
  obtain ⟨front, name, rfl⟩ : ∃ front name, names = front ++ [name] :=
    ⟨_, _, (List.dropLast_append_getLast some_).symm⟩
  obtain ⟨links, descent⟩ := hosts.locate_short proper some_ short
  rw [addressOf_append] at occupied ⊢
  obtain ⟨m, parent⟩ := hosts.sound.upward occupied
  have unlinked : ∀ target, d.node? (name :: addressOf base front) ≠ some (.link target) := by
    intro target
    rw [← addressOf_append]
    exact hosts.unlinked (below_addressOf some_)
  rw [descent, walk_below hosts.sound proper parent unlinked, placeAt, occupied]

theorem locate_some (hosts : d.Hosts root base) (fit : Fit names) {node : Node}
    (occupied : d.node? (addressOf base names) = some node) :
    d.locate follow (root.below names) = .ok (.found (addressOf base names) node) :=
  hosts.locate_occupied fit.proper fit.some_ (hosts.short_below fit) occupied

theorem locate_vacant (hosts : d.Hosts root base) (fit : Fit (names ++ [name]))
    (parent : d.node? (addressOf base names) = some (.directory m))
    (vacant : d.node? (name :: addressOf base names) = none) :
    d.locate follow (root.below (names ++ [name])) = .ok (.vacant (name :: addressOf base names)) := by
  obtain ⟨links, descent⟩ := hosts.locate_below fit
  rw [descent, walk_below hosts.sound fit.proper parent (by simp [vacant]), placeAt, vacant]

theorem find_some (hosts : d.Hosts root base) (fit : Fit names) {node : Node}
    (occupied : d.node? (addressOf base names) = some node) :
    d.find follow (root.below names) = .ok (addressOf base names, node) := by
  rw [find, hosts.locate_some fit occupied]

theorem find_none (hosts : d.Hosts root base) (fit : Fit names)
    (vacant : d.node? (addressOf base names) = none) :
    ∃ e, d.find follow (root.below names) = .error e := by
  obtain ⟨links, descent⟩ := hosts.locate_below fit
  have missed : ∀ here node, d.walk follow false links base names ≠ .ok (.found here node) :=
    walk_ne_found hosts.unlinked fit.proper fit.some_ vacant
  rw [find, descent]
  cases walked : d.walk follow false links base names with
  | error e => exact ⟨e, rfl⟩
  | ok place =>
      cases place with
      | found here node => exact absurd walked (missed here node)
      | vacant here => exact ⟨_, rfl⟩

theorem read_file (hosts : d.Hosts root base) (fit : Fit names) {id : Nat} {c : Bytes}
    (file : d.node? (addressOf base names) = some (.file id c m)) :
    d.read (root.below names) = .ok c := by
  rw [read, hosts.find_some fit file]

theorem read_none (hosts : d.Hosts root base) (fit : Fit names)
    (vacant : d.node? (addressOf base names) = none) :
    ∃ e, d.read (root.below names) = .error e := by
  obtain ⟨e, missed⟩ : ∃ e, d.find true (root.below names) = .error e := hosts.find_none fit vacant
  exact ⟨e, by rw [read, missed]⟩

/-- What is missing in a directory that is there is not found. -/
theorem read_vacant (hosts : d.Hosts root base) (fit : Fit (names ++ [name]))
    (parent : d.node? (addressOf base names) = some (.directory m))
    (vacant : d.node? (name :: addressOf base names) = none) :
    d.read (root.below (names ++ [name])) = .error .notFound := by
  rw [read, find, hosts.locate_vacant fit parent vacant]

/-! ## Listing -/

theorem insertName_perm (entry : Name × NodeKind) (l : List (Name × NodeKind)) :
    (insertName entry l).Perm (entry :: l) := by
  induction l with
  | nil => exact List.Perm.refl _
  | cons e l ih =>
      rw [insertName]
      split
      · exact List.Perm.refl _
      · exact (ih.cons e).trans (List.Perm.swap entry e l)

/-- The entry that a node is of the directory at an address, if it is one. -/
def entryOf (here : Address) (e : Address × Node) : Option (Name × NodeKind) :=
  match e.1 with
  | name :: parent => if parent = here then some (name, e.2.kind) else none
  | [] => none

theorem entryOf_eq_some {here : Address} {e : Address × Node} {name : Name} {kind : NodeKind} :
    entryOf here e = some (name, kind) ↔ e.1 = name :: here ∧ e.2.kind = kind := by
  obtain ⟨a, node⟩ := e
  cases a with
  | nil => simp [entryOf]
  | cons name' parent =>
      by_cases same : parent = here
      · simp [entryOf, same]
      · simp [entryOf, same]

theorem listing_perm (here : Address) (l : List (Address × Node)) :
    (l.foldr (fun e found =>
      match e.1 with
      | name :: parent => if parent = here then insertName (name, e.2.kind) found else found
      | [] => found) []).Perm (l.filterMap (entryOf here)) := by
  induction l with
  | nil => exact List.Perm.refl _
  | cons e l ih =>
      obtain ⟨a, node⟩ := e
      cases a with
      | nil => exact ih
      | cons name parent =>
          by_cases same : parent = here
          · simp only [List.foldr_cons, List.filterMap_cons, entryOf, same, if_true]
            exact (insertName_perm _ _).trans (ih.cons _)
          · simpa [entryOf, same] using ih

/-- The entries of a directory are the nodes right below it, each once. -/
theorem readDirectory_spec (sound : d.Sound) {p : Path} {here : Address}
    (found : d.find true p = .ok (here, .directory m)) :
    ∃ entries, d.readDirectory p = .ok entries ∧ (entries.map (·.1)).Nodup ∧
      ∀ name kind, (name, kind) ∈ entries ↔ ∃ node, d.node? (name :: here) = some node ∧ node.kind = kind := by
  have perm := listing_perm here d.nodes
  refine ⟨_, by rw [readDirectory, found], ?_, fun name kind => ?_⟩
  · refine (perm.map _).nodup_iff.2 ?_
    have listed : (d.nodes.filterMap (entryOf here)).map (fun e => e.1 :: here) =
        (d.nodes.filter (fun e => (entryOf here e).isSome)).map (·.1) := by
      induction d.nodes with
      | nil => rfl
      | cons e l ih =>
          cases entry : entryOf here e with
          | none => simpa [List.filterMap_cons, entry] using ih
          | some pair =>
              obtain ⟨same, -⟩ := entryOf_eq_some.1 entry
              simpa [List.filterMap_cons, entry, same] using ih
    have distinct : ((d.nodes.filterMap (entryOf here)).map (fun e => e.1 :: here)).Nodup := by
      rw [listed]
      exact sound.distinct.sublist (List.filter_sublist.map _)
    have split : (fun e : Name × NodeKind => e.1 :: here) = (fun name => name :: here) ∘ (·.1) := rfl
    rw [split, ← List.map_map] at distinct
    exact List.Nodup.of_map _ distinct
  · refine perm.mem_iff.trans ?_
    rw [List.mem_filterMap]
    constructor
    · rintro ⟨e, member, entry⟩
      obtain ⟨same, rfl⟩ := entryOf_eq_some.1 entry
      exact ⟨e.2, (sound.mem_nodes.1 (show (name :: here, e.2) ∈ d.nodes from same ▸ member)).2, rfl⟩
    · rintro ⟨node, occupied, rfl⟩
      exact ⟨(name :: here, node), sound.mem_nodes.2 ⟨by simp, occupied⟩,
        entryOf_eq_some.2 ⟨rfl, rfl⟩⟩

/-! ## Removing -/

/-- A file below the directory is dropped alone. -/
theorem drop_file (hosts : d.Hosts root base) {here : Address} (below : Below base here) {id : Nat} {c : Bytes}
    (file : d.node? here = some (.file id c m)) :
    (d.drop here).Hosts root base ∧ ∀ a, (d.drop here).node? a = if a = here then none else d.node? a := by
  have leaf : ∀ m, d.node? here ≠ some (.directory m) := by simp [file]
  have effect : ∀ a, (d.drop here).node? a = if a = here then none else d.node? a := by
    intro a
    rw [node?_drop below.ne_nil]
    by_cases same : a = here
    · subst same
      rw [if_pos (isUnder_self _), if_pos rfl]
    · rw [if_neg same]
      split
      next under =>
        obtain ⟨more, shape⟩ := isUnder_iff.1 under
        have some_ : more ≠ [] := by
          rintro rfl
          exact same shape
        rw [hosts.sound.nothing_below ⟨more, some_, shape⟩ leaf]
      · rfl
  refine ⟨hosts.of_agree (hosts.sound.drop below.ne_nil) rfl (fun a outside => ?_) ?_, effect⟩
  · rw [effect, if_neg]
    rintro rfl
    exact outside below
  · intro a target there
    rw [effect]
    split
    · simp
    · exact hosts.unlinked there

theorem removeFile_file (hosts : d.Hosts root base) (fit : Fit names) {id : Nat} {c : Bytes}
    (file : d.node? (addressOf base names) = some (.file id c m)) :
    ∃ d', d.removeFile (root.below names) = .ok d' ∧ d'.Hosts root base ∧
      ∀ a, d'.node? a = if a = addressOf base names then none else d.node? a := by
  obtain ⟨hosts', effect⟩ := hosts.drop_file (below_addressOf fit.some_) file
  exact ⟨_, by rw [removeFile, hosts.find_some fit file], hosts', effect⟩

theorem removeFile_none (hosts : d.Hosts root base) (fit : Fit names)
    (vacant : d.node? (addressOf base names) = none) :
    ∃ e, d.removeFile (root.below names) = .error e := by
  obtain ⟨e, missed⟩ : ∃ e, d.find false (root.below names) = .error e := hosts.find_none fit vacant
  exact ⟨e, by rw [removeFile, missed]⟩

theorem removeTree_directory (hosts : d.Hosts root base) (fit : Fit names)
    (directory : d.node? (addressOf base names) = some (.directory m)) :
    ∃ d', d.removeTree (root.below names) = .ok d' ∧ d'.Hosts root base ∧
      ∀ a, d'.node? a = if isUnder a (addressOf base names) then none else d.node? a := by
  have below : Below base (addressOf base names) := below_addressOf fit.some_
  have effect := node?_drop (d := d) below.ne_nil
  refine ⟨d.drop (addressOf base names), ?_, ?_, effect⟩
  · rw [removeTree, hosts.find_some fit directory]
  · refine hosts.of_agree (hosts.sound.drop below.ne_nil) rfl (fun a outside => ?_) ?_
    · rw [effect, if_neg]
      intro under
      obtain ⟨more, rfl⟩ := isUnder_iff.1 under
      obtain ⟨front, some_, shape⟩ := below
      exact outside ⟨more ++ front, by simp [some_], by rw [shape, List.append_assoc]⟩
    · intro a target there
      rw [effect]
      split
      · simp
      · exact hosts.unlinked there

/-! ## Writing -/

/-- A file is opened for writing wherever there is no directory; `truncate` empties it. -/
theorem openFile_spec (hosts : d.Hosts root base) (fit : Fit (names ++ [name])) (now : Int)
    (truncate : Bool)
    (parent : d.node? (addressOf base names) = some (.directory m))
    (leaf : ∀ m, d.node? (name :: addressOf base names) ≠ some (.directory m)) :
    ∃ id c time d', d.openFile now truncate (root.below (names ++ [name])) = .ok (id, d') ∧
      d'.Hosts root base ∧ c = cond truncate [] (d.contentAt (name :: addressOf base names)) ∧
      ∀ a, d'.node? a =
        if a = name :: addressOf base names then some (.file id c time) else d.node? a := by
  have below : Below base (name :: addressOf base names) := by
    rw [← addressOf_append]
    exact below_addressOf fit.some_
  -- Whatever is put there is a file, so the rest of the tree stands.
  have hosted : ∀ {d' : Disk} {id : Nat} {c : Bytes} {time : Int}, d'.Sound →
      d'.workingDirectory = d.workingDirectory → (∀ a, d'.node? a =
        if a = name :: addressOf base names then some (.file id c time) else d.node? a) →
      d'.Hosts root base := by
    intro d' id c time sound still effect
    refine hosts.of_agree sound still (fun a outside => ?_) ?_
    · rw [effect, if_neg]
      rintro rfl
      exact outside below
    · intro a target there
      rw [effect]
      split
      · simp
      · exact hosts.unlinked there
  cases occupied : d.node? (name :: addressOf base names) with
  | none =>
      have sound : ({ d.put (name :: addressOf base names) (.file d.nextId [] now) with
          nextId := d.nextId + 1 } : Disk).Sound := hosts.sound.put_file leaf parent
      have effect : ∀ a, ({ d.put (name :: addressOf base names) (.file d.nextId [] now) with
          nextId := d.nextId + 1 } : Disk).node? a = if a = name :: addressOf base names then
            some (.file d.nextId [] now) else d.node? a :=
        node?_put (d := d) below.ne_nil (.file d.nextId [] now)
      refine ⟨d.nextId, [], now, _, ?_, hosted sound rfl effect, ?_, effect⟩
      · obtain ⟨some_, -⟩ := hosts.path
        rw [openFile, hosts.locate_vacant fit parent occupied]
        simp [Path.endsInSlash_below fit.proper some_ fit.some_]
      · cases truncate with
        | true => rfl
        | false => rw [cond_false, contentAt, occupied]
  | some node =>
      have found : d.locate true (root.below (names ++ [name])) =
          .ok (.found (name :: addressOf base names) node) := by
        rw [← addressOf_append] at occupied ⊢
        exact hosts.locate_some fit occupied
      cases node with
      | directory m' => exact absurd occupied (leaf m')
      | link target => exact absurd occupied (hosts.unlinked below)
      | file id c time =>
          cases truncate with
          | true =>
              have effect := node?_put (d := d) below.ne_nil (.file id [] now)
              exact ⟨id, [], now, _, by rw [openFile, found]; rfl,
                hosted (hosts.sound.rewrite_file occupied) rfl effect, rfl, effect⟩
          | false =>
              refine ⟨id, c, time, d, by rw [openFile, found]; rfl, hosts, ?_, fun a => ?_⟩
              · rw [cond_false, contentAt, occupied]
              · split
                next same => rw [same, occupied]
                · rfl

/-- Nothing can be written in place of a directory. -/
theorem openFile_directory (hosts : d.Hosts root base) (fit : Fit names) (truncate : Bool)
    (directory : d.node? (addressOf base names) = some (.directory m)) :
    ∃ e, d.openFile now truncate (root.below names) = .error e := by
  exact ⟨_, by rw [openFile, hosts.locate_some fit directory]⟩

/-- What is written to an open file lands at the end of that file alone. -/
theorem append_file (hosts : d.Hosts root base) (now : Int) {here : Address} (below : Below base here)
    {id : Nat} {c : Bytes} (file : d.node? here = some (.file id c m)) (bytes : Bytes) :
    (d.append now id bytes).Hosts root base ∧
      ∀ a, (d.append now id bytes).node? a =
        if a = here then some (.file id (c ++ bytes) now) else d.node? a := by
  have effect : ∀ a, (d.append now id bytes).node? a =
      if a = here then some (.file id (c ++ bytes) now) else d.node? a := by
    intro a
    rw [node?_append]
    split
    next same => rw [same, file, Option.map_some, Node.append, if_pos rfl]
    next other =>
      cases occupied : d.node? a with
      | none => rfl
      | some node =>
          cases node with
          | directory m => rfl
          | link target => rfl
          | file id' c' m' =>
              have different : id' ≠ id := by
                rintro rfl
                exact other (hosts.sound.identified occupied file)
              rw [Option.map_some, Node.append, if_neg different]
  refine ⟨hosts.of_agree (hosts.sound.append now id bytes) rfl (fun a outside => ?_) ?_, effect⟩
  · rw [effect, if_neg]
    rintro rfl
    exact outside below
  · intro a target there
    rw [effect]
    split
    · simp
    · exact hosts.unlinked there

/-- A file takes the place of another file, or a place where there is nothing. -/
theorem rename_file (hosts : d.Hosts root base) {source : List Name} (fit : Fit source)
    (fit' : Fit (names ++ [name])) {id : Nat} {c : Bytes} {m' : Int}
    (file : d.node? (addressOf base source) = some (.file id c m))
    (parent : d.node? (addressOf base names) = some (.directory m'))
    (leaf : ∀ m, d.node? (name :: addressOf base names) ≠ some (.directory m))
    (different : addressOf base source ≠ name :: addressOf base names) :
    ∃ d', d.rename (root.below source) (root.below (names ++ [name])) = .ok d' ∧
      d'.Hosts root base ∧ ∀ a, d'.node? a =
        if a = name :: addressOf base names then some (.file id c m)
        else if a = addressOf base source then none else d.node? a := by
  have below : Below base (name :: addressOf base names) := by
    rw [← addressOf_append]
    exact below_addressOf fit'.some_
  have effect := node?_move hosts.sound file below.ne_nil different leaf
  have sourceLeaf : ∀ m, d.node? (addressOf base source) ≠ some (.directory m) := by simp [file]
  have apart : isUnder (name :: addressOf base names) (addressOf base source) = false := by
    rw [Bool.eq_false_iff, Ne, isUnder_iff]
    rintro ⟨more, shape⟩
    cases more with
    | nil => exact different shape.symm
    | cons name' more =>
        obtain ⟨-, shape⟩ := List.cons.inj shape
        cases more with
        | nil =>
            have same : addressOf base names = addressOf base source := shape
            exact sourceLeaf m' (same ▸ parent)
        | cons next more =>
            rw [hosts.sound.nothing_below ⟨next :: more, by simp, shape⟩ sourceLeaf] at parent
            cases parent
  refine ⟨d.move (addressOf base source) (name :: addressOf base names), ?_, ?_, effect⟩
  · have found : d.find false (root.below source) =
        .ok (addressOf base source, .file id c m) := hosts.find_some fit file
    cases occupied : d.node? (name :: addressOf base names) with
    | none =>
        have vacant : d.locate false (root.below (names ++ [name])) =
            .ok (.vacant (name :: addressOf base names)) := hosts.locate_vacant fit' parent occupied
        obtain ⟨some_, -⟩ := hosts.path
        rw [rename, found, vacant]
        simp [Path.endsInSlash_below fit'.proper some_ fit'.some_, apart]
    | some node =>
        have there : d.locate false (root.below (names ++ [name])) =
            .ok (.found (name :: addressOf base names) node) := by
          rw [← addressOf_append] at occupied ⊢
          exact hosts.locate_some fit' occupied
        have kind : node.kind ≠ .directory := by
          cases node with
          | directory m => exact absurd occupied (leaf m)
          | file id c m => simp [Node.kind]
          | link target => simp [Node.kind]
        have file' : (Node.file id c m).kind ≠ .directory := by simp [Node.kind]
        rw [rename, found, there]
        simp only [if_neg different.symm, apart, decide_eq_false file', decide_eq_false kind]
        rfl
  · refine hosts.of_agree (hosts.sound.move file different leaf parent) rfl (fun a outside => ?_) ?_
    · rw [effect, if_neg, if_neg]
      · rintro rfl
        exact outside (below_addressOf fit.some_)
      · rintro rfl
        exact outside below
    · intro a target there
      rw [effect]
      split
      · simp
      · split
        · simp
        · exact hosts.unlinked there

/-- A file is written under another name and then takes its place. -/
theorem replace (hosts : d.Hosts root base) {draft : Name} (fit : Fit (names ++ [draft]))
    (fit' : Fit (names ++ [name])) (parent : d.node? (addressOf base names) = some (.directory m))
    (leaf : ∀ m, d.node? (draft :: addressOf base names) ≠ some (.directory m))
    (leaf' : ∀ m, d.node? (name :: addressOf base names) ≠ some (.directory m))
    (different : draft ≠ name) (now : Int) (bytes : Bytes) :
    ∃ id d₁ d₂ time, d.openFile now true (root.below (names ++ [draft])) = .ok (id, d₁) ∧
      (d₁.append now id bytes).rename (root.below (names ++ [draft]))
        (root.below (names ++ [name])) = .ok d₂ ∧ d₂.Hosts root base ∧
      ∀ a, d₂.node? a = if a = name :: addressOf base names then some (.file id bytes time)
        else if a = draft :: addressOf base names then none else d.node? a := by
  have below : Below base (draft :: addressOf base names) := by
    rw [← addressOf_append]
    exact below_addressOf fit.some_
  have apart : name :: addressOf base names ≠ draft :: addressOf base names := fun same =>
    different (List.cons.inj same).1.symm
  have parentApart : addressOf base names ≠ draft :: addressOf base names :=
    (List.cons_ne_self _ _).symm
  obtain ⟨id, c, time, d₁, opened, hosts₁, emptied, effect₁⟩ :=
    hosts.openFile_spec fit now true parent leaf
  obtain rfl : c = [] := emptied
  have file₁ : d₁.node? (draft :: addressOf base names) = some (.file id [] time) := by
    rw [effect₁, if_pos rfl]
  obtain ⟨hosts₂, effect₂⟩ := hosts₁.append_file now below file₁ bytes
  rw [List.nil_append] at effect₂
  have file₂ : (d₁.append now id bytes).node? (addressOf base (names ++ [draft])) =
      some (.file id bytes now) := by
    rw [addressOf_append, effect₂, if_pos rfl]
  have others : ∀ a, a ≠ draft :: addressOf base names →
      (d₁.append now id bytes).node? a = d.node? a := by
    intro a other
    rw [effect₂, if_neg other, effect₁, if_neg other]
  obtain ⟨d₂, renamed, hosted, effect⟩ := hosts₂.rename_file fit fit' file₂
    ((others _ parentApart).trans parent) (by rw [others _ apart]; exact leaf')
    (by rw [addressOf_append]; exact apart.symm)
  refine ⟨id, d₁, d₂, now, opened, renamed, hosted, fun a => ?_⟩
  rw [effect, addressOf_append]
  split
  · rfl
  · split
    · rfl
    next other => exact others a other

/-- What is empty is not written, so the file takes its place as it was opened. -/
theorem replace_empty (hosts : d.Hosts root base) {draft : Name} (fit : Fit (names ++ [draft]))
    (fit' : Fit (names ++ [name])) (parent : d.node? (addressOf base names) = some (.directory m))
    (leaf : ∀ m, d.node? (draft :: addressOf base names) ≠ some (.directory m))
    (leaf' : ∀ m, d.node? (name :: addressOf base names) ≠ some (.directory m))
    (different : draft ≠ name) (now : Int) :
    ∃ id d₁ d₂ time, d.openFile now true (root.below (names ++ [draft])) = .ok (id, d₁) ∧
      d₁.rename (root.below (names ++ [draft])) (root.below (names ++ [name])) = .ok d₂ ∧
      d₂.Hosts root base ∧ ∀ a, d₂.node? a =
        if a = name :: addressOf base names then some (.file id [] time)
        else if a = draft :: addressOf base names then none else d.node? a := by
  have apart : name :: addressOf base names ≠ draft :: addressOf base names := fun same =>
    different (List.cons.inj same).1.symm
  have parentApart : addressOf base names ≠ draft :: addressOf base names :=
    (List.cons_ne_self _ _).symm
  obtain ⟨id, c, time, d₁, opened, hosts₁, emptied, effect₁⟩ :=
    hosts.openFile_spec fit now true parent leaf
  obtain rfl : c = [] := emptied
  have others : ∀ a, a ≠ draft :: addressOf base names → d₁.node? a = d.node? a := fun a other => by
    rw [effect₁, if_neg other]
  have file₁ : d₁.node? (addressOf base (names ++ [draft])) = some (.file id [] time) := by
    rw [addressOf_append, effect₁, if_pos rfl]
  obtain ⟨d₂, renamed, hosted, effect⟩ := hosts₁.rename_file fit fit' file₁
    ((others _ parentApart).trans parent) (by rw [others _ apart]; exact leaf')
    (by rw [addressOf_append]; exact apart.symm)
  refine ⟨id, d₁, d₂, time, opened, renamed, hosted, fun a => ?_⟩
  rw [effect, addressOf_append]
  split
  · rfl
  · split
    · rfl
    next other => exact others a other

/-! ## Creating directories -/

/-- A directory takes its place where there was nothing. -/
theorem put_directory (hosts : d.Hosts root base) (now : Int) {here : Address} (below : Below base (name :: here))
    (parent : d.node? here = some (.directory m)) (vacant : d.node? (name :: here) = none) :
    (d.put (name :: here) (.directory now)).Hosts root base ∧
      ∀ a, (d.put (name :: here) (.directory now)).node? a =
        if a = name :: here then some (.directory now) else d.node? a := by
  have effect := node?_put (d := d) below.ne_nil (.directory now)
  refine ⟨hosts.of_agree (hosts.sound.put_directory vacant parent) rfl (fun a outside => ?_) ?_,
    effect⟩
  · rw [effect, if_neg]
    rintro rfl
    exact outside below
  · intro a target there
    rw [effect]
    split
    · simp
    · exact hosts.unlinked there

/-- The directories that lead to a hosting directory are there. -/
theorem createAlong_path (hosts : d.Hosts root base) (now : Int) (more : List Name) :
    ∀ rest passed, passed ++ rest = root.components →
      createAlong now (if root.isAbsolute then [] else d.workingDirectory) d passed (rest ++ more) =
        createAlong now (if root.isAbsolute then [] else d.workingDirectory) d (passed ++ rest) more := by
  obtain ⟨-, -, reaches⟩ := hosts.path
  have start : ∃ m, d.node? (if root.isAbsolute then [] else d.workingDirectory) =
      some (.directory m) := by
    split
    · exact ⟨0, rfl⟩
    next relative => exact (hosts.grounded (by simpa using relative)).2
  intro rest
  induction rest with
  | nil =>
      intro passed _
      rw [List.nil_append, List.append_nil]
  | cons name rest ih =>
      intro passed whole
      have parts : root.components = (passed ++ [name]) ++ rest := by simp [← whole]
      obtain ⟨there, initial⟩ := reaches.initial hosts.sound start parts
      obtain ⟨m, walked⟩ := initial.walk false
      rw [List.cons_append, createAlong]
      simp only [walked]
      rw [ih (passed ++ [name]) (by simp [← whole])]
      simp

end Hosts

/-- Whether an address is on the way along some names. -/
def OnTheWay (base : Address) (names : List Name) (a : Address) : Prop :=
  ∃ first rest, first ≠ [] ∧ names = first ++ rest ∧ a = addressOf base first

theorem OnTheWay.below {base a : Address} {names : List Name} (on : OnTheWay base names a) : Below base a := by
  obtain ⟨first, rest, some_, -, rfl⟩ := on
  exact below_addressOf some_

theorem onTheWay_cons {base : Address} {name : Name} {names : List Name} {a : Address} :
    OnTheWay base (name :: names) a ↔ a = name :: base ∨ OnTheWay (name :: base) names a := by
  constructor
  · rintro ⟨first, rest, some_, parts, rfl⟩
    cases first with
    | nil => exact absurd rfl some_
    | cons name' first =>
        obtain ⟨rfl, rfl⟩ := List.cons.inj parts
        by_cases last : first = []
        · subst last
          exact .inl rfl
        · exact .inr ⟨first, rest, last, rfl, by simp [addressOf]⟩
  · rintro (rfl | ⟨first, rest, some_, rfl, rfl⟩)
    · exact ⟨[name], names, by simp, rfl, rfl⟩
    · exact ⟨name :: first, rest, by simp, rfl, by simp [addressOf]⟩

namespace Hosts

variable {d : Disk} {root : Path} {base : Address} {now : Int}

theorem createAlong_below {start : Address} {passed done rest : List Name}
    (hosts : d.Hosts root base) (begins : start = if root.isAbsolute then [] else d.workingDirectory)
    (walked : passed = root.components ++ done) (proper : ∀ name ∈ done ++ rest, name.Proper)
    (reached : ∃ m, d.node? (addressOf base done) = some (.directory m))
    (free : ∀ a, OnTheWay (addressOf base done) rest a →
      d.node? a = none ∨ ∃ m, d.node? a = some (.directory m)) :
    ∃ d', createAlong now start d passed rest = .ok d' ∧ d'.Hosts root base ∧
      (∀ a, d'.node? a = d.node? a ∨ (OnTheWay (addressOf base done) rest a ∧ d.node? a = none ∧
        d'.node? a = some (.directory now))) ∧
      ∀ a, OnTheWay (addressOf base done) rest a → ∃ m, d'.node? a = some (.directory m) := by
  induction rest generalizing d done passed with
  | nil =>
      refine ⟨d, rfl, hosts, fun a => .inl rfl, ?_⟩
      rintro a ⟨first, rest, some_, parts, -⟩
      exact absurd (List.append_eq_nil_iff.1 parts.symm).1 some_
  | cons name rest ih =>
      obtain ⟨m, reached⟩ := reached
      obtain ⟨-, -, reaches⟩ := hosts.path
      obtain ⟨left, onward⟩ := reaches.onward
      have proper'' : ∀ n ∈ done ++ [name], n.Proper := by
        intro n member
        refine proper n ?_
        rcases List.mem_append.1 member with member | member
        · exact List.mem_append_left _ member
        · exact List.mem_append_right _ (List.mem_singleton.1 member ▸ List.mem_cons_self)
      have step : ∀ follow, d.walk follow false maxLinks start (passed ++ [name]) =
          .ok (d.placeAt (name :: addressOf base done)) := by
        intro follow
        rw [walked, begins, List.append_assoc, onward follow false _ (by simp)]
        refine walk_below hosts.sound proper'' reached ?_
        intro target
        have below : Below base (addressOf base (done ++ [name])) := below_addressOf (by simp)
        rw [addressOf_append] at below
        exact hosts.unlinked below
      have below : Below base (name :: addressOf base done) := by
        rw [← addressOf_append]
        exact below_addressOf (by simp)
      have walked' : passed ++ [name] = root.components ++ (done ++ [name]) := by
        rw [walked, List.append_assoc]
      have proper' : ∀ n ∈ (done ++ [name]) ++ rest, n.Proper := fun n member =>
        proper n (by simpa using member)
      rcases free _ (onTheWay_cons.2 (.inl rfl)) with vacant | ⟨m', directory⟩
      · obtain ⟨hosts', effect⟩ := hosts.put_directory now below reached vacant
        have reached' : ∃ m, (d.put (name :: addressOf base done) (.directory now)).node?
            (addressOf base (done ++ [name])) = some (.directory m) :=
          ⟨now, by rw [addressOf_append, effect, if_pos rfl]⟩
        have free' : ∀ a, OnTheWay (addressOf base (done ++ [name])) rest a →
            (d.put (name :: addressOf base done) (.directory now)).node? a = none ∨
              ∃ m, (d.put (name :: addressOf base done) (.directory now)).node? a =
                some (.directory m) := by
          intro a way
          rw [effect]
          split
          · exact .inr ⟨now, rfl⟩
          · rw [addressOf_append] at way
            exact free a (onTheWay_cons.2 (.inr way))
        obtain ⟨d', created, hosted, changed, there⟩ := ih hosts' begins walked' proper' reached' free'
        rw [addressOf_append] at changed there
        refine ⟨d', ?_, hosted, fun a => ?_, fun a way => ?_⟩
        · rw [createAlong]
          simp only [step, placeAt, vacant]
          exact created
        · rcases changed a with same | ⟨way, before, after⟩
          · rw [effect] at same
            split at same
            next here => exact .inr ⟨onTheWay_cons.2 (.inl here), by rw [here, vacant], same⟩
            · exact .inl same
          · rw [effect] at before
            split at before
            · cases before
            · exact .inr ⟨onTheWay_cons.2 (.inr way), before, after⟩
        · rcases onTheWay_cons.1 way with rfl | way
          · rcases changed (name :: addressOf base done) with same | ⟨-, -, after⟩
            · exact ⟨now, by rw [same, effect, if_pos rfl]⟩
            · exact ⟨now, after⟩
          · exact there a way
      · have free' : ∀ a, OnTheWay (addressOf base (done ++ [name])) rest a →
            d.node? a = none ∨ ∃ m, d.node? a = some (.directory m) := by
          intro a way
          rw [addressOf_append] at way
          exact free a (onTheWay_cons.2 (.inr way))
        obtain ⟨d', created, hosted, changed, there⟩ := ih hosts begins walked' proper'
          ⟨m', by rw [addressOf_append, directory]⟩ free'
        rw [addressOf_append] at changed there
        refine ⟨d', ?_, hosted, fun a => ?_, fun a way => ?_⟩
        · rw [createAlong]
          simp only [step, placeAt, directory]
          exact created
        · rcases changed a with same | ⟨way, before, after⟩
          · exact .inl same
          · exact .inr ⟨onTheWay_cons.2 (.inr way), before, after⟩
        · rcases onTheWay_cons.1 way with rfl | way
          · rcases changed (name :: addressOf base done) with same | ⟨-, before, -⟩
            · exact ⟨m', by rw [same, directory]⟩
            · rw [directory] at before
              cases before
          · exact there a way

/-- The directories along some names are created as far as they are missing. -/
theorem createDirectories_below {names : List Name} (hosts : d.Hosts root base) (now : Int)
    (fit : Fit names)
    (free : ∀ a, OnTheWay base names a → d.node? a = none ∨ ∃ m, d.node? a = some (.directory m)) :
    ∃ d', d.createDirectories now (root.below names) = .ok d' ∧ d'.Hosts root base ∧
      (∀ a, d'.node? a = d.node? a ∨
        (OnTheWay base names a ∧ d.node? a = none ∧ d'.node? a = some (.directory now))) ∧
      ∀ a, OnTheWay base names a → ∃ m, d'.node? a = some (.directory m) := by
  obtain ⟨some_, clean, -⟩ := hosts.path
  have short := hosts.short_below fit
  rw [createDirectories, if_neg (by simpa using Path.zero_not_mem_below fit.proper some_ clean),
    if_neg (Nat.not_lt.2 short), Path.isAbsolute_below fit.proper some_,
    Path.components_below fit.proper some_, hosts.createAlong_path now names root.components [] rfl]
  exact hosts.createAlong_below rfl (List.append_nil root.components).symm fit.proper
    hosts.directory free

/-- Nothing is created where everything is there. -/
theorem createDirectories_self (hosts : d.Hosts root base) :
    d.createDirectories now root = .ok d := by
  obtain ⟨some_, clean, -⟩ := hosts.path
  have short : root.bytes.length ≤ maxPathLength := by
    have roomy := hosts.roomy
    omega
  rw [createDirectories, if_neg (by simpa using clean), if_neg (Nat.not_lt.2 short)]
  have all := hosts.createAlong_path now [] root.components [] rfl
  rw [List.append_nil] at all
  rw [all]
  rfl

end Hosts

end Disk

end SymbolIndex
