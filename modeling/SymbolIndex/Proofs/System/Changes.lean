import SymbolIndex.Proofs.System.Files

/-!
# Proofs.System.Changes — what an operation has changed once it succeeded

An operation below a hosting directory may fail, for a directory that is missing or a file that stands in the way.
When it succeeds the directory is still a host, and only the addresses that the operation names have changed. Nothing
is supposed here about what stood at them before.
-/

namespace SymbolIndex

set_option autoImplicit false

namespace Disk

section Descent

variable {d : Disk} {base here : Address} {follow : Bool} {links : Nat} {names : List Name}

/-- A walk that ends where nothing is has come to the directory of it. -/
theorem walk_vacant (unlinked : ∀ {a : Address} {target : Path}, Below base a → d.node? a ≠ some (.link target))
    (proper : ∀ name ∈ names, name.Proper) {m : Int} (start : d.node? base = some (.directory m))
    (walked : d.walk follow false links base names = .ok (.vacant here)) :
    ∃ front name m, names = front ++ [name] ∧ d.node? (addressOf base front) = some (.directory m) ∧
      d.node? (name :: addressOf base front) = none ∧ here = name :: addressOf base front := by
  induction names generalizing base m with
  | nil =>
      rw [walk, start] at walked
      cases walked
  | cons name names ih =>
      obtain ⟨-, -, plain, -, -, short⟩ := proper name (by simp)
      rw [walk_cons plain short] at walked
      cases occupied : d.node? (name :: base) with
      | none =>
          simp only [occupied] at walked
          split at walked
          next last =>
            cases walked
            exact ⟨[], name, m, by rw [last]; rfl, start, occupied, rfl⟩
          next => cases walked
      | some node =>
          cases node with
          | file id c time =>
              simp only [occupied] at walked
              split at walked <;> cases walked
          | link target => exact absurd occupied (unlinked (below_cons name base))
          | directory m' =>
              simp only [occupied] at walked
              obtain ⟨front, last, m₀, rfl, parent, vacant, same⟩ :=
                ih (fun below => unlinked ((below_cons name base).trans below))
                  (fun n member => proper n (by simp [member])) occupied walked
              have shape : addressOf base (name :: front) = addressOf (name :: base) front := by simp [addressOf]
              exact ⟨name :: front, last, m₀, rfl, by rw [shape, parent], by rw [shape, vacant], by rw [shape, same]⟩

end Descent

namespace Hosts

variable {d d' : Disk} {root : Path} {base : Address} {names source target : List Name} {follow : Bool} {now : Int}

/-- The directory is there of whatever is there or could be made. -/
theorem parent_of_locate (hosts : d.Hosts root base) (fit : Fit names) {place : Place}
    (located : d.locate follow (root.below names) = .ok place) :
    ∃ front name m, names = front ++ [name] ∧ d.node? (addressOf base front) = some (.directory m) := by
  cases occupied : d.node? (addressOf base names) with
  | some node =>
      obtain ⟨front, name, rfl⟩ : ∃ front name, names = front ++ [name] :=
        ⟨_, _, (List.dropLast_append_getLast fit.some_).symm⟩
      rw [addressOf_append] at occupied
      obtain ⟨m, parent⟩ := hosts.sound.upward occupied
      exact ⟨front, name, m, rfl, parent⟩
  | none =>
      obtain ⟨m, start⟩ := hosts.directory
      obtain ⟨links, descent⟩ := hosts.locate_below fit
      rw [descent] at located
      cases place with
      | found here node => exact absurd located (walk_ne_found hosts.unlinked fit.proper fit.some_ occupied here node)
      | vacant here =>
          obtain ⟨front, name, m, parts, parent, -⟩ := walk_vacant hosts.unlinked fit.proper start located
          exact ⟨front, name, m, parts, parent⟩

/-- Where a file was opened the directory of it is there, and the file is no directory. -/
theorem target_of_openFile (hosts : d.Hosts root base) (fit : Fit names) {truncate : Bool} {id : Nat}
    (opened : d.openFile now truncate (root.below names) = .ok (id, d')) :
    ∃ front name m, names = front ++ [name] ∧ d.node? (addressOf base front) = some (.directory m) ∧
      ∀ m, d.node? (name :: addressOf base front) ≠ some (.directory m) := by
  have leaf : ∀ m, d.node? (addressOf base names) ≠ some (.directory m) := by
    intro m directory
    obtain ⟨e, refused⟩ : ∃ e, d.openFile now truncate (root.below names) = .error e :=
      hosts.openFile_directory fit truncate directory
    rw [refused] at opened
    cases opened
  obtain ⟨place, located⟩ : ∃ place, d.locate true (root.below names) = .ok place := by
    rw [openFile] at opened
    cases located : d.locate true (root.below names) with
    | ok place => exact ⟨place, rfl⟩
    | error e =>
        rw [located] at opened
        cases opened
  obtain ⟨front, name, m, rfl, parent⟩ := hosts.parent_of_locate fit located
  rw [addressOf_append] at leaf
  exact ⟨front, name, m, rfl, parent, leaf⟩

/-- A file that was opened is where its path leads, and nothing else has changed. -/
theorem openFile_ok (hosts : d.Hosts root base) (fit : Fit names) {truncate : Bool} {id : Nat}
    (opened : d.openFile now truncate (root.below names) = .ok (id, d')) :
    d'.Hosts root base ∧ (∃ c m, d'.node? (addressOf base names) = some (.file id c m)) ∧
      ∀ a, a ≠ addressOf base names → d'.node? a = d.node? a := by
  obtain ⟨front, name, m, rfl, parent, leaf⟩ := hosts.target_of_openFile fit opened
  rw [addressOf_append]
  obtain ⟨id', c, time, d'', opened', hosts', -, effect⟩ := hosts.openFile_spec fit now truncate parent leaf
  rw [opened'] at opened
  cases opened
  exact ⟨hosts', ⟨c, time, by rw [effect, if_pos rfl]⟩, fun a other => by rw [effect, if_neg other]⟩

/-- What was removed as a file was one, and nothing else has changed. -/
theorem removeFile_ok (hosts : d.Hosts root base) (fit : Fit names)
    (removed : d.removeFile (root.below names) = .ok d') :
    d'.Hosts root base ∧ ∀ a, a ≠ addressOf base names → d'.node? a = d.node? a := by
  cases occupied : d.node? (addressOf base names) with
  | none =>
      obtain ⟨e, refused⟩ := hosts.removeFile_none fit occupied
      rw [refused] at removed
      cases removed
  | some node =>
      cases node with
      | link target => exact absurd occupied (hosts.unlinked (below_addressOf fit.some_))
      | directory m =>
          rw [removeFile, hosts.find_some fit occupied] at removed
          cases removed
      | file id c m =>
          obtain ⟨d'', removed', hosts', effect⟩ := hosts.removeFile_file fit occupied
          rw [removed'] at removed
          cases removed
          exact ⟨hosts', fun a other => by rw [effect, if_neg other]⟩

/-- Where a file was moved to another address the directory of that address is there, and no directory was
in its place. -/
theorem target_of_rename (hosts : d.Hosts root base) (fit : Fit source) (fit' : Fit target) {id : Nat}
    {c : Text.Bytes} {m : Int} (file : d.node? (addressOf base source) = some (.file id c m))
    (different : addressOf base source ≠ addressOf base target)
    (renamed : d.rename (root.below source) (root.below target) = .ok d') :
    ∃ front name m, target = front ++ [name] ∧ d.node? (addressOf base front) = some (.directory m) ∧
      ∀ m, d.node? (name :: addressOf base front) ≠ some (.directory m) := by
  have found : d.find false (root.below source) = .ok (addressOf base source, .file id c m) := hosts.find_some fit file
  obtain ⟨place, located⟩ : ∃ place, d.locate false (root.below target) = .ok place := by
    rw [rename, found] at renamed
    cases located : d.locate false (root.below target) with
    | ok place => exact ⟨place, rfl⟩
    | error e =>
        rw [located] at renamed
        cases renamed
  have leaf : ∀ m, d.node? (addressOf base target) ≠ some (.directory m) := by
    intro m' directory
    have there : d.locate false (root.below target) = .ok (.found (addressOf base target) (.directory m')) :=
      hosts.locate_some fit' directory
    rw [rename, found, there] at renamed
    simp only [if_neg different.symm, Node.kind] at renamed
    split at renamed <;> cases renamed
  obtain ⟨front, name, m', rfl, parent⟩ := hosts.parent_of_locate fit' located
  rw [addressOf_append] at leaf
  exact ⟨front, name, m', rfl, parent, leaf⟩

/-- A file that was moved has left its address for another one, and nothing else has changed. -/
theorem rename_ok (hosts : d.Hosts root base) (fit : Fit source) (fit' : Fit target) {id : Nat} {c : Text.Bytes}
    {m : Int} (file : d.node? (addressOf base source) = some (.file id c m))
    (different : addressOf base source ≠ addressOf base target)
    (renamed : d.rename (root.below source) (root.below target) = .ok d') :
    d'.Hosts root base ∧
      ∀ a, a ≠ addressOf base source → a ≠ addressOf base target → d'.node? a = d.node? a := by
  obtain ⟨front, name, m', rfl, parent, leaf⟩ := hosts.target_of_rename fit fit' file different renamed
  rw [addressOf_append] at different ⊢
  obtain ⟨d'', renamed', hosts', effect⟩ := hosts.rename_file fit fit' file parent leaf different
  rw [renamed'] at renamed
  cases renamed
  exact ⟨hosts', fun a left came => by rw [effect, if_neg came, if_neg left]⟩

/-- A file that was written under another name and then took its place is there, whole. -/
theorem replace_ok (hosts : d.Hosts root base) {draft name : Name} (fit : Fit (names ++ [draft]))
    (fit' : Fit (names ++ [name])) (different : draft ≠ name) {id : Nat} {d₁ d₂ : Disk} {bytes : Text.Bytes}
    (opened : d.openFile now true (root.below (names ++ [draft])) = .ok (id, d₁))
    (renamed : (d₁.append now id bytes).rename (root.below (names ++ [draft])) (root.below (names ++ [name])) =
      .ok d₂) :
    d₂.Hosts root base ∧ ∃ time, ∀ a, d₂.node? a =
      if a = name :: addressOf base names then some (.file id bytes time)
      else if a = draft :: addressOf base names then none else d.node? a := by
  have apart : addressOf base (names ++ [draft]) ≠ addressOf base (names ++ [name]) := by
    rw [addressOf_append, addressOf_append]
    exact fun same => different (List.cons.inj same).1
  have below : Below base (addressOf base (names ++ [draft])) := below_addressOf fit.some_
  obtain ⟨front, last, m, parts, parent, leaf⟩ := hosts.target_of_openFile fit opened
  obtain ⟨rfl, last'⟩ := List.append_inj' parts rfl
  obtain rfl := List.cons.inj last' |>.1
  obtain ⟨hosts₁, ⟨c, m₁, file₁⟩, others₁⟩ := hosts.openFile_ok fit opened
  obtain ⟨hosts₂, effect₂⟩ := hosts₁.append_file now below file₁ bytes
  have file₂ := (effect₂ (addressOf base (names ++ [draft]))).trans (if_pos rfl)
  obtain ⟨front', last, m', parts', -, leaf'⟩ := hosts₂.target_of_rename fit fit' file₂ apart renamed
  obtain ⟨rfl, last'⟩ := List.append_inj' parts' rfl
  obtain rfl := List.cons.inj last' |>.1
  rw [addressOf_append, addressOf_append] at apart
  have still : (d₁.append now id bytes).node? (name :: addressOf base names) =
      d.node? (name :: addressOf base names) := by
    rw [effect₂, addressOf_append, if_neg apart.symm, others₁ _ (by rw [addressOf_append]; exact apart.symm)]
  rw [still] at leaf'
  obtain ⟨id', d₁', d₂', time, opened', renamed', hosts', effect⟩ :=
    hosts.replace fit fit' parent leaf leaf' different now bytes
  rw [opened'] at opened
  cases opened
  rw [renamed'] at renamed
  cases renamed
  exact ⟨hosts', time, effect⟩

/-- Where directories were created along some names, nothing but directories stood in the way. -/
theorem free_of_createAlong (hosts : d.Hosts root base) {start : Address} {passed done rest : List Name}
    (begins : start = if root.isAbsolute then [] else d.workingDirectory) (walked : passed = root.components ++ done)
    (proper : ∀ name ∈ done ++ rest, name.Proper) (reached : ∃ m, d.node? (addressOf base done) = some (.directory m))
    (created : createAlong now start d passed rest = .ok d') {a : Address}
    (way : OnTheWay (addressOf base done) rest a) : d.node? a = none ∨ ∃ m, d.node? a = some (.directory m) := by
  induction rest generalizing d done passed with
  | nil =>
      obtain ⟨first, rest, some_, parts, -⟩ := way
      exact absurd (List.append_eq_nil_iff.1 parts.symm).1 some_
  | cons name rest ih =>
      obtain ⟨m, reached⟩ := reached
      obtain ⟨-, -, reaches⟩ := hosts.path
      obtain ⟨left, onward⟩ := reaches.onward
      have below : Below base (name :: addressOf base done) := by
        rw [← addressOf_append]
        exact below_addressOf (by simp)
      have step : ∀ follow, d.walk follow false maxLinks start (passed ++ [name]) =
          .ok (d.placeAt (name :: addressOf base done)) := by
        intro follow
        rw [walked, begins, List.append_assoc, onward follow false _ (by simp)]
        refine walk_below hosts.sound (fun n member => proper n ?_) reached fun target => hosts.unlinked below
        rcases List.mem_append.1 member with member | member
        · exact List.mem_append_left _ member
        · exact List.mem_append_right _ (List.mem_singleton.1 member ▸ List.mem_cons_self)
      have walked' : passed ++ [name] = root.components ++ (done ++ [name]) := by rw [walked, List.append_assoc]
      have proper' : ∀ n ∈ (done ++ [name]) ++ rest, n.Proper := fun n member => proper n (by simpa using member)
      rw [createAlong] at created
      cases occupied : d.node? (name :: addressOf base done) with
      | none =>
          simp only [step, placeAt, occupied] at created
          obtain ⟨hosts', effect⟩ := hosts.put_directory now below reached occupied
          rcases onTheWay_cons.1 way with rfl | way
          · exact .inl occupied
          · have onward := ih hosts' begins walked' proper'
              ⟨now, by rw [addressOf_append, effect, if_pos rfl]⟩ created (by rwa [addressOf_append])
            rw [effect] at onward
            split at onward
            next same => exact .inl (same ▸ occupied)
            next => exact onward
      | some node =>
          cases node with
          | link target => exact absurd occupied (hosts.unlinked below)
          | file id c m =>
              simp only [step, placeAt, occupied] at created
              cases created
          | directory m' =>
              simp only [step, placeAt, occupied] at created
              rcases onTheWay_cons.1 way with rfl | way
              · exact .inr ⟨m', occupied⟩
              · exact ih hosts begins walked' proper' ⟨m', by rw [addressOf_append, occupied]⟩ created
                  (by rwa [addressOf_append])

/-- Directories that were created lie along the path, and nothing else has changed. -/
theorem createDirectories_ok (hosts : d.Hosts root base) (fit : Fit names)
    (created : d.createDirectories now (root.below names) = .ok d') :
    d'.Hosts root base ∧ ∀ a, ¬ OnTheWay base names a → d'.node? a = d.node? a := by
  obtain ⟨some_, clean, -⟩ := hosts.path
  have along :
      createAlong now (if root.isAbsolute then [] else d.workingDirectory) d root.components names = .ok d' := by
    rw [createDirectories] at created
    split at created
    · cases created
    · split at created
      · cases created
      · rw [Path.isAbsolute_below fit.proper some_, Path.components_below fit.proper some_,
          hosts.createAlong_path now names root.components [] rfl] at created
        exact created
  obtain ⟨d'', created', hosts', changed, -⟩ := hosts.createDirectories_below now fit fun a way =>
    @free_of_createAlong d d' root base now hosts _ _ [] names rfl (List.append_nil _).symm fit.proper hosts.directory
      along a way
  rw [created'] at created
  cases created
  exact ⟨hosts', fun a off => (changed a).resolve_right fun on => off on.1⟩

end Hosts

end Disk

end SymbolIndex
