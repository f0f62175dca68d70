import SymbolIndex.Proofs.System.Disk

/-!
# Proofs.System.Paths — where paths lead

A path leads to a directory whatever lies below that directory (`Leads`), through links or not. A path
below it, with names that mean nothing to the system (`Proper`), then leads to the address of these
names: `find_below` when there is a node, `find_below_none` when there is none, `locate_below_vacant`
when only the directory is there.

The walk itself is cut in two: `walk_append` follows the path to the directory, `walk_below` the
names below it.
-/

namespace SymbolIndex

open SymbolIndex.Text (Bytes)

set_option autoImplicit false

/-- A name without a meaning of its own, that the system takes as it is. -/
def Name.Proper (name : Name) : Prop :=
  name ≠ [] ∧ name ≠ [dot] ∧ name ≠ Disk.dotDot ∧ slash ∉ name ∧ (0 : UInt8) ∉ name ∧
    name.length ≤ Disk.maxNameLength

instance (name : Name) : Decidable name.Proper := inferInstanceAs (Decidable (_ ∧ _))

namespace Path

/-! ## Paths by their components -/

theorem pieces_ne_nil (bytes : Bytes) : pieces bytes ≠ [] := by
  cases bytes with
  | nil => simp [pieces]
  | cons b rest =>
      rw [pieces]
      split
      · simp
      · split <;> simp

theorem pieces_append_slash (first rest : Bytes) :
    pieces (first ++ slash :: rest) = pieces first ++ pieces rest := by
  induction first with
  | nil => simp [pieces]
  | cons b first ih =>
      rw [List.cons_append, pieces, pieces, ih]
      by_cases isSlash : b = slash
      · simp [isSlash]
      · rw [if_neg isSlash, if_neg isSlash]
        cases parts : pieces first with
        | nil => exact absurd parts (pieces_ne_nil first)
        | cons part more => rfl

theorem pieces_of_unslashed {name : Name} (unslashed : slash ∉ name) : pieces name = [name] := by
  induction name with
  | nil => rfl
  | cons b name ih =>
      rw [List.mem_cons, not_or] at unslashed
      rw [pieces, if_neg (Ne.symm unslashed.1), ih unslashed.2]

theorem join_bytes {p : Path} {name : Name} (unslashed : slash ∉ name) (some_ : p.bytes ≠ []) :
    (p.bytes.getLast? = some slash ∧ (p.join name).bytes = p.bytes ++ name) ∨
      (p.bytes.getLast? ≠ some slash ∧ (p.join name).bytes = p.bytes ++ slash :: name) := by
  have relative : name.head? ≠ some slash := by
    intro first
    exact unslashed (List.mem_of_mem_head? first)
  rw [join, if_neg relative]
  by_cases ends : p.bytes.getLast? = some slash
  · exact .inl ⟨ends, by rw [if_pos (.inr ends)]⟩
  · exact .inr ⟨ends, by rw [if_neg (by simp [some_, ends])]⟩

/-- A name is lengthened at the end of the path. -/
theorem join_append {p : Path} {name suffix : Name} (unslashed : slash ∉ name ++ suffix) :
    (⟨(p.join name).bytes ++ suffix⟩ : Path) = p.join (name ++ suffix) := by
  have plain : ∀ {n : Name}, slash ∉ n → n.head? ≠ some slash := fun absent first =>
    absent (List.mem_of_mem_head? first)
  have first : slash ∉ name := fun member => unslashed (by simp [member])
  rw [join, join, if_neg (plain first), if_neg (plain unslashed)]
  split
  · rw [List.append_assoc]
  · rw [List.append_assoc, List.cons_append]

theorem pieces_join {p : Path} {name : Name} (unslashed : slash ∉ name) (some_ : p.bytes ≠ []) :
    ∃ front, pieces (p.join name).bytes = front ++ [name] ∧
      ∀ keep : Name → Bool, keep [] = false → front.filter keep = (pieces p.bytes).filter keep := by
  rcases join_bytes unslashed some_ with ⟨ends, bytes⟩ | ⟨-, bytes⟩
  · obtain ⟨front, whole⟩ := List.getLast?_eq_some_iff.1 ends
    refine ⟨pieces front, ?_, fun keep empty => ?_⟩
    · rw [bytes, whole, List.append_assoc, List.singleton_append, pieces_append_slash,
        pieces_of_unslashed unslashed]
    · rw [whole, pieces_append_slash, List.filter_append]
      simp [pieces, empty]
  · exact ⟨pieces p.bytes, by rw [bytes, pieces_append_slash, pieces_of_unslashed unslashed],
      fun _ _ => rfl⟩

theorem join_ne_nil {p : Path} {name : Name} (unslashed : slash ∉ name) (some_ : p.bytes ≠ []) :
    (p.join name).bytes ≠ [] := by
  rcases join_bytes unslashed some_ with ⟨-, bytes⟩ | ⟨-, bytes⟩ <;> simp [bytes, some_]

/-- The path of names below another path. -/
def below (p : Path) (names : List Name) : Path := names.foldl join p

theorem below_cons (p : Path) (name : Name) (names : List Name) :
    p.below (name :: names) = (p.join name).below names := rfl

theorem below_append (p : Path) (names more : List Name) :
    p.below (names ++ more) = (p.below names).below more := by
  simp [below]

section Below

variable {p : Path} {names : List Name} (proper : ∀ name ∈ names, name.Proper)
  (some_ : p.bytes ≠ [])

include proper some_

theorem below_ne_nil : (p.below names).bytes ≠ [] := by
  induction names generalizing p with
  | nil => exact some_
  | cons name names ih =>
      obtain ⟨-, -, -, unslashed, -⟩ := proper name (by simp)
      exact ih (fun n member => proper n (by simp [member])) (join_ne_nil unslashed some_)

theorem components_below : (p.below names).components = p.components ++ names := by
  induction names generalizing p with
  | nil => simp [below]
  | cons name names ih =>
      obtain ⟨solid, notDot, -, unslashed, -⟩ := proper name (by simp)
      rw [below_cons, ih (fun n member => proper n (by simp [member]))
        (join_ne_nil unslashed some_)]
      obtain ⟨front, whole, same⟩ := pieces_join unslashed some_
      have step : (p.join name).components = p.components ++ [name] := by
        rw [components, components, whole, List.filter_append, same _ (by simp)]
        simp [solid, notDot]
      rw [step, List.append_assoc, List.singleton_append]

theorem isAbsolute_below : (p.below names).isAbsolute = p.isAbsolute := by
  induction names generalizing p with
  | nil => rfl
  | cons name names ih =>
      obtain ⟨-, -, -, unslashed, -⟩ := proper name (by simp)
      rw [below_cons, ih (fun n member => proper n (by simp [member]))
        (join_ne_nil unslashed some_)]
      obtain ⟨b, rest, shape⟩ := List.exists_cons_of_ne_nil some_
      rcases join_bytes unslashed some_ with ⟨-, bytes⟩ | ⟨-, bytes⟩ <;>
        simp [isAbsolute, bytes, shape]

theorem zero_not_mem_below (clean : (0 : UInt8) ∉ p.bytes) : (0 : UInt8) ∉ (p.below names).bytes := by
  induction names generalizing p with
  | nil => exact clean
  | cons name names ih =>
      obtain ⟨-, -, -, unslashed, unended, -⟩ := proper name (by simp)
      refine ih (fun n member => proper n (by simp [member])) (join_ne_nil unslashed some_) ?_
      rcases join_bytes unslashed some_ with ⟨-, bytes⟩ | ⟨-, bytes⟩
      · simp [bytes, clean, unended]
      · simp [bytes, clean, unended, slash]

/-- The most bytes that some names add to a path. -/
def addedLength : List Name → Nat
  | [] => 0
  | name :: names => name.length + 1 + addedLength names

theorem length_below_le : (p.below names).bytes.length ≤ p.bytes.length + addedLength names := by
  induction names generalizing p with
  | nil => exact Nat.le_refl _
  | cons name names ih =>
      obtain ⟨-, -, -, unslashed, -⟩ := proper name (by simp)
      have rest := ih (p := p.join name) (fun n member => proper n (by simp [member]))
        (join_ne_nil unslashed some_)
      have step : (p.join name).bytes.length ≤ p.bytes.length + (name.length + 1) := by
        rcases join_bytes unslashed some_ with ⟨-, bytes⟩ | ⟨-, bytes⟩
        · simp [bytes]
        · simp [bytes]
      simp only [addedLength] at rest ⊢
      rw [below_cons]
      omega

theorem endsInSlash_below (more : names ≠ []) : Disk.endsInSlash (p.below names) = false := by
  obtain ⟨front, name, rfl⟩ : ∃ front name, names = front ++ [name] :=
    ⟨_, _, (List.dropLast_append_getLast more).symm⟩
  obtain ⟨solid, notDot, -, unslashed, -⟩ := proper name (by simp)
  have proper' : ∀ n ∈ front, n.Proper := fun n member => proper n (by simp [member])
  obtain ⟨parts, whole, -⟩ := pieces_join unslashed (below_ne_nil proper' some_)
  rw [below_append]
  show Disk.endsInSlash ((p.below front).join name) = false
  rw [Disk.endsInSlash, whole]
  simp [solid, notDot]

end Below

end Path

namespace Disk

/-! ## The walk to a directory -/

/-- A walk, through links or not, that ends in a directory. -/
inductive Reaches (d : Disk) : Nat → Address → List Name → Address → Prop where
  | stay {links : Nat} {here : Address} {m : Int} (directory : d.node? here = some (.directory m)) :
      Reaches d links here [] here
  | up {links : Nat} {here there : Address} {rest : List Name}
      (onward : Reaches d links here.tail rest there) :
      Reaches d links here (dotDot :: rest) there
  | enter {links : Nat} {here there : Address} {name : Name} {rest : List Name} {m : Int}
      (plain : name ≠ dotDot) (short : name.length ≤ maxNameLength)
      (directory : d.node? (name :: here) = some (.directory m))
      (onward : Reaches d links (name :: here) rest there) : Reaches d links here (name :: rest) there
  | through {links : Nat} {here there : Address} {name : Name} {rest : List Name} {target : Path}
      (plain : name ≠ dotDot) (short : name.length ≤ maxNameLength)
      (link : d.node? (name :: here) = some (.link target))
      (onward : Reaches d links (if target.isAbsolute then [] else here)
        (target.components ++ rest) there) :
      Reaches d (links + 1) here (name :: rest) there

section Walk

variable {d : Disk} {follow must : Bool} {links : Nat} {here there : Address} {name : Name}
  {names rest : List Name} {m : Int}

theorem walk_nil {node : Node} (occupied : d.node? here = some node) :
    d.walk follow must links here [] = .ok (.found here node) := by
  rw [walk, occupied]

theorem walk_up : d.walk follow must links here (dotDot :: rest) =
    d.walk follow must links here.tail rest := by
  rw [walk, if_pos rfl]

theorem walk_cons (plain : name ≠ dotDot) (short : name.length ≤ maxNameLength) :
    d.walk follow must links here (name :: rest) =
      match d.node? (name :: here) with
      | none => if rest = [] then .ok (.vacant (name :: here)) else .error .notFound
      | some (.directory _) => d.walk follow must links (name :: here) rest
      | some (.file id content modified) =>
        if rest = [] ∧ !must then .ok (.found (name :: here) (.file id content modified))
        else .error .notDirectory
      | some (.link target) =>
        if rest = [] ∧ !follow ∧ !must then .ok (.found (name :: here) (.link target))
        else
          match links with
          | 0 => .error .tooManyLinks
          | links + 1 =>
            d.walk follow (must || (rest = [] && endsInSlash target)) links
              (if target.isAbsolute then [] else here) (target.components ++ rest) := by
  rw [walk, if_neg plain]
  exact if_neg (by omega)

theorem walk_enter (plain : name ≠ dotDot) (short : name.length ≤ maxNameLength)
    (directory : d.node? (name :: here) = some (.directory m)) :
    d.walk follow must links here (name :: rest) = d.walk follow must links (name :: here) rest := by
  rw [walk_cons plain short, directory]

theorem walk_through {target : Path} (plain : name ≠ dotDot) (short : name.length ≤ maxNameLength)
    (link : d.node? (name :: here) = some (.link target))
    (followed : ¬ (rest = [] ∧ !follow ∧ !must)) :
    d.walk follow must (links + 1) here (name :: rest) =
      d.walk follow (must || (rest = [] && endsInSlash target)) links
        (if target.isAbsolute then [] else here) (target.components ++ rest) := by
  rw [walk_cons plain short, link]
  simp only
  rw [if_neg followed]

theorem reaches_of_walk
    (walked : d.walk true must links here names = .ok (.found there (.directory m))) :
    d.Reaches links here names there := by
  induction must, links, here, names using walk.induct d true with
  | case1 must links here node occupied =>
      rw [walk_nil occupied] at walked
      obtain ⟨rfl, rfl⟩ : here = there ∧ node = .directory m := by simpa using walked
      exact .stay occupied
  | case2 must links here vacant =>
      rw [walk, vacant] at walked
      cases walked
  | case3 must links here rest ih =>
      rw [walk_up] at walked
      exact .up (ih walked)
  | case4 must links here name rest plain long =>
      rw [walk, if_neg plain, if_pos long] at walked
      cases walked
  | case5 must links here name plain short vacant =>
      rw [walk_cons plain (Nat.le_of_not_lt short), vacant] at walked
      cases walked
  | case6 must links here name rest plain short vacant more =>
      rw [walk_cons plain (Nat.le_of_not_lt short), vacant] at walked
      simp only [more, if_false] at walked
      cases walked
  | case7 must links here name rest plain short modified directory ih =>
      have short := Nat.le_of_not_lt short
      rw [walk_enter plain short directory] at walked
      exact .enter plain short directory (ih walked)
  | case8 must links here name rest plain short id content modified file last =>
      rw [walk_cons plain (Nat.le_of_not_lt short), file] at walked
      simp only [last] at walked
      cases walked
  | case9 must links here name rest plain short id content modified file more =>
      rw [walk_cons plain (Nat.le_of_not_lt short), file] at walked
      simp only [more, if_false] at walked
      cases walked
  | case10 must links here name rest plain short target link last => exact absurd last.2.1 (by simp)
  | case11 must here name rest plain short target link followed =>
      rw [walk_cons plain (Nat.le_of_not_lt short), link] at walked
      simp only [followed, if_false] at walked
      cases walked
  | case12 must here name rest plain short target link followed links ih =>
      have short := Nat.le_of_not_lt short
      rw [Nat.succ_eq_add_one, walk_through plain short link followed] at walked
      exact .through plain short link (ih walked)

theorem Reaches.walk (reaches : d.Reaches links here names there) (must : Bool) :
    ∃ m, d.walk true must links here names = .ok (.found there (.directory m)) := by
  induction reaches generalizing must with
  | stay directory => exact ⟨_, walk_nil directory⟩
  | up onward ih =>
      rw [walk_up]
      exact ih must
  | enter plain short directory onward ih =>
      rw [walk_enter plain short directory]
      exact ih must
  | through plain short link onward ih =>
      rw [walk_through plain short link (by simp)]
      exact ih _

theorem Reaches.directory (reaches : d.Reaches links here names there) :
    ∃ m, d.node? there = some (.directory m) := by
  induction reaches with
  | stay directory => exact ⟨_, directory⟩
  | up _ ih => exact ih
  | enter _ _ _ _ ih => exact ih
  | through _ _ _ _ ih => exact ih

/-- Every part of a walk to a directory leads to a directory. -/
theorem Reaches.initial (sound : d.Sound) (start : ∃ m, d.node? here = some (.directory m))
    (reaches : d.Reaches links here names there) {first : List Name}
    (parts : names = first ++ rest) : ∃ there', d.Reaches links here first there' := by
  induction reaches generalizing first with
  | @stay links here m directory =>
      obtain ⟨rfl, -⟩ := List.append_eq_nil_iff.1 parts.symm
      exact ⟨here, .stay directory⟩
  | @up links here there rest' onward ih =>
      obtain ⟨m, directory⟩ := start
      cases first with
      | nil => exact ⟨here, .stay directory⟩
      | cons name first =>
          obtain ⟨rfl, rfl⟩ := List.cons.inj parts
          have parent : ∃ m, d.node? here.tail = some (.directory m) := by
            cases here with
            | nil => exact ⟨m, directory⟩
            | cons name here => exact sound.upward directory
          obtain ⟨there', initial⟩ := ih parent rfl
          exact ⟨there', .up initial⟩
  | @enter links here there name rest' m plain short directory onward ih =>
      cases first with
      | nil => exact ⟨here, .stay start.choose_spec⟩
      | cons name' first =>
          obtain ⟨rfl, rfl⟩ := List.cons.inj parts
          obtain ⟨there', initial⟩ := ih ⟨m, directory⟩ rfl
          exact ⟨there', .enter plain short directory initial⟩
  | @through links here there name rest' target plain short link onward ih =>
      cases first with
      | nil => exact ⟨here, .stay start.choose_spec⟩
      | cons name' first =>
          obtain ⟨rfl, rfl⟩ := List.cons.inj parts
          have top : ∃ m, d.node? (if target.isAbsolute then [] else here) =
              some (.directory m) := by
            split
            · exact ⟨0, rfl⟩
            · exact start
          obtain ⟨there', initial⟩ := ih top (List.append_assoc _ _ _).symm
          exact ⟨there', .through plain short link initial⟩

/-- A walk to a directory, and on from there. -/
theorem Reaches.onward (reaches : d.Reaches links here names there) :
    ∃ left, ∀ (follow must : Bool) (more : List Name), more ≠ [] →
      d.walk follow must links here (names ++ more) = d.walk follow must left there more := by
  induction reaches with
  | @stay links here m directory => exact ⟨links, fun _ _ _ _ => rfl⟩
  | @up links here there rest onward ih =>
      obtain ⟨left, same⟩ := ih
      refine ⟨left, fun follow must more some_ => ?_⟩
      rw [List.cons_append, walk_up, same follow must more some_]
  | @enter links here there name rest m plain short directory onward ih =>
      obtain ⟨left, same⟩ := ih
      refine ⟨left, fun follow must more some_ => ?_⟩
      rw [List.cons_append, walk_enter plain short directory, same follow must more some_]
  | @through links here there name rest target plain short link onward ih =>
      obtain ⟨left, same⟩ := ih
      refine ⟨left, fun follow must more some_ => ?_⟩
      have inside : rest ++ more ≠ [] := by simp [some_]
      rw [List.cons_append, walk_through plain short link (by simp [some_]), ← List.append_assoc]
      simp only [inside, decide_false, Bool.false_and, Bool.or_false]
      exact same follow must more some_

end Walk

/-! ## Directories that host an index -/

/-- A path leads to a directory, whatever lies below that directory. -/
def Leads (d : Disk) (p : Path) (here : Address) : Prop :=
  ∀ d' : Disk, d'.workingDirectory = d.workingDirectory →
    (∀ a, ¬ Below here a → d'.node? a = d.node? a) →
      ∃ m, d'.locate true p = .ok (.found here (.directory m))

/-- The most bytes that are added to the path of an index. -/
def room : Nat := 128

/-- A path leads to a directory on a sound disk. No link lies below it, paths below it are not too
long for the system, and a path that is not absolute starts at a directory above it. -/
structure Hosts (d : Disk) (root : Path) (base : Address) : Prop where
  sound : d.Sound
  leads : d.Leads root base
  unlinked : ∀ {a : Address} {target : Path}, Below base a → d.node? a ≠ some (.link target)
  roomy : root.bytes.length + room ≤ maxPathLength
  grounded : root.isAbsolute = false →
    ¬ Below base d.workingDirectory ∧ ∃ m, d.node? d.workingDirectory = some (.directory m)

/-- Names that may stand below the path of an index. -/
structure Fit (names : List Name) : Prop where
  proper : ∀ name ∈ names, name.Proper
  some_ : names ≠ []
  short : Path.addedLength names ≤ room

instance (names : List Name) : Decidable (Fit names) :=
  decidable_of_iff ((∀ name ∈ names, name.Proper) ∧ names ≠ [] ∧ Path.addedLength names ≤ room)
    ⟨fun ⟨proper, some_, short⟩ => ⟨proper, some_, short⟩, fun fit => ⟨fit.proper, fit.some_, fit.short⟩⟩

/-- The address of names below an address. -/
abbrev addressOf (base : Address) (names : List Name) : Address := names.reverse ++ base

theorem addressOf_append (base : Address) (names : List Name) (name : Name) :
    addressOf base (names ++ [name]) = name :: addressOf base names := by
  simp [addressOf]

theorem below_addressOf {base : Address} {names : List Name} (some_ : names ≠ []) :
    Below base (addressOf base names) := ⟨names.reverse, by simpa using some_, rfl⟩

namespace Hosts

variable {d : Disk} {root : Path} {base : Address} {names : List Name} {follow : Bool}

/-- Changes below the directory leave it a host. -/
theorem of_agree {d' : Disk} (hosts : d.Hosts root base) (sound : d'.Sound)
    (still : d'.workingDirectory = d.workingDirectory)
    (outside : ∀ a, ¬ Below base a → d'.node? a = d.node? a)
    (unlinked : ∀ {a : Address} {target : Path}, Below base a → d'.node? a ≠ some (.link target)) :
    d'.Hosts root base where
  sound := sound
  leads := fun d'' same agree => hosts.leads d'' (same.trans still) fun a notBelow => by
    rw [agree a notBelow, outside a notBelow]
  unlinked := unlinked
  roomy := hosts.roomy
  grounded := fun relative => by
    obtain ⟨outside', directory⟩ := hosts.grounded relative
    rw [still, outside _ outside']
    exact ⟨outside', directory⟩

theorem located (hosts : d.Hosts root base) :
    ∃ m, d.locate true root = .ok (.found base (.directory m)) := hosts.leads d rfl fun _ _ => rfl

theorem path (hosts : d.Hosts root base) : root.bytes ≠ [] ∧ (0 : UInt8) ∉ root.bytes ∧
    d.Reaches maxLinks (if root.isAbsolute then [] else d.workingDirectory) root.components base := by
  obtain ⟨m, found⟩ := hosts.located
  rw [locate] at found
  split at found
  · cases found
  next some_ =>
    split at found
    · cases found
    next clean =>
      split at found
      · cases found
      · refine ⟨some_, ?_, reaches_of_walk found⟩
        simpa using clean

theorem directory (hosts : d.Hosts root base) : ∃ m, d.node? base = some (.directory m) := by
  obtain ⟨-, -, reaches⟩ := hosts.path
  exact reaches.directory

theorem short_below (hosts : d.Hosts root base) (fit : Fit names) :
    (root.below names).bytes.length ≤ maxPathLength := by
  obtain ⟨some_, -⟩ := hosts.path
  have added := Path.length_below_le fit.proper some_
  have roomy := hosts.roomy
  have fits := fit.short
  omega

/-- A path below the directory that is not too long leads where its names lead. -/
theorem locate_short (hosts : d.Hosts root base) (proper : ∀ name ∈ names, name.Proper) (more : names ≠ [])
    (short : (root.below names).bytes.length ≤ maxPathLength) :
    ∃ links, ∀ follow, d.locate follow (root.below names) = d.walk follow false links base names := by
  obtain ⟨some_, clean, reaches⟩ := hosts.path
  obtain ⟨links, onward⟩ := reaches.onward
  refine ⟨links, fun follow => ?_⟩
  rw [locate, if_neg (Path.below_ne_nil proper some_),
    if_neg (by simpa using Path.zero_not_mem_below proper some_ clean),
    if_neg (Nat.not_lt.2 short), Path.endsInSlash_below proper some_ more,
    Path.isAbsolute_below proper some_, Path.components_below proper some_]
  exact onward follow false names more

theorem locate_below (hosts : d.Hosts root base) (fit : Fit names) :
    ∃ links, ∀ follow, d.locate follow (root.below names) = d.walk follow false links base names :=
  hosts.locate_short fit.proper fit.some_ (hosts.short_below fit)

end Hosts

section Descent

variable {d : Disk} {base : Address} {follow : Bool} {links : Nat} {names : List Name}

theorem reaches_below (sound : d.Sound) (proper : ∀ name ∈ names, name.Proper) {m : Int}
    (directory : d.node? (addressOf base names) = some (.directory m)) :
    d.Reaches links base names (addressOf base names) := by
  induction names generalizing base with
  | nil => exact .stay directory
  | cons name names ih =>
      obtain ⟨-, -, plain, -, -, short⟩ := proper name (by simp)
      have shape : addressOf base (name :: names) = addressOf (name :: base) names := by simp [addressOf]
      rw [shape] at directory ⊢
      have here : ∃ m, d.node? (name :: base) = some (.directory m) := by
        by_cases last : names = []
        · subst last
          exact ⟨m, directory⟩
        · exact sound.ancestor (below_addressOf last) directory
      obtain ⟨m', here⟩ := here
      exact .enter plain short here (ih (fun n member => proper n (by simp [member])) directory)

/-- What a walk comes to at an address, if no link stands there. -/
def placeAt (d : Disk) (a : Address) : Place :=
  match d.node? a with
  | none => .vacant a
  | some node => .found a node

/-- Where a walk below a directory without links ends. -/
theorem walk_below (sound : d.Sound) {name : Name} {m : Int}
    (proper : ∀ n ∈ names ++ [name], n.Proper)
    (directory : d.node? (addressOf base names) = some (.directory m))
    (unlinked : ∀ target, d.node? (name :: addressOf base names) ≠ some (.link target)) :
    d.walk follow false links base (names ++ [name]) = .ok (d.placeAt (name :: addressOf base names)) := by
  obtain ⟨-, -, plain, -, -, short⟩ := proper name (by simp)
  have descent : d.Reaches links base names (addressOf base names) :=
    reaches_below sound (fun n member => proper n (by simp [member])) directory
  obtain ⟨left, onward⟩ := descent.onward
  rw [onward follow false [name] (by simp), walk_cons plain short, placeAt]
  cases occupied : d.node? (name :: addressOf base names) with
  | none => simp
  | some node =>
      cases node with
      | file id c m => simp
      | directory m => exact walk_nil occupied
      | link target => exact absurd occupied (unlinked target)

theorem walk_ne_found (unlinked : ∀ {a : Address} {target : Path}, Below base a →
      d.node? a ≠ some (.link target)) (proper : ∀ name ∈ names, name.Proper) (some_ : names ≠ [])
    (vacant : d.node? (addressOf base names) = none) (here : Address) (node : Node) :
    d.walk follow false links base names ≠ .ok (.found here node) := by
  induction names generalizing base with
  | nil => exact absurd rfl some_
  | cons name names ih =>
      obtain ⟨-, -, plain, -, -, short⟩ := proper name (by simp)
      have shape : addressOf base (name :: names) = addressOf (name :: base) names := by simp [addressOf]
      rw [shape] at vacant
      rw [walk_cons plain short]
      cases occupied : d.node? (name :: base) with
      | none =>
          simp only
          split <;> simp
      | some node' =>
          have more : names ≠ [] := by
            rintro rfl
            rw [show addressOf (name :: base) [] = name :: base from rfl, occupied] at vacant
            cases vacant
          cases node' with
          | file id c m => simp [more]
          | directory m =>
              exact ih (fun below => unlinked ((below_cons name base).trans below))
                (fun n member => proper n (by simp [member])) more vacant
          | link target => exact absurd occupied (unlinked (below_cons name base))

end Descent

/-! ## A directory of its own -/

section Name

variable {d : Disk} {name : Name} {m : Int}

/-- A directory right below the root of the disk hosts an index. -/
theorem Hosts.of_name (sound : d.Sound) (proper : name.Proper)
    (directory : d.node? [name] = some (.directory m))
    (unlinked : ∀ {a : Address} {target : Path}, Below [name] a → d.node? a ≠ some (.link target)) :
    d.Hosts ⟨slash :: name⟩ [name] where
  sound := sound
  leads d' still agree := by
    obtain ⟨solid, notDot, plain, unslashed, unended, short⟩ := proper
    have there : d'.node? [name] = some (.directory m) := by
      rw [agree _ fun below => below.ne rfl]
      exact directory
    have parts : Path.pieces (slash :: name) = [[], name] := by
      rw [Path.pieces, if_pos rfl, Path.pieces_of_unslashed unslashed]
    have components : Path.components ⟨slash :: name⟩ = [name] := by
      rw [Path.components, parts]
      simp [solid, notDot]
    have clean : ¬ (slash :: name).contains 0 = true := by simp [slash, unended]
    have fits : ¬ maxPathLength < (slash :: name).length := by
      simp only [List.length_cons, maxPathLength, maxNameLength] at short ⊢
      omega
    have start : (if (⟨slash :: name⟩ : Path).isAbsolute then [] else d'.workingDirectory) = [] :=
      rfl
    refine ⟨m, ?_⟩
    rw [locate, if_neg (List.cons_ne_nil _ _), if_neg clean, if_neg fits, components, start,
      walk_enter plain short there, walk_nil there]
  unlinked := unlinked
  roomy := by
    obtain ⟨-, -, -, -, -, short⟩ := proper
    simp only [List.length_cons, maxPathLength, maxNameLength, room] at short ⊢
    omega
  grounded relative := by cases relative

theorem node?_empty {a : Address} (proper : a ≠ []) : Disk.empty.node? a = none := by
  rw [node?_of_ne proper]
  rfl

theorem sound_empty : Disk.empty.Sound where
  distinct := .nil
  rooted := by simp [Disk.empty]
  upward occupied := by rw [node?_empty (by simp)] at occupied; cases occupied
  identified {a _ _ _ _ _ _} file _ := by
    cases a with
    | nil => cases file
    | cons name here => rw [node?_empty (by simp)] at file; cases file
  numbered {a _ _ _} file := by
    cases a with
    | nil => cases file
    | cons name here => rw [node?_empty (by simp)] at file; cases file

/-- A disk with one directory. -/
def single (name : Name) : Disk := Disk.empty.put [name] (.directory 0)

theorem single_bare {a : Address} (below : Below [name] a) : (single name).node? a = none := by
  rw [single, node?_put (by simp), if_neg below.ne, node?_empty below.ne_nil]

theorem single_hosts (proper : name.Proper) : (single name).Hosts ⟨slash :: name⟩ [name] := by
  have sound : (single name).Sound := sound_empty.put_directory (node?_empty (by simp)) rfl
  have directory : (single name).node? [name] = some (.directory 0) := by
    rw [single, node?_put (by simp), if_pos rfl]
  exact .of_name sound proper directory fun below => by simp [single_bare below]

end Name

end Disk

end SymbolIndex
