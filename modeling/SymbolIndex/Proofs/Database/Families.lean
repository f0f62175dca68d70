import SymbolIndex.Proofs.Database.Symbols

/-!
# Proofs.Database.Families — members and files as rows with rows of their own

A member and a file are one row each, and their references are rows of another table that name the row
they belong to by its id. `Family` says that two such tables list the values of a partial function;
writing replaces the rows that belong to one row (`Family.upsert`), removing takes them away
(`Family.delete`), and no other row is affected since ids are distinct.
-/

namespace SymbolIndex

set_option autoImplicit false

section Family

variable {ρ χ κ α : Type}

/-- The rows list a partial function; `head` relates a row and its value, `body` the rows of the other
table that belong to it. -/
structure Family (idOf : ρ → Nat) (parentOf : χ → Nat) (keyOf : ρ → κ) (head : ρ → α → Prop)
    (body : Nat → List χ → α → Prop) (rows : List ρ) (children : List χ) (find : κ → Option α) :
    Prop where
  ids : (rows.map idOf).Nodup
  lists : Lists rows keyOf (fun row a =>
    head row a ∧ body (idOf row) (children.filter fun c => parentOf c == idOf row) a) find

namespace Family

variable {idOf : ρ → Nat} {parentOf : χ → Nat} {keyOf : ρ → κ} {head : ρ → α → Prop}
  {body : Nat → List χ → α → Prop} {rows : List ρ} {children : List χ} {find find' : κ → Option α}

theorem empty : Family idOf parentOf keyOf head body [] [] (fun _ => none) :=
  ⟨by simp, .empty⟩

/-- Rows that belong to one row are replaced, and those of another row are not touched. -/
theorem filter_replaced {id id' : Nat} (other : id' ≠ id) {added : List χ}
    (own : ∀ c ∈ added, parentOf c = id) :
    ((children.filter (fun c => !(parentOf c == id)) ++ added).filter fun c => parentOf c == id') =
      children.filter fun c => parentOf c == id' := by
  have none_ : added.filter (fun c => parentOf c == id') = [] := by
    rw [List.filter_eq_nil_iff]
    intro c member
    simp [own c member, Ne.symm other]
  rw [List.filter_append, none_, List.append_nil, List.filter_filter]
  refine List.filter_congr fun c _ => ?_
  by_cases mine : parentOf c = id'
  · simp [mine, other]
  · simp [mine]

theorem filter_own {id : Nat} {added : List χ} (own : ∀ c ∈ added, parentOf c = id) :
    ((children.filter (fun c => !(parentOf c == id)) ++ added).filter fun c => parentOf c == id) =
      added := by
  have none_ : (children.filter (fun c => !(parentOf c == id))).filter
      (fun c => parentOf c == id) = [] := by
    rw [List.filter_filter, List.filter_eq_nil_iff]
    simp
  have all : added.filter (fun c => parentOf c == id) = added := by
    rw [List.filter_eq_self]
    intro c member
    simp [own c member]
  rw [List.filter_append, none_, all, List.nil_append]

/-- Put a value at a key: its row is changed or added, and the rows that belong to it are replaced. -/
theorem upsert [DecidableEq κ] (family : Family idOf parentOf keyOf head body rows children find)
    {k : κ} {a : α} {p : ρ → Bool} {change : ρ → ρ} {fresh : ρ} {added : Nat → List χ}
    (effect : ∀ k', find' k' = if k = k' then some a else find k')
    (test : ∀ row ∈ rows, p row = true ↔ keyOf row = k) (hit : p fresh = true)
    (stays : ∀ r, p r = true → p (change r) = true) (kept : ∀ r, keyOf (change r) = keyOf r)
    (same : ∀ r, idOf (change r) = idOf r) (freshKey : keyOf fresh = k)
    (freshId : idOf fresh = nextId (rows.map idOf))
    (changed : ∀ row ∈ rows, keyOf row = k → head (change row) a) (headed : head fresh a)
    (own : ∀ id, ∀ c ∈ added id, parentOf c = id) (bodied : ∀ id, body id (added id) a) :
    ∃ row, (SymbolIndex.upsert p change fresh rows).find? p = some row ∧
      Family idOf parentOf keyOf head body (SymbolIndex.upsert p change fresh rows)
        (children.filter (fun c => !(parentOf c == idOf row)) ++ added (idOf row)) find' := by
  obtain ⟨row, found, origin⟩ := @find?_upsert ρ p change fresh rows stays hit
  have newId : (∀ r ∈ rows, p r = false) → idOf fresh ∉ rows.map idOf := by
    intro _ member
    rw [freshId] at member
    exact Nat.lt_irrefl _ (lt_nextId member)
  refine ⟨row, found, nodup_upsert family.ids same newId, ?_⟩
  have filled : ∀ row', idOf row' = idOf row → body (idOf row')
      ((children.filter (fun c => !(parentOf c == idOf row)) ++ added (idOf row)).filter
        fun c => parentOf c == idOf row') a := by
    intro row' equal
    rw [equal, filter_own (own _)]
    exact bodied _
  refine Lists.of_upsert family.lists.distinct ?_ (fun k' b _ there => family.lists.complete k' b there)
    effect test kept ?_ freshKey ?_
  · intro row' member other
    obtain ⟨b, there, shaped, rest⟩ := family.lists.listed row' member
    have apart : idOf row' ≠ idOf row := by
      rcases origin with ⟨r, member', hit', rfl⟩ | ⟨-, rfl⟩
      · rw [same]
        intro equal
        have one := List.inj_on_of_nodup_map family.ids member member' equal
        exact other (one ▸ (test r member').1 hit')
      · rw [freshId]
        exact Nat.ne_of_lt (lt_nextId (List.mem_map_of_mem member))
    exact ⟨b, there, shaped, by rw [filter_replaced apart (own _)]; exact rest⟩
  · intro row' member key
    refine ⟨changed row' member key, filled (change row') ?_⟩
    rcases origin with ⟨r, member', hit', rfl⟩ | ⟨none_, -⟩
    · have one := family.lists.eq_of_key member member' (key.trans ((test r member').1 hit').symm)
      rw [one]
    · have hit' := (test row' member).2 key
      rw [none_ row' member] at hit'
      cases hit'
  · intro none_
    refine ⟨headed, filled fresh ?_⟩
    rcases origin with ⟨r, member', hit', rfl⟩ | ⟨-, rfl⟩
    · exact absurd ((test r member').1 hit') (none_ r member')
    · rfl

/-- Remove the value at a key: its row and the rows that belong to it. -/
theorem delete [DecidableEq κ] (family : Family idOf parentOf keyOf head body rows children find)
    {k : κ} {p : ρ → Bool} (effect : ∀ k', find' k' = if k = k' then none else find k')
    (test : ∀ row ∈ rows, p row = true ↔ keyOf row = k) :
    Family idOf parentOf keyOf head body (rows.filter fun r => !p r)
      (children.filter fun c => !((rows.filter p).map idOf).contains (parentOf c)) find' := by
  refine ⟨family.ids.sublist (List.filter_sublist.map _), family.lists.delete effect test ?_⟩
  rintro row member other a ⟨shaped, rest⟩
  refine ⟨shaped, ?_⟩
  have apart : idOf row ∉ (rows.filter p).map idOf := by
    rw [List.mem_map]
    rintro ⟨r, hit, equal⟩
    obtain ⟨member', hit⟩ := List.mem_filter.1 hit
    have one := List.inj_on_of_nodup_map family.ids member' member equal
    exact other (one ▸ (test r member').1 hit)
  have untouched : (children.filter fun c =>
      !((rows.filter p).map idOf).contains (parentOf c)).filter (fun c => parentOf c == idOf row) =
        children.filter fun c => parentOf c == idOf row := by
    rw [List.filter_filter]
    refine List.filter_congr fun c _ => ?_
    by_cases mine : parentOf c = idOf row
    · simp only [mine, beq_self_eq_true, Bool.true_and, Bool.not_eq_true']
      simpa using apart
    · simp [mine]
  rw [untouched]
  exact rest

end Family

end Family

namespace Records

variable {db : Database} {l l' : Ledger}

/-! ## Members -/

/-- The identifier of the member in a row. -/
def memberKeyOf (row : MemberRow) : String := row.memberType ++ "#" ++ row.memberName

/-- The row of a member. -/
def MemberHead (row : MemberRow) (r : Record) : Prop :=
  ∃ m, r = .member m ∧ row.memberType = m.memberType.name ∧ row.memberName = m.memberName ∧
    row.containerType = m.containerType

/-- The rows of the files that use a member. -/
def MemberBody (_ : Nat) (rows : List MemberReferenceRow) (r : Record) : Prop :=
  ∃ m, r = .member m ∧ rows.map (·.filePath) = m.references.toList

/-- Two tables list the members of a ledger. -/
def MembersHold (members : Option (List MemberRow)) (references : Option (List MemberReferenceRow))
    (l : Ledger) : Prop :=
  ∃ rows children, members = some rows ∧ references = some children ∧
    Family (·.id) (·.memberId) memberKeyOf MemberHead MemberBody rows children
      (fun identifier => l.get? ⟨.member, identifier⟩)

theorem MembersHold.congr {members : Option (List MemberRow)}
    {references : Option (List MemberReferenceRow)} (hold : MembersHold members references l)
    (same : ∀ identifier, l'.get? ⟨.member, identifier⟩ = l.get? ⟨.member, identifier⟩) :
    MembersHold members references l' := by
  obtain ⟨rows, children, there, there', family⟩ := hold
  exact ⟨rows, children, there, there', family.ids, family.lists.congr same⟩

theorem memberKeyOf_head {row : MemberRow} {m : MemberRecord}
    (type : row.memberType = m.memberType.name) (name : row.memberName = m.memberName) :
    memberKeyOf row = m.identifier := by
  rw [memberKeyOf, type, name]
  rfl

theorem isMember_iff {row : MemberRow} {r : Record} (head : MemberHead row r) (kind : MemberType)
    (name : String) :
    isMember kind name row = true ↔ memberKeyOf row = RecordKey.memberIdentifier kind name := by
  obtain ⟨m, -, type, same, -⟩ := head
  rw [memberKeyOf_head type same, MemberRecord.identifier, RecordKey.memberIdentifier_inj, isMember,
    type, same, Bool.and_eq_true, beq_iff_eq, beq_iff_eq]
  refine and_congr_left' ⟨fun names => ?_, fun kinds => by rw [kinds]⟩
  exact Option.some.inj (by rw [← MemberType.ofName?_name, names, MemberType.ofName?_name])

theorem ofIdentifier_eq_ok {identifier : String} {member : MemberRecord}
    (parsed : MemberRecord.ofIdentifier identifier = .ok member) :
    identifier = member.identifier ∧ member.memberName ≠ "" ∧
      member = { memberType := member.memberType, memberName := member.memberName } := by
  obtain ⟨kind, name, some_, rfl, rfl⟩ := MemberRecord.ofIdentifier_eq_ok.1 parsed
  exact ⟨rfl, some_, rfl⟩

/-- An identifier that names no member is not looked up. -/
theorem getMember_unparsable {identifier : String} {e : ParseError}
    (unparsable : MemberRecord.ofIdentifier identifier = .error e) :
    getMember identifier db = .ok (none, db) := by
  rw [getMember, unparsable]
  rfl

theorem getMember_ok (hold : MembersHold db.members db.memberReferences l) {identifier : String}
    {member : MemberRecord} (parsed : MemberRecord.ofIdentifier identifier = .ok member) :
    getMember identifier db = .ok (l.get? ⟨.member, identifier⟩, db) := by
  obtain ⟨rows, children, there, there', family⟩ := hold
  obtain ⟨rfl, -, plain⟩ := ofIdentifier_eq_ok parsed
  have test : ∀ row ∈ rows, isMember member.memberType member.memberName row = true ↔
      memberKeyOf row = member.identifier := by
    intro row listed
    obtain ⟨r, -, head, -⟩ := family.lists.listed row listed
    exact isMember_iff head _ _
  rw [getMember, parsed]
  simp only
  rw [Transaction.bind_ok (Table.rows_ok there)]
  cases found : l.get? ⟨.member, member.identifier⟩ with
  | none => rw [family.lists.find?_none found test]; rfl
  | some r =>
      obtain ⟨row, -, hit, key, ⟨m, rfl, type, name, container⟩, m', same, body⟩ :=
        family.lists.find?_some found test
      obtain rfl : m = m' := Record.member.inj same
      rw [memberKeyOf_head type name, MemberRecord.identifier, MemberRecord.identifier,
        RecordKey.memberIdentifier_inj] at key
      rw [hit]
      simp only
      rw [Transaction.bind_ok (Table.rows_ok there'), Transaction.pure_apply, body,
        SortedSet.ofList_toList, container, ← key.1, ← key.2]

/-- The row that is added for a member. -/
def memberRow (id : Nat) (m : MemberRecord) : MemberRow :=
  ⟨id, m.memberType.name, m.memberName, m.containerType⟩

/-- A row after its member was written again. -/
def updatedMember (m : MemberRecord) (r : MemberRow) : MemberRow :=
  { r with containerType := m.containerType }

theorem writeMember_ok (hold : MembersHold db.members db.memberReferences l) (m : MemberRecord) :
    ∃ rows children, writeMember m db =
        .ok ((), { db with members := rows, memberReferences := children }) ∧
      MembersHold rows children (l.write (.member m)) := by
  obtain ⟨rows, children, there, there', family⟩ := hold
  have test : ∀ row ∈ rows, isMember m.memberType m.memberName row = true ↔
      memberKeyOf row = m.identifier := by
    intro row listed
    obtain ⟨r, -, head, -⟩ := family.lists.listed row listed
    exact isMember_iff head _ _
  have effect : ∀ identifier, (l.write (.member m)).get? ⟨.member, identifier⟩ =
      if m.identifier = identifier then some (.member m) else l.get? ⟨.member, identifier⟩ := by
    intro identifier
    rw [Ledger.get?_write rfl]
    refine if_congr ?_ rfl rfl
    simp [Record.key, Record.recordType, Record.identifier]
  have own : ∀ id, ∀ c ∈ m.references.toList.map (fun uri => (⟨id, uri⟩ : MemberReferenceRow)),
      c.memberId = id := by
    intro id c member
    obtain ⟨uri, -, rfl⟩ := List.mem_map.1 member
    rfl
  have bodied : ∀ id, MemberBody id
      (m.references.toList.map (fun uri => (⟨id, uri⟩ : MemberReferenceRow))) (.member m) :=
    fun id => ⟨m, rfl, by simp [Function.comp_def]⟩
  have changed : ∀ row ∈ rows, memberKeyOf row = m.identifier →
      MemberHead (updatedMember m row) (.member m) := by
    intro row listed key
    obtain ⟨r, -, ⟨m', -, type, name, -⟩, -⟩ := family.lists.listed row listed
    rw [memberKeyOf_head type name, MemberRecord.identifier, MemberRecord.identifier,
      RecordKey.memberIdentifier_inj] at key
    exact ⟨m, rfl, type.trans (by rw [key.1]), name.trans key.2, rfl⟩
  have hit : isMember m.memberType m.memberName (memberRow (nextId (rows.map (·.id))) m) = true := by
    simp [isMember, memberRow]
  have stays : ∀ r, isMember m.memberType m.memberName r = true →
      isMember m.memberType m.memberName (updatedMember m r) = true := fun _ hit => hit
  obtain ⟨row, found, family'⟩ := family.upsert effect test hit stays (fun r => rfl) (fun r => rfl)
    rfl rfl changed ⟨m, rfl, rfl, rfl, rfl⟩ own bodied
  refine ⟨some _, some _, ?_, _, _, rfl, rfl, family'⟩
  rw [writeMember, Transaction.bind_ok (Table.modify_ok there _),
    Transaction.bind_ok (Table.rows_ok rfl)]
  have first : (upsert (isMember m.memberType m.memberName)
      (fun r => { r with containerType := m.containerType })
      ⟨nextId (rows.map (·.id)), m.memberType.name, m.memberName, m.containerType⟩ rows).find?
        (isMember m.memberType m.memberName) = some row := found
  rw [first]
  simp only
  rw [Transaction.bind_ok (Table.delete_ok there' _)]
  exact Table.modify_ok rfl _

/-- An identifier that names no member is not removed. -/
theorem removeMember_unparsable {identifier : String} {e : ParseError}
    (unparsable : MemberRecord.ofIdentifier identifier = .error e) :
    removeMember identifier db = .ok ((), db) := by
  rw [removeMember, unparsable]
  rfl

theorem removeMember_ok (hold : MembersHold db.members db.memberReferences l) {identifier : String}
    {member : MemberRecord} (parsed : MemberRecord.ofIdentifier identifier = .ok member) :
    ∃ rows children, removeMember identifier db =
        .ok ((), { db with members := rows, memberReferences := children }) ∧
      MembersHold rows children (l.remove ⟨.member, identifier⟩) := by
  obtain ⟨rows, children, there, there', family⟩ := hold
  obtain ⟨rfl, -, -⟩ := ofIdentifier_eq_ok parsed
  have effect : ∀ identifier', (l.remove ⟨.member, member.identifier⟩).get? ⟨.member, identifier'⟩ =
      if member.identifier = identifier' then none else l.get? ⟨.member, identifier'⟩ := by
    intro identifier'
    rw [Ledger.get?_remove]
    exact if_congr (by simp) rfl rfl
  have test : ∀ row ∈ rows, isMember member.memberType member.memberName row = true ↔
      memberKeyOf row = member.identifier := by
    intro row listed
    obtain ⟨r, -, head, -⟩ := family.lists.listed row listed
    exact isMember_iff head _ _
  refine ⟨some _, some _, ?_, _, _, rfl, rfl, family.delete effect test⟩
  rw [removeMember, parsed]
  simp only
  rw [Transaction.bind_ok (Table.rows_ok there), Transaction.bind_ok (Table.delete_ok there' _)]
  exact Table.delete_ok there _

/-! ## Files -/

/-- The row of a file. -/
def FileHead (row : FileRow) (r : Record) : Prop :=
  ∃ f, r = .file f ∧ row.filePath = f.path ∧ row.updatedAt = f.lastIndexed

/-- The rows of the references of a file. -/
def FileBody (id : Nat) (rows : List FileReferenceRow) (r : Record) : Prop :=
  ∃ f, r = .file f ∧ rows = referenceRows id 0 f.references

/-- Two tables list the files of a ledger. -/
def FilesHold (files : Option (List FileRow)) (references : Option (List FileReferenceRow))
    (l : Ledger) : Prop :=
  ∃ rows children, files = some rows ∧ references = some children ∧
    Family (·.id) (·.fileId) (·.filePath) FileHead FileBody rows children
      (fun path => l.get? ⟨.file, path⟩)

theorem FilesHold.congr {files : Option (List FileRow)} {references : Option (List FileReferenceRow)}
    (hold : FilesHold files references l)
    (same : ∀ path, l'.get? ⟨.file, path⟩ = l.get? ⟨.file, path⟩) : FilesHold files references l' := by
  obtain ⟨rows, children, there, there', family⟩ := hold
  exact ⟨rows, children, there, there', family.ids, family.lists.congr same⟩

/-- The rows of references stand in the order of their positions. -/
theorem inPosition_referenceRows (id position : Nat) (references : List RecordReference) :
    inPosition (referenceRows id position references) = referenceRows id position references := by
  induction references generalizing position with
  | nil => rfl
  | cons r rest ih =>
      have step := ih (position + 1)
      rw [inPosition] at step
      rw [referenceRows, inPosition, List.foldr_cons, step]
      cases rest with
      | nil => rfl
      | cons next rest =>
          rw [referenceRows, insertPosition, if_pos (Nat.le_succ position)]

theorem referenceOf_rows (id position : Nat) (references : List RecordReference) :
    (referenceRows id position references).mapM referenceOf = .ok references := by
  induction references generalizing position with
  | nil => rfl
  | cons r rest ih =>
      have type : RecordType.parse r.recordType.name = .ok r.recordType := by
        rw [RecordType.parse, RecordType.ofName?_name]
      rw [referenceRows, List.mapM_cons, referenceOf, type, ih]
      rfl

theorem getFile_ok (hold : FilesHold db.files db.fileReferences l) (path : String) :
    getFile path db = .ok (l.get? ⟨.file, path⟩, db) := by
  obtain ⟨rows, children, there, there', family⟩ := hold
  have test : ∀ row ∈ rows, (row.filePath == path) = true ↔ row.filePath = path :=
    fun _ _ => beq_iff_eq
  rw [getFile, Transaction.bind_ok (Table.rows_ok there)]
  cases found : l.get? ⟨.file, path⟩ with
  | none => rw [family.lists.find?_none found test]; rfl
  | some r =>
      obtain ⟨row, -, hit, key, ⟨f, rfl, same, stamp⟩, f', equal, body⟩ :=
        family.lists.find?_some found test
      obtain rfl : f = f' := Record.file.inj equal
      rw [hit]
      simp only
      rw [Transaction.bind_ok (Table.rows_ok there'), body, inPosition_referenceRows, referenceOf_rows,
        Transaction.bind_ok (liftExcept_ok _ _), Transaction.pure_apply, ← key, same, stamp]

/-- The row that is added for a file. -/
def fileRow (id : Nat) (f : FileRecord) : FileRow := ⟨id, f.path, f.lastIndexed⟩

/-- A row after its file was written again. -/
def updatedFile (f : FileRecord) (r : FileRow) : FileRow := { r with updatedAt := f.lastIndexed }

theorem fileId_referenceRows {id position : Nat} {references : List RecordReference}
    {c : FileReferenceRow} (member : c ∈ referenceRows id position references) : c.fileId = id := by
  induction references generalizing position with
  | nil => cases member
  | cons r rest ih =>
      rcases List.mem_cons.1 member with rfl | member
      · rfl
      · exact ih member

theorem writeFile_ok (hold : FilesHold db.files db.fileReferences l) (f : FileRecord) :
    ∃ rows children, writeFile f db =
        .ok ((), { db with files := rows, fileReferences := children }) ∧
      FilesHold rows children (l.write (.file f)) := by
  obtain ⟨rows, children, there, there', family⟩ := hold
  have test : ∀ row ∈ rows, (row.filePath == f.path) = true ↔ row.filePath = f.path :=
    fun _ _ => beq_iff_eq
  have effect : ∀ path, (l.write (.file f)).get? ⟨.file, path⟩ =
      if f.path = path then some (.file f) else l.get? ⟨.file, path⟩ := by
    intro path
    rw [Ledger.get?_write rfl]
    refine if_congr ?_ rfl rfl
    simp [Record.key, Record.recordType, Record.identifier]
  have hit : ((fileRow (nextId (rows.map (·.id))) f).filePath == f.path) = true := by simp [fileRow]
  have stays : ∀ r : FileRow, (r.filePath == f.path) = true →
      ((updatedFile f r).filePath == f.path) = true := fun _ hit => hit
  obtain ⟨row, found, family'⟩ := family.upsert effect test hit stays (fun r => rfl) (fun r => rfl)
    rfl rfl (fun row _ key => ⟨f, rfl, key, rfl⟩) ⟨f, rfl, rfl, rfl⟩
    (fun id c member => fileId_referenceRows member) (fun id => ⟨f, rfl, rfl⟩)
  refine ⟨some _, some _, ?_, _, _, rfl, rfl, family'⟩
  rw [writeFile, Transaction.bind_ok (Table.modify_ok there _),
    Transaction.bind_ok (Table.rows_ok rfl)]
  have first : (upsert (fun r : FileRow => r.filePath == f.path)
      (fun r => { r with updatedAt := f.lastIndexed })
      ⟨nextId (rows.map (·.id)), f.path, f.lastIndexed⟩ rows).find?
        (fun r => r.filePath == f.path) = some row := found
  rw [first]
  simp only
  rw [Transaction.bind_ok (Table.delete_ok there' _)]
  exact Table.modify_ok rfl _

theorem removeFile_ok (hold : FilesHold db.files db.fileReferences l) (path : String) :
    ∃ rows children, removeFile path db =
        .ok ((), { db with files := rows, fileReferences := children }) ∧
      FilesHold rows children (l.remove ⟨.file, path⟩) := by
  obtain ⟨rows, children, there, there', family⟩ := hold
  have test : ∀ row ∈ rows, (row.filePath == path) = true ↔ row.filePath = path :=
    fun _ _ => beq_iff_eq
  have effect : ∀ path', (l.remove ⟨.file, path⟩).get? ⟨.file, path'⟩ =
      if path = path' then none else l.get? ⟨.file, path'⟩ := by
    intro path'
    rw [Ledger.get?_remove]
    exact if_congr (by simp) rfl rfl
  refine ⟨some _, some _, ?_, _, _, rfl, rfl, family.delete effect test⟩
  rw [removeFile, Transaction.bind_ok (Table.rows_ok there),
    Transaction.bind_ok (Table.delete_ok there' _)]
  exact Table.delete_ok there _

end Records

end SymbolIndex
