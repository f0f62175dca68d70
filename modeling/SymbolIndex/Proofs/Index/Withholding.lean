import SymbolIndex.Proofs.Index.Document
import SymbolIndex.Proofs.Search.Persisted
import SymbolIndex.Proofs.System.Through

/-!
# Proofs.Index.Withholding — nothing is written while a document is applied

The buffers of an indexer do not hand over on their own (`IndexState.Withholds`), so a write to either makes no call at
all, however many of them wait already. A lookup reads what it needs and leaves the disk and the database alone. These
are all the calls there are while a document is applied, but for one reading of the clock: at every point of it the
store and what the search index keeps are what they were before (`Stands.apply_withholds`).
-/

namespace SymbolIndex

open Action (outcome Stays)

set_option autoImplicit false

/-! ## Looking up -/

namespace Script

variable {α : Type} {P Q : World → Prop} {s : Script α} {w : World}

theorem Through.mono (through : s.Through P w) (weaker : ∀ w, P w → Q w) : s.Through Q w := by
  induction s generalizing w with
  | done a => exact weaker _ through
  | call request next ih => exact ⟨weaker _ through.1, ih _ through.2⟩

end Script

namespace FileStore

variable {w : World}

/-- To read an entry that is whole, or missing, is to come through no other world. -/
theorem through_readEntry {path : Path} (same : ((readEntry path).run w).2 = w) :
    (readEntry path).Through (· = w) w := by
  have asked : (Script.ask (.read path)).run w = (w.disk.read path, w) := rfl
  rw [readEntry, Script.run_bind_of asked] at same
  rw [readEntry, Script.through_bind, asked]
  refine ⟨⟨rfl, rfl⟩, ?_⟩
  cases answer : w.disk.read path with
  | error e => rfl
  | ok bytes =>
      rw [answer] at same
      simp only at same ⊢
      generalize (Text.decode? bytes).bind Record.decode? = entry at same ⊢
      cases entry with
      | some record => rfl
      | none => exact ⟨rfl, same⟩

variable {S : String → Prop} {root : Path} {base : Address} {l : Ledger} {key : RecordKey}

theorem through_get (shelved : Shelved S root base w.disk l) (distinct : Sha256.DistinctOn S)
    (used : S key.identifier) : ((ofRoot root).get key).Through (· = w) w := by
  have read := readEntry_run shelved distinct used
  rw [FileStore.get, Script.through_bind, read]
  refine ⟨through_readEntry (by rw [read]), ?_⟩
  cases found : l.get? key with
  | none => rfl
  | some r =>
      simp only
      rw [if_pos (shelved.keyed key r found)]
      rfl

end FileStore

namespace Site.Carries

variable {site : Site} {l : Ledger} {w w' : World} {key : RecordKey}

/-- To look up a record is to come through no other world. -/
theorem through_get (carries : site.Carries l w) (used : site.used key.identifier) (legible : key.Legible) :
    (site.store.get key).run.Through (· = w) w := by
  have looked := carries.get_ok used legible
  obtain ⟨_ | _, root, base, S, distinct⟩ := site
  · have read := FileStore.through_get carries (distinct rfl) used
    exact (Script.through_bind _ _ w).2 ⟨read, read.last⟩
  · exact ⟨rfl, congrArg Prod.snd looked⟩

theorem unwritten (carries : site.Carries l w) (same : w.Unwritten w') : site.Carries l w' := by
  obtain ⟨disk, clock, database⟩ := w'
  obtain ⟨rfl, rfl⟩ := same
  obtain ⟨_ | _, root, base, S, distinct⟩ := site <;> exact carries

end Site.Carries

/-! ## Writing -/

/-- What waits in the buffers of an indexer waits until it is handed over, and the file of a search index holds the
entries in memory. -/
structure IndexState.Withholds (root : Path) (d : Disk) (s : IndexState) : Prop where
  buffer : s.buffer.autoFlush = false
  search : s.search.autoFlush = false
  synced : s.search.Synced root d

/-- A write to a buffer that does not hand over on its own makes no call. -/
theorem Buffer.write_waits {b : Buffer} (waits : b.autoFlush = false) (inner : RecordStore) (r : Record) :
    ∃ b', Buffer.write inner r b = .done (.ok (), b') ∧ b'.autoFlush = false := by
  rw [Buffer.write]
  cases r.isSpeculative with
  | true => exact ⟨b, rfl, waits⟩
  | false =>
      refine ⟨b.insert r, ?_, waits⟩
      show (if (b.insert r).autoFlush && (b.insert r).isFull then Buffer.flush inner else pure ()) (b.insert r) = _
      rw [show (b.insert r).autoFlush = false from waits]
      rfl

theorem FileIndex.write_waits {i : FileIndex} (waits : i.autoFlush = false) (r : Record) :
    ∃ i', FileIndex.write r i = .done (.ok (), i') ∧ i'.autoFlush = false ∧ i'.entries = i.entries := by
  rw [FileIndex.write]
  cases SearchEntry.ofRecord? r with
  | none => exact ⟨i, rfl, waits, rfl⟩
  | some e =>
      refine ⟨i.enqueue (.write e), ?_, waits, rfl⟩
      show (if (i.enqueue (.write e)).autoFlush && (i.enqueue (.write e)).isFull then FileIndex.flush
        else pure ()) (i.enqueue (.write e)) = _
      rw [show (i.enqueue (.write e)).autoFlush = false from waits]
      rfl

theorem TableIndex.write_waits {i : TableIndex} (waits : i.autoFlush = false) (r : Record) :
    ∃ i', TableIndex.write r i = .done (.ok (), i') ∧ i'.autoFlush = false := by
  rw [TableIndex.write]
  cases SearchEntry.ofRecord? r with
  | none => exact ⟨i, rfl, waits⟩
  | some e =>
      let i' : TableIndex := { i with pending := i.pending ++ [e] }
      refine ⟨i', ?_, waits⟩
      show (if i'.autoFlush && i'.isFull then TableIndex.flush else pure ()) i' = _
      rw [show i'.autoFlush = false from waits]
      rfl

/-- A write to a search index that does not hand over on its own makes no call. -/
theorem SearchIndex.write_waits {index : SearchIndex} (waits : index.autoFlush = false) (r : Record) {root : Path}
    {d : Disk} (synced : index.Synced root d) :
    ∃ index', SearchIndex.write r index = .done (.ok (), index') ∧ index'.autoFlush = false ∧ index'.Synced root d := by
  cases index with
  | file i =>
      obtain ⟨i', done, waits', same⟩ := FileIndex.write_waits waits r
      refine ⟨.file i', ?_, waits', ?_⟩
      · show (FileIndex.write r i).bind _ = _
        rw [done]
        rfl
      · show FileIndex.loaded root d = .ok i'.entries
        rw [same]
        exact synced
  | table i =>
      obtain ⟨i', done, waits'⟩ := TableIndex.write_waits waits r
      refine ⟨.table i', ?_, waits', trivial⟩
      show (TableIndex.write r i).bind _ = _
      rw [done]
      rfl

namespace Site

variable {site : Site} {x : Indexer} {l : Ledger} {s : IndexState} {w₀ w : World} {key : RecordKey} {g : Gathered}
  {uri identifier : String} {r : Record} {records : List Record} {h : Holdings}

/-- A run writes nothing, and what waits goes on waiting. -/
abbrev Withholds {α : Type} (site : Site) (w₀ : World) (a : Indexed α) (s : IndexState) (w : World) : Prop :=
  a.Stays w₀.Unwritten (·.Withholds site.root w₀.disk) s w

section Steps

variable (at_ : x.At site) (carries : site.Carries l w₀) (world : w₀.Unwritten w)
  (state : s.Withholds site.root w₀.disk)

include world state

theorem withholds_writeEntry (r : Record) : site.Withholds w₀ (Indexer.onSearch (SearchIndex.write r)) s w := by
  obtain ⟨i, done, waits, synced⟩ := SearchIndex.write_waits state.search r state.synced
  refine .within ⟨?_, ?_⟩
  · rw [done]
    exact world
  · rw [outcome, done]
    exact ⟨state.buffer, waits, synced⟩

theorem withholds_write (r : Record) : site.Withholds w₀ (x.write r) s w := by
  obtain ⟨b, done, waits⟩ := Buffer.write_waits state.buffer x.store r
  show site.Withholds w₀ (Indexer.onBuffer (Buffer.write x.store r)) s w
  refine .within ⟨?_, ?_⟩
  · rw [done]
    exact world
  · rw [outcome, done]
    exact ⟨waits, state.search, state.synced⟩

theorem withholds_writeSymbol (g : Gathered) (r : Record) : site.Withholds w₀ (x.writeSymbol g r) s w :=
  (withholds_writeEntry world state r).bind fun _ _ _ _ state₁ world₁ =>
    (withholds_write world₁ state₁ r).bind fun _ _ _ _ state₂ world₂ => .of_pure _ world₂ state₂

include at_ carries

theorem withholds_find? (used : site.used key.identifier) (legible : key.Legible) :
    site.Withholds w₀ (x.find? key) s w := by
  have looked : (s.buffer.find? x.store key).run.Through (· = w) w := by
    rw [Buffer.find?, at_.store]
    cases s.buffer.pending.get? key with
    | some r => exact rfl
    | none => exact (carries.unwritten world).through_get used legible
  refine (Stays.of_get world state).bind fun s₁ s₂ w₁ done _ _ => ?_
  cases done
  refine .of_script ((Script.through_bind _ _ w).2 ⟨?_, ?_⟩) state
  · exact looked.mono fun _ same => same ▸ world
  · have last := looked.last
    show w₀.Unwritten _
    rwa [last]

theorem withholds_file? (used : site.used (Uri.normalize uri)) : site.Withholds w₀ (x.file? uri) s w := by
  have looked : site.Withholds w₀ (x.find? (.ofFile uri)) s w :=
    withholds_find? at_ carries world state used (legible_ofFile uri)
  refine looked.bind fun found s₁ w₁ _ state₁ world₁ => ?_
  split <;> exact .of_pure _ world₁ state₁

theorem withholds_member? (used : site.used identifier) (g : Gathered) :
    site.Withholds w₀ (x.member? g identifier) s w := by
  rw [Indexer.member?]
  cases g.members.get? identifier with
  | some m => exact .of_pure _ world state
  | none =>
      cases parsed : RecordKey.parseMember identifier with
      | error e => exact .of_pure _ world state
      | ok parts =>
          obtain ⟨kind, name⟩ := parts
          have own : site.used (RecordKey.ofMember kind name).identifier := by
            rw [(RecordKey.parseMember_eq_ok.1 parsed).1] at used
            exact used
          refine (withholds_find? at_ carries world state own (legible_of_parseMember parsed)).bind
            fun found s₁ w₁ _ state₁ world₁ => ?_
          split <;> exact .of_pure _ world₁ state₁

theorem withholds_offerSymbol (used : site.used r.identifier) (g : Gathered) :
    site.Withholds w₀ (x.offerSymbol g r) s w := by
  rw [Indexer.offerSymbol]
  split
  next placeholder =>
    have looked : site.Withholds w₀ (x.isDefined r.key) s w :=
      (withholds_find? at_ carries world state used (.of_searchable (searchable_of_placeholder placeholder))).bind
        fun _ _ _ _ state₁ world₁ => .of_pure _ world₁ state₁
    refine looked.bind fun known s₁ w₁ _ state₁ world₁ => ?_
    split
    · exact .of_pure _ world₁ state₁
    · exact withholds_writeSymbol world₁ state₁ g r
  · exact withholds_writeSymbol world state g r

theorem withholds_gather (used : site.used r.identifier) (uri : String) (g : Gathered) :
    site.Withholds w₀ (x.gather uri g r) s w := by
  cases r with
  | member m =>
      refine (withholds_member? at_ carries world state used g).bind fun known s₁ w₁ _ state₁ world₁ => ?_
      split <;> exact .of_pure _ world₁ state₁
  | file f =>
      rw [Indexer.gather]
      split
      · exact .of_pure _ world state
      · exact withholds_offerSymbol at_ carries world state used g
  | klass c => exact withholds_offerSymbol at_ carries world state used g
  | function f => exact withholds_offerSymbol at_ carries world state used g
  | constant c => exact withholds_offerSymbol at_ carries world state used g

theorem withholds_forgetReference (used : site.used identifier) (uri : String) (g : Gathered) :
    site.Withholds w₀ (x.forgetReference uri g identifier) s w := by
  refine (withholds_member? at_ carries world state used g).bind fun known s₁ w₁ _ state₁ world₁ => ?_
  split <;> exact .of_pure _ world₁ state₁

theorem withholds_addReference (used : site.used identifier) (uri : String) (g : Gathered) :
    site.Withholds w₀ (x.addReference uri g identifier) s w := by
  refine (withholds_member? at_ carries world state used g).bind fun known s₁ w₁ _ state₁ world₁ => ?_
  split
  · exact .of_pure _ world₁ state₁
  · split <;> exact .of_pure _ world₁ state₁

end Steps

end Site

/-- **While a document is applied nothing is written**, however full the buffers are. -/
theorem Site.Stands.apply_withholds {site : Site} {x : Indexer} {h : Holdings} {s : IndexState} {w : World}
    {uri : String} {records : List Record} (stands : site.Stands h s w) (at_ : x.At site)
    (admits : site.Admits uri records) (state : s.Withholds site.root w.disk) :
    site.Withholds w (x.apply uri records) s w := by
  obtain ⟨l, carries, -⟩ := stands.records.below
  have own : site.used (Uri.normalize uri) := admits.normal.symm ▸ admits.document
  have known := stands.file?_ok at_ own
  refine (withholds_file? at_ carries (.refl w) state own).bind fun previous s₁ w₁ done₁ state₁ world₁ => ?_
  rw [known] at done₁
  cases done₁
  obtain ⟨s₂, w₂, gathered, -⟩ := stands.gatherAll_ok at_ uri {} admits.records
  refine (Stays.foldlM world₁ state₁ fun r member g s w world state => withholds_gather at_ carries world state
    (admits.records r member _ r.identifier_mem) uri g).bind fun g s₃ w₃ done₃ state₃ world₃ => ?_
  rw [gathered] at done₃
  cases done₃
  have ticked : site.Withholds w (Action.ofPlain Freshness.nowMillis) s₂ w₂ :=
    .of_plain ⟨world₃, world₃.disk, world₃.database⟩ state₃
  refine ticked.bind fun now s₄ w₄ _ state₄ world₄ => ?_
  refine (Stays.foldlM world₄ state₄ fun i dropped g s w world state => withholds_forgetReference at_ carries world
    state (stands.used_dropped i dropped) uri g).bind fun g s₅ w₅ _ state₅ world₅ => ?_
  refine (Stays.foldlM world₅ state₅ fun i refers g s w world state => withholds_addReference at_ carries world state
    (used_stamped admits h now i (mem_identifiers_of_refers refers)) uri g).bind fun g s₆ w₆ _ state₆ world₆ => ?_
  refine (Stays.forM world₆ state₆ fun m _ s w world state =>
    withholds_write world state (.member m)).bind fun _ s₇ w₇ _ state₇ world₇ => ?_
  exact (withholds_write world₇ state₇ _).bind fun _ _ _ _ state₈ world₈ => .of_pure _ world₈ state₈

end SymbolIndex
