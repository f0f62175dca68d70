import SymbolIndex.Proofs.Index.Applied
import SymbolIndex.Proofs.Index.Stands
import SymbolIndex.Proofs.System.Along

/-!
# Proofs.Index.Document — applying a document does what it says to the holdings

Each step of the program is the step of the same name on holdings: looking up, offering, gathering,
forgetting, referring. So applying a document to an index that stands for some holdings succeeds and
leaves one that stands for `Holdings.applied` (`Stands.apply_ok`). The stamp comes from the one reading of
the clock, which a rule along the run speaks about.
-/

namespace SymbolIndex

open Action (outcome)
open World (Still Around)

set_option autoImplicit false

/-- A document and its records keep to the identifiers in use. -/
structure Site.Admits (site : Site) (uri : String) (records : List Record) : Prop where
  normal : Uri.normalize uri = uri
  document : site.used uri
  records : ∀ r ∈ records, ∀ i ∈ r.identifiers, site.used i

theorem legible_ofFile (uri : String) : (RecordKey.ofFile uri).Legible where
  normal _ := Uri.normalize_normalize uri
  parsed type := by cases type

theorem legible_of_parseMember {identifier : String} {kind : MemberType} {name : String}
    (parsed : RecordKey.parseMember identifier = .ok (kind, name)) :
    (RecordKey.ofMember kind name).Legible where
  normal type := by cases type
  parsed _ := by
    obtain ⟨rfl, some_⟩ := RecordKey.parseMember_eq_ok.1 parsed
    exact ⟨_, MemberRecord.ofIdentifier_identifier some_⟩

theorem searchable_of_placeholder {r : Record} (placeholder : r.isPlaceholder = true) :
    r.recordType.isSearchable = true := by
  cases r with
  | klass _ => rfl
  | function _ => rfl
  | constant _ => rfl
  | member _ => cases placeholder
  | file _ => cases placeholder

namespace Site.Stands

variable {site : Site} {x : Indexer} {h : Holdings} {s : IndexState} {w : World} {g : Gathered}
  {r : Record} {uri identifier : String} {records : List Record}

theorem file?_ok (stands : site.Stands h s w) (at_ : x.At site) (used : site.used (Uri.normalize uri)) :
    outcome (x.file? uri) s w = (.ok (h.ledger.file? uri), s, w) := by
  have looked : outcome (x.find? (.ofFile uri)) s w = (.ok (h.ledger.get? (.ofFile uri)), s, w) :=
    stands.find?_ok at_ (.ofFile uri) used (legible_ofFile uri)
  rw [Indexer.file?, Action.outcome_bind_ok looked, Ledger.file?]
  rcases h.ledger.get? (.ofFile uri) with _ | ⟨_ | _ | _ | _ | _⟩ <;> rfl

theorem member?_ok (stands : site.Stands h s w) (at_ : x.At site) (used : site.used identifier)
    (g : Gathered) :
    outcome (x.member? g identifier) s w = (.ok (g.member? h.ledger identifier), s, w) := by
  rw [Indexer.member?, Gathered.member?, Ledger.member?]
  cases g.members.get? identifier with
  | some m => rfl
  | none =>
      cases parsed : RecordKey.parseMember identifier with
      | error e => rfl
      | ok parts =>
          obtain ⟨kind, name⟩ := parts
          have own : site.used (RecordKey.ofMember kind name).identifier := by
            rw [(RecordKey.parseMember_eq_ok.1 parsed).1] at used
            exact used
          show outcome (x.find? (.ofMember kind name) >>= _) s w = _
          rw [Action.outcome_bind_ok (stands.find?_ok at_ _ own (legible_of_parseMember parsed))]
          simp only [Option.none_or]
          rcases h.ledger.get? (.ofMember kind name) with _ | ⟨_ | _ | _ | _ | _⟩ <;> rfl

theorem isDefined_ok (stands : site.Stands h s w) (at_ : x.At site) (used : site.used r.identifier)
    (searchable : r.recordType.isSearchable = true) :
    outcome (x.isDefined r.key) s w = (.ok (h.ledger.isDefined r.key), s, w) := by
  rw [Indexer.isDefined, Action.outcome_bind_ok (stands.find?_ok at_ r.key used (.of_searchable searchable))]
  rfl

theorem writeSymbol_ok (stands : site.Stands h s w) (at_ : x.At site)
    (used : ∀ i ∈ r.identifiers, site.used i) :
    ∃ s' w', outcome (x.writeSymbol g r) s w = (.ok { g with written := g.written + 1 }, s', w') ∧
      site.Stands (h.write r) s' w' ∧ Still site.root site.base w w' := by
  obtain ⟨s₁, w₁, first, stands₁, still₁⟩ := stands.writeEntry_ok r
  obtain ⟨s₂, w₂, second, stands₂, still₂⟩ := stands₁.write_ok at_ used
  refine ⟨s₂, w₂, ?_, stands₂, still₁.trans still₂⟩
  rw [Indexer.writeSymbol, Action.outcome_bind_ok first, Action.outcome_bind_ok second,
    Action.outcome_pure]

theorem offerSymbol_ok (stands : site.Stands h s w) (at_ : x.At site)
    (used : ∀ i ∈ r.identifiers, site.used i) :
    ∃ s' w', outcome (x.offerSymbol g r) s w = (.ok (Holdings.offer (h, g) r).2, s', w') ∧
      site.Stands (Holdings.offer (h, g) r).1 s' w' ∧ Still site.root site.base w w' := by
  rw [Indexer.offerSymbol, Holdings.offer]
  cases placeholder : r.isPlaceholder with
  | false => exact stands.writeSymbol_ok at_ used
  | true =>
      simp only [if_true, Bool.true_and]
      rw [Action.outcome_bind_ok (stands.isDefined_ok at_ (used _ r.identifier_mem)
        (searchable_of_placeholder placeholder))]
      cases h.ledger.isDefined r.key with
      | true => exact ⟨s, w, rfl, stands, .refl _ _ _⟩
      | false => exact stands.writeSymbol_ok at_ used

theorem gather_ok (stands : site.Stands h s w) (at_ : x.At site) (uri : String) (g : Gathered)
    (used : ∀ i ∈ r.identifiers, site.used i) :
    ∃ s' w', outcome (x.gather uri g r) s w = (.ok (Holdings.gather uri (h, g) r).2, s', w') ∧
      site.Stands (Holdings.gather uri (h, g) r).1 s' w' ∧ Still site.root site.base w w' := by
  cases r with
  | member m =>
      refine ⟨s, w, ?_, ?_, .refl _ _ _⟩
      · show outcome (x.member? g m.identifier >>= _) s w = _
        rw [Action.outcome_bind_ok (stands.member?_ok at_ (used _ (by simp [Record.identifiers,
          Record.identifier])) g), Holdings.gather]
        cases g.member? h.ledger m.identifier <;> rfl
      · rw [Holdings.gather]
        cases g.member? h.ledger m.identifier <;> exact stands
  | file f =>
      show ∃ s' w', outcome (if f.path = uri then _ else _) s w = _ ∧ _
      rw [Holdings.gather]
      split
      · exact ⟨s, w, rfl, stands, .refl _ _ _⟩
      · exact stands.offerSymbol_ok at_ used
  | klass c => exact stands.offerSymbol_ok at_ used
  | function f => exact stands.offerSymbol_ok at_ used
  | constant c => exact stands.offerSymbol_ok at_ used

theorem gatherAll_ok (stands : site.Stands h s w) (at_ : x.At site) (uri : String) (g : Gathered)
    (used : ∀ r ∈ records, ∀ i ∈ r.identifiers, site.used i) :
    ∃ s' w', outcome (records.foldlM (x.gather uri) g) s w =
        (.ok (records.foldl (Holdings.gather uri) (h, g)).2, s', w') ∧
      site.Stands (records.foldl (Holdings.gather uri) (h, g)).1 s' w' ∧
      Still site.root site.base w w' := by
  induction records generalizing h g s w with
  | nil => exact ⟨s, w, rfl, stands, .refl _ _ _⟩
  | cons r records ih =>
      obtain ⟨s₁, w₁, first, stands₁, still₁⟩ := stands.gather_ok at_ uri g (used r (by simp))
      obtain ⟨s₂, w₂, second, stands₂, still₂⟩ := ih stands₁ (Holdings.gather uri (h, g) r).2
        fun r' member => used r' (by simp [member])
      refine ⟨s₂, w₂, ?_, stands₂, still₁.trans still₂⟩
      rw [List.foldlM_cons, Action.outcome_bind_ok first, second]
      rfl

theorem forgetReference_ok (stands : site.Stands h s w) (at_ : x.At site) (uri : String) (g : Gathered)
    (used : site.used identifier) :
    outcome (x.forgetReference uri g identifier) s w =
      (.ok (Gathered.forget h.ledger uri g identifier), s, w) := by
  rw [Indexer.forgetReference, Action.outcome_bind_ok (stands.member?_ok at_ used g), Gathered.forget]
  cases g.member? h.ledger identifier <;> rfl

theorem addReference_ok (stands : site.Stands h s w) (at_ : x.At site) (uri : String) (g : Gathered)
    (used : site.used identifier) :
    outcome (x.addReference uri g identifier) s w =
      (.ok (Gathered.refer h.ledger uri g identifier), s, w) := by
  rw [Indexer.addReference, Action.outcome_bind_ok (stands.member?_ok at_ used g), Gathered.refer]
  cases g.member? h.ledger identifier with
  | some m => rfl
  | none => cases MemberRecord.ofIdentifier identifier <;> rfl

/-- Steps that leave state and world alone do so in turn. -/
theorem foldlM_ok {α β : Type} {f : β → α → Indexed β} {step : β → α → β} {l : List α} {b : β}
    (each : ∀ a ∈ l, ∀ b, outcome (f b a) s w = (.ok (step b a), s, w)) :
    outcome (l.foldlM f b) s w = (.ok (l.foldl step b), s, w) := by
  induction l generalizing b with
  | nil => rfl
  | cons a l ih =>
      rw [List.foldlM_cons, Action.outcome_bind_ok (each a (by simp) b),
        ih fun a' member => each a' (by simp [member])]
      rfl

theorem writeAll_ok {rs : List Record} (stands : site.Stands h s w) (at_ : x.At site)
    (used : ∀ r ∈ rs, ∀ i ∈ r.identifiers, site.used i) :
    ∃ s' w', outcome (rs.forM x.write) s w = (.ok (), s', w') ∧
      site.Stands { h with ledger := h.ledger.writeAll rs } s' w' ∧ Still site.root site.base w w' := by
  induction rs generalizing h s w with
  | nil => exact ⟨s, w, rfl, stands, .refl _ _ _⟩
  | cons r rs ih =>
      obtain ⟨s₁, w₁, first, stands₁, still₁⟩ := stands.write_ok at_ (used r (by simp))
      obtain ⟨s₂, w₂, second, stands₂, still₂⟩ := ih stands₁ fun r' member => used r' (by simp [member])
      refine ⟨s₂, w₂, ?_, stands₂, still₁.trans still₂⟩
      show outcome (x.write r >>= fun _ => rs.forM x.write) s w = _
      rw [Action.outcome_bind_ok first, second]

/-- The clock goes on by one with a reading. -/
theorem now_ok (stands : site.Stands h s w) :
    outcome (Action.ofPlain Freshness.nowMillis : Indexed Int64) s w =
        (.ok (max 0 w.clock), s, { w with clock := w.clock + 1 }) ∧
      site.Stands h s { w with clock := w.clock + 1 } ∧
      Around site.root site.base w { w with clock := w.clock + 1 } :=
  ⟨by rw [Action.outcome_ofPlain]; rfl,
    stands.same (fun _ => ⟨fun _ _ => rfl, rfl⟩) stands.hosts, ⟨fun _ _ => rfl, id⟩⟩

/-- A member that a file refers to is among the identifiers that its record brings along. -/
theorem mem_identifiers_of_refers {f : FileRecord} (refers : identifier ∈ f.memberReferences) :
    identifier ∈ (Record.file f).identifiers :=
  List.mem_cons_of_mem _ refers

/-- The identifiers that a document's own record brings along are in use. -/
theorem used_stamped (admits : site.Admits uri records) (h : Holdings) (now : Int64) :
    ∀ i ∈ (Record.file (h.stamped uri records now)).identifiers, site.used i := by
  intro i member
  rcases List.mem_cons.1 member with rfl | refers
  · rw [Holdings.path_stamped admits.normal]
    exact admits.document
  · have refers' : i ∈ ((h.gathered uri records).2.file.getD (.ofPath uri)).memberReferences := refers
    cases found : (h.gathered uri records).2.file with
    | none =>
        rw [found] at refers'
        simp [FileRecord.memberReferences, FileRecord.ofPath] at refers'
    | some f =>
        rw [found] at refers'
        exact admits.records _ (Holdings.file_gathered found).1 i (mem_identifiers_of_refers refers')

/-- The identifiers of the members that a document no longer refers to are in use. -/
theorem used_dropped (stands : site.Stands h s w) {file : FileRecord} :
    ∀ i ∈ Indexer.droppedReferences (h.ledger.file? uri) file, site.used i := by
  intro i dropped
  obtain ⟨f, found, refers, -⟩ := Holdings.mem_droppedReferences.1 dropped
  exact stands.uses _ _ (Ledger.file?_eq_some.1 found) i (mem_identifiers_of_refers refers)

/-- The identifiers of the members that are written are in use. -/
theorem used_members (stands : site.Stands h s w) (admits : site.Admits uri records) (now : Int64) :
    ∀ r ∈ (h.referred uri records now).members.values.map Record.member, ∀ i ∈ r.identifiers, site.used i := by
  intro r written i member
  obtain ⟨m, listed, rfl⟩ := List.mem_map.1 written
  obtain ⟨i', found⟩ := SortedMap.mem_values.1 listed
  obtain rfl : i = m.identifier := List.mem_singleton.1 member
  rw [Holdings.keyed_referred stands.records.keyed uri records now i' m found]
  exact Holdings.among_referred
    (fun m emitted => admits.records _ emitted _ (List.mem_singleton.2 rfl)) stands.used_dropped
    (fun i refers => used_stamped admits h now i (mem_identifiers_of_refers refers)) i' m found

/-- Applying a document succeeds. Its stamp comes from the one reading of the clock. -/
theorem apply_ok (stands : site.Stands h s w) (at_ : x.At site) (admits : site.Admits uri records) :
    ∃ s' w', outcome (x.apply uri records) s w =
        (.ok (h.counted uri records (max 0 w.clock)), s', w') ∧
      site.Stands (h.applied uri records (max 0 w.clock)) s' w' ∧
      Around site.root site.base w w' ∧
      ∀ P : Rule, Action.Along P (x.apply uri records) s w → P Int64 .now w.clock := by
  let now := max 0 w.clock
  let file := h.stamped uri records now
  have known : outcome (x.file? uri) s w = (.ok (h.ledger.file? uri), s, w) :=
    stands.file?_ok at_ (admits.normal.symm ▸ admits.document)
  obtain ⟨s₁, w₁, gathered, stands₁, still₁⟩ :=
    stands.gatherAll_ok at_ uri {} admits.records
  obtain ⟨ticked, stands₂, around₂⟩ := stands₁.now_ok
  rw [show max 0 w₁.clock = now by rw [still₁.clock]] at ticked
  have forgot := foldlM_ok (s := s₁) (w := { w₁ with clock := w₁.clock + 1 })
    (l := Indexer.droppedReferences (h.ledger.file? uri) file) (b := (h.gathered uri records).2)
    fun i dropped g => stands₂.forgetReference_ok at_ uri g (stands.used_dropped i dropped)
  have referred := foldlM_ok (s := s₁) (w := { w₁ with clock := w₁.clock + 1 })
    (l := file.memberReferences.toList)
    (b := (Indexer.droppedReferences (h.ledger.file? uri) file).foldl
      (Gathered.forget (h.gathered uri records).1.ledger uri) (h.gathered uri records).2)
    fun i refers g => stands₂.addReference_ok at_ uri g
      (used_stamped admits h now i (mem_identifiers_of_refers refers))
  obtain ⟨s₃, w₃, wrote, stands₃, still₃⟩ :=
    stands₂.writeAll_ok at_ (stands.used_members admits now)
  obtain ⟨s₄, w₄, closed, stands₄, still₄⟩ := stands₃.write_ok at_ (used_stamped admits h now)
  refine ⟨s₄, w₄, ?_, stands₄, (still₁.toAround.trans around₂).trans (still₃.toAround.trans still₄.toAround),
    fun P along => ?_⟩
  · have wrote' : outcome ((h.referred uri records now).members.values.forM fun m => x.write (.member m))
        s₁ { w₁ with clock := w₁.clock + 1 } = (.ok (), s₃, w₃) := by
      show outcome (forM (h.referred uri records now).members.values _) _ _ = _
      rw [← List.forM_map]
      exact wrote
    rw [Indexer.apply, Action.outcome_bind_ok known, Action.outcome_bind_ok gathered,
      Action.outcome_bind_ok ticked]
    refine (Action.outcome_bind_ok forgot).trans ?_
    refine (Action.outcome_bind_ok referred).trans ?_
    refine (Action.outcome_bind_ok wrote').trans ?_
    exact Action.outcome_bind_ok closed
  · rw [Indexer.apply, Action.along_bind known, Action.along_bind gathered, Action.along_bind ticked,
      Action.along_ofPlain] at along
    have read := along.2.2.1.1
    rw [Call.perform, still₁.clock] at read
    exact read

end Site.Stands

end SymbolIndex
