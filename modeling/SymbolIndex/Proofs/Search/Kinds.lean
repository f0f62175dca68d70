import SymbolIndex.Proofs.Search.Condition

/-!
# Proofs.Search.Kinds — the kinds a criteria leaves to be searched

A file of entries is narrowed by the kinds a criteria can accept before the criteria itself is asked,
and what is lost there is lost for good. The kinds are an intersection over a tree of conjunctions in
which a part may ask for no kind at all, and nothing stands for every kind as long as no part has
asked for one.

`asked` lists the kinds that the parts ask for, at any depth. What is let through is then simply said:
the entries whose kind is every kind that is asked for (`admits_iff_asked`). A criteria leaves every
kind if it asks for none (`recordTypes_eq_none_iff`), and none if it asks for two
(`recordTypes_eq_nil_iff`).

* `Criteria.prefilter_sound` — no entry that a criteria accepts is held back, and there is none if no
  kind is left.
-/

set_option autoImplicit false

namespace SymbolIndex.Criteria

mutual

/-- The kinds that a criteria asks for, in its parts at any depth. -/
def asked : Criteria → List RecordType
  | .exactShortName _ | .shortNameBeginsWith _ | .fqnBeginsWith _ => []
  | .isClass | .isClassType _ => [.klass]
  | .isFunction => [.function]
  | .isConstant => [.constant]
  | .and parts => askedByAny parts

/-- The kinds that one of the parts asks for. -/
def askedByAny : List Criteria → List RecordType
  | [] => []
  | c :: rest => asked c ++ askedByAny rest

end

/-- A kind is every one of some kinds. -/
def IsEach (kind : RecordType) (kinds : List RecordType) : Prop := ∀ k ∈ kinds, kind = k

theorem isEach_append {kind : RecordType} {kinds more : List RecordType} :
    IsEach kind (kinds ++ more) ↔ IsEach kind kinds ∧ IsEach kind more := by
  simp only [IsEach, List.mem_append, or_imp, forall_and]

theorem among_none (kind : RecordType) : Among none kind := by
  rintro _ ⟨⟩

theorem among_some {kinds : List RecordType} {kind : RecordType} :
    Among (some kinds) kind ↔ kind ∈ kinds := by
  simp only [Among, Option.some.injEq, forall_eq']

/-- The kinds common to two restrictions are those that both allow. -/
theorem among_commonKinds_iff {kinds more : Option (List RecordType)} {kind : RecordType} :
    Among (commonKinds kinds more) kind ↔ Among kinds kind ∧ Among more kind := by
  refine ⟨fun among => ?_, fun ⟨first, second⟩ => among_commonKinds first second⟩
  cases kinds with
  | none => exact ⟨among_none kind, among⟩
  | some listed =>
      cases more with
      | none => exact ⟨among, among_none kind⟩
      | some others =>
          obtain ⟨first, second⟩ := List.mem_filter.1 (among_some.1 among)
          exact ⟨among_some.2 first, among_some.2 (List.contains_iff_mem.1 second)⟩

theorem commonKinds_eq_none_iff {kinds more : Option (List RecordType)} :
    commonKinds kinds more = none ↔ kinds = none ∧ more = none := by
  cases kinds <;> cases more <;> simp [commonKinds]

mutual

theorem among_recordTypes_iff (kind : RecordType) :
    (c : Criteria) → (Among c.recordTypes kind ↔ IsEach kind c.asked)
  | .exactShortName _ | .shortNameBeginsWith _ | .fqnBeginsWith _ =>
      iff_of_true (among_none kind) (by rintro _ ⟨⟩)
  | .isClass | .isClassType _ | .isFunction | .isConstant => by
      simp only [recordTypes, asked, among_some, IsEach, List.mem_singleton, forall_eq]
  | .and parts => by
      have each := among_commonRecordTypes_iff kind none parts
      rwa [and_iff_right (among_none kind)] at each

/-- The parts narrow down what is left before them. -/
theorem among_commonRecordTypes_iff (kind : RecordType) (kinds : Option (List RecordType)) :
    (parts : List Criteria) →
      (Among (commonRecordTypes kinds parts) kind ↔ Among kinds kind ∧ IsEach kind (askedByAny parts))
  | [] => (and_iff_left (by rintro _ ⟨⟩)).symm
  | c :: rest => by
      rw [commonRecordTypes, among_commonRecordTypes_iff kind _ rest, among_commonKinds_iff,
        among_recordTypes_iff kind c, askedByAny, isEach_append, and_assoc]

end

mutual

theorem recordTypes_eq_none_iff : (c : Criteria) → (c.recordTypes = none ↔ c.asked = [])
  | .exactShortName _ | .shortNameBeginsWith _ | .fqnBeginsWith _ => iff_of_true rfl rfl
  | .isClass | .isClassType _ | .isFunction | .isConstant => by simp [recordTypes, asked]
  | .and parts => by
      have each := commonRecordTypes_eq_none_iff none parts
      rwa [and_iff_right rfl] at each

/-- Every kind is left if every kind was left before and no part asks for one. -/
theorem commonRecordTypes_eq_none_iff (kinds : Option (List RecordType)) :
    (parts : List Criteria) →
      (commonRecordTypes kinds parts = none ↔ kinds = none ∧ askedByAny parts = [])
  | [] => (and_iff_left rfl).symm
  | c :: rest => by
      rw [commonRecordTypes, commonRecordTypes_eq_none_iff _ rest, commonKinds_eq_none_iff,
        recordTypes_eq_none_iff c, askedByAny, List.append_eq_nil_iff, and_assoc]

end

/-- Two kinds that are asked for leave none. -/
theorem recordTypes_eq_nil_iff (c : Criteria) :
    c.recordTypes = some [] ↔ ∃ a ∈ c.asked, ∃ b ∈ c.asked, a ≠ b := by
  constructor
  · intro nothing
    have some_ : c.asked ≠ [] := fun none_ => by
      rw [(recordTypes_eq_none_iff c).2 none_] at nothing
      cases nothing
    obtain ⟨a, member⟩ := List.exists_mem_of_ne_nil _ some_
    have apart : ¬ IsEach a c.asked := fun each => by
      have among := (among_recordTypes_iff a c).2 each
      rw [nothing, among_some] at among
      cases among
    obtain ⟨b, other, different⟩ : ∃ b ∈ c.asked, a ≠ b := by simpa [IsEach] using apart
    exact ⟨a, member, b, other, different⟩
  · rintro ⟨a, first, b, second, different⟩
    have none_ : ∀ kind, ¬ Among c.recordTypes kind := fun kind among => by
      have each := (among_recordTypes_iff kind c).1 among
      exact different ((each a first).symm.trans (each b second))
    cases left : c.recordTypes with
    | none => exact absurd (left ▸ among_none a) (none_ a)
    | some kinds =>
        congr 1
        refine List.eq_nil_iff_forall_not_mem.2 fun kind member => none_ kind ?_
        rw [left]
        exact among_some.2 member

/-- What is let through is of every kind that is asked for. -/
theorem admits_iff_asked {c : Criteria} {e : SearchEntry} :
    c.admits e = true ↔ IsEach e.recordType c.asked :=
  admits_iff.trans (among_recordTypes_iff e.recordType c)

/-- **No entry that a criteria accepts is held back** by the kinds it leaves; if it leaves none it
accepts nothing. An entry is let through exactly if its kind is every kind that is asked for, at any
depth. -/
theorem prefilter_sound (c : Criteria) :
    (∀ e, c.accepts e = true → c.admits e = true) ∧
      (c.recordTypes = some [] → ∀ e, c.accepts e = false) ∧
      ∀ e, c.admits e = true ↔ IsEach e.recordType c.asked := by
  refine ⟨fun e => admits_of_accepts, fun nothing e => ?_, fun e => admits_iff_asked⟩
  obtain ⟨a, first, b, second, different⟩ := (recordTypes_eq_nil_iff c).1 nothing
  rw [Bool.eq_false_iff]
  intro accepted
  have each := admits_iff_asked.1 (admits_of_accepts accepted)
  exact different ((each a first).symm.trans (each b second))

/-- An empty conjunction and a name ask for no kind, so the one part that asks for functions decides. A
part deep inside that asks for classes leaves no kind, and no entry is accepted. -/
theorem sample_prefilter_sound :
    (.and [.and [], .fqnBeginsWith "A", .and [.isFunction]] : Criteria).admits
        ⟨.function, "A\\f", none, 0⟩ = true ∧
      (.and [.isFunction, .and [.exactShortName "f", .and [.isClassType .trait]]] : Criteria).accepts
        ⟨.function, "A\\f", none, 0⟩ = false :=
  ⟨(prefilter_sound _).1 _ (by decide), (prefilter_sound _).2.1 rfl _⟩

end SymbolIndex.Criteria
