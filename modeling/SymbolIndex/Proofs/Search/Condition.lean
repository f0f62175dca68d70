import SymbolIndex.Proofs.Search.Glob
import SymbolIndex.Search.Condition

/-!
# Proofs.Search.Condition — the filters of a criteria let every answer through

An index narrows a search before it asks the criteria itself: a table with a condition on its rows,
a file with the kinds of record that can be among the answers. Neither may lose an answer.

* `Criteria.condition_finds` — a criteria without a NUL in its texts has a condition, and the
  condition holds of the row of every entry that the criteria accepts, unless the criteria asks for
  a short name and there is a NUL before it;
* `Criteria.clean_of_condition` — a criteria with a NUL in its texts has none;
* `Criteria.admits_of_accepts` — the kind of an entry that a criteria accepts is among its kinds.

A criteria is a tree whose branches are lists, so each is proved of a criteria and of a list of them
at once.
-/

set_option autoImplicit false

namespace SymbolIndex

/-- A text that a condition can carry. -/
def Clean (text : String) : Prop := '\x00' ∉ text.toList

instance (text : String) : Decidable (Clean text) := inferInstanceAs (Decidable (¬ _))

theorem supported_ok {text : List Char} (clean : '\x00' ∉ text) :
    supported text = .ok (String.ofList text) := by
  unfold supported
  rw [if_neg]
  intro contains
  exact clean (List.contains_iff_mem.1 contains)

/-! ## Segments -/

/-- A qualified name is its last segment alone, or has a separator before it. -/
theorem eq_or_suffix_shortName (fqn : String) :
    fqn.toList = (shortName fqn).toList ∨
      (namespaceSeparator :: (shortName fqn).toList) <:+ fqn.toList := by
  have parts := List.takeWhile_append_dropWhile (p := (· ≠ namespaceSeparator)) (l := fqn.toList.reverse)
  have segment : (shortName fqn).toList =
      (fqn.toList.reverse.takeWhile (· ≠ namespaceSeparator)).reverse := String.toList_ofList
  cases before : fqn.toList.reverse.dropWhile (· ≠ namespaceSeparator) with
  | nil =>
      left
      rw [before, List.append_nil] at parts
      rw [segment, parts, List.reverse_reverse]
  | cons c rest =>
      right
      have separator : c = namespaceSeparator := by
        have stopped := List.head?_dropWhile_not (· ≠ namespaceSeparator) fqn.toList.reverse
        rw [before] at stopped
        simpa using stopped
      refine ⟨rest.reverse, ?_⟩
      have whole := congrArg List.reverse parts
      rw [before, List.reverse_append, List.reverse_cons, List.reverse_reverse, separator,
        List.append_assoc] at whole
      rw [segment]
      exact whole

/-- What stands before the last segment of a qualified name. -/
def namespacePart (fqn : String) : List Char :=
  (fqn.toList.reverse.dropWhile (· ≠ namespaceSeparator)).reverse

theorem namespacePart_append_shortName (fqn : String) :
    fqn.toList = namespacePart fqn ++ (shortName fqn).toList := by
  have segment : (shortName fqn).toList =
      (fqn.toList.reverse.takeWhile (· ≠ namespaceSeparator)).reverse := String.toList_ofList
  rw [segment, namespacePart, ← List.reverse_append, List.takeWhile_append_dropWhile,
    List.reverse_reverse]

theorem beginsWith_iff {text start : String} :
    beginsWith text start = true ↔ start.toList <+: text.toList :=
  List.isPrefixOf_iff_prefix

/-! ## Conditions -/

theorem Condition.holds_all (row : SearchColumn → String) (conditions : List Condition) :
    (Condition.all conditions).holds row = conditions.all (·.holds row) := by
  have joined : ∀ (rest : List Condition) (acc : Condition),
      (rest.foldl (fun acc d => .both acc (.group d)) acc).holds row =
        (acc.holds row && rest.all (·.holds row)) := by
    intro rest
    induction rest with
    | nil =>
        intro acc
        simp only [List.foldl_nil, List.all_nil, Bool.and_true]
    | cons d rest ih =>
        intro acc
        simp only [List.foldl_cons, ih, Condition.holds, List.all_cons, Bool.and_assoc]
  cases conditions with
  | nil => rfl
  | cons c rest => exact joined rest (.group c)

namespace Criteria

mutual

/-- The texts of the criteria have no NUL. -/
def Clean : Criteria → Prop
  | .exactShortName text | .shortNameBeginsWith text | .fqnBeginsWith text => SymbolIndex.Clean text
  | .isClass | .isFunction | .isConstant | .isClassType _ => True
  | .and parts => AllClean parts

/-- The texts of the parts have no NUL. -/
def AllClean : List Criteria → Prop
  | [] => True
  | c :: rest => Clean c ∧ AllClean rest

end

/-- A condition that holds of every entry that `accepts` accepts. -/
def Covers (cond : Condition) (accepts : SearchEntry → Bool) : Prop :=
  ∀ e, SymbolIndex.Clean e.identifier → accepts e = true → cond.holds e.column = true

mutual

/-- The criteria asks for a short name, or for the start of one. -/
def AsksShortName : Criteria → Prop
  | .exactShortName _ | .shortNameBeginsWith _ => True
  | .fqnBeginsWith _ | .isClass | .isFunction | .isConstant | .isClassType _ => False
  | .and parts => AnyAsksShortName parts

/-- One of the parts does. -/
def AnyAsksShortName : List Criteria → Prop
  | [] => False
  | c :: rest => AsksShortName c ∨ AnyAsksShortName rest

end

/-- A short name that is asked for can be seen: no NUL stands before it. -/
def Seen (asked : Prop) (e : SearchEntry) : Prop := asked → '\x00' ∉ namespacePart e.identifier

/-- A condition that holds of every entry that `accepts` accepts, where short names are `asked` for. -/
def Finds (asked : Prop) (cond : Condition) (accepts : SearchEntry → Bool) : Prop :=
  ∀ e, Seen asked e → accepts e = true → cond.holds e.column = true

theorem Finds.covers {asked : Prop} {cond : Condition} {accepts : SearchEntry → Bool}
    (finds : Finds asked cond accepts) : Covers cond accepts := by
  intro e clean accepted
  refine finds e (fun _ member => clean ?_) accepted
  rw [namespacePart_append_shortName]
  exact List.mem_append_left _ member

theorem finds_exactShortName {name : String} (clean : SymbolIndex.Clean name) :
    ∃ cond, condition (.exactShortName name) = .ok cond ∧
      Finds True cond (exactShortName name).accepts := by
  have separated : '\x00' ∉ namespaceSeparator :: name.toList := by
    intro member
    rcases List.mem_cons.1 member with same | inside
    · exact absurd same (by decide)
    · exact clean inside
  have pattern : '*' :: namespaceSeparator :: escapeGlob name.toList =
      '*' :: escapeGlob (namespaceSeparator :: name.toList) := rfl
  have carried : '\x00' ∉ '*' :: escapeGlob (namespaceSeparator :: name.toList) := by
    simpa using not_mem_escapeGlob separated
  refine ⟨.either (.equals .identifier name)
      (.glob .identifier (String.ofList ('*' :: escapeGlob (namespaceSeparator :: name.toList)))), ?_, ?_⟩
  · rw [condition, pattern, supported_ok clean, supported_ok carried, String.ofList_toList]
    rfl
  · intro e seen accepted
    have named : shortName e.identifier = name := eq_of_beq accepted
    have plain : '\x00' ∉ e.identifier.toList := by
      rw [namespacePart_append_shortName, named]
      exact fun member => (List.mem_append.1 member).elim (seen trivial) clean
    simp only [Condition.holds, SearchEntry.column, Bool.or_eq_true, beq_iff_eq,
      String.toList_ofList]
    rcases eq_or_suffix_shortName e.identifier with whole | suffix
    · left
      rw [named] at whole
      exact String.toList_injective whole
    · right
      rw [named] at suffix
      exact globMatches_of_suffix separated (by rwa [beforeNul_eq plain])

theorem finds_shortNameBeginsWith {start : String} (clean : SymbolIndex.Clean start) :
    ∃ cond, condition (.shortNameBeginsWith start) = .ok cond ∧
      Finds True cond (shortNameBeginsWith start).accepts := by
  have carried : '\x00' ∉ '*' :: escapeGlob start.toList ++ ['*'] := by
    simpa using not_mem_escapeGlob clean
  refine ⟨.glob .identifier (String.ofList ('*' :: escapeGlob start.toList ++ ['*'])), ?_, ?_⟩
  · rw [condition, supported_ok carried]
    rfl
  · intro e seen accepted
    have front : start.toList <+: (shortName e.identifier).toList := beginsWith_iff.1 accepted
    simp only [Condition.holds, SearchEntry.column, String.toList_ofList]
    refine globMatches_of_within clean ?_
    rw [namespacePart_append_shortName e.identifier, beforeNul_append (seen trivial)]
    exact (prefix_beforeNul clean front).isInfix.trans (List.suffix_append _ _).isInfix

theorem finds_fqnBeginsWith {start : String} (clean : SymbolIndex.Clean start) :
    ∃ cond, condition (.fqnBeginsWith start) = .ok cond ∧
      Finds False cond (fqnBeginsWith start).accepts := by
  have carried : '\x00' ∉ escapeGlob start.toList ++ ['*'] := by
    simpa using not_mem_escapeGlob clean
  refine ⟨.glob .identifier (String.ofList (escapeGlob start.toList ++ ['*'])), ?_, ?_⟩
  · rw [condition, supported_ok carried]
    rfl
  · intro e _ accepted
    simp only [Condition.holds, SearchEntry.column, String.toList_ofList]
    exact globMatches_of_start clean (prefix_beforeNul clean (beginsWith_iff.1 accepted))

theorem finds_kind {kind : RecordType} {accepts : SearchEntry → Bool}
    (of_kind : ∀ e, accepts e = true → e.recordType = kind) :
    Finds False (kindCondition kind) accepts := by
  intro e _ accepted
  simp only [kindCondition, Condition.holds, SearchEntry.column, beq_iff_eq]
  rw [of_kind e accepted]

mutual

/-- A criteria without a NUL has a condition, which holds of the row of every entry that the
criteria accepts, unless a short name is asked for and a NUL stands before it. -/
theorem condition_finds : (c : Criteria) → c.Clean →
    ∃ cond, c.condition = .ok cond ∧ Finds c.AsksShortName cond c.accepts
  | .exactShortName _, clean => finds_exactShortName clean
  | .shortNameBeginsWith _, clean => finds_shortNameBeginsWith clean
  | .fqnBeginsWith _, clean => finds_fqnBeginsWith clean
  | .isClass, _ => ⟨_, rfl, finds_kind fun _ accepted => eq_of_beq accepted⟩
  | .isFunction, _ => ⟨_, rfl, finds_kind fun _ accepted => eq_of_beq accepted⟩
  | .isConstant, _ => ⟨_, rfl, finds_kind fun _ accepted => eq_of_beq accepted⟩
  | .isClassType t, _ => by
      refine ⟨_, rfl, ?_⟩
      intro e seen accepted
      obtain ⟨kind, typed⟩ := (Bool.and_eq_true _ _).mp accepted
      have typed : e.classType = some t := eq_of_beq typed
      have kinded := finds_kind (fun _ => eq_of_beq) e seen kind
      simp only [Condition.holds, Bool.and_eq_true, beq_iff_eq] at kinded ⊢
      refine ⟨kinded, ?_⟩
      simp only [SearchEntry.column, SearchEntry.typeColumn, SearchEntry.typeName, typed]
  | .and parts, clean => by
      obtain ⟨conds, written, found⟩ := conditions_find parts clean
      refine ⟨.all conds, ?_, ?_⟩
      · rw [condition, written]
        rfl
      · intro e seen accepted
        rw [Condition.holds_all]
        exact List.all_eq_true.2 (found e seen accepted)

/-- The same of every part. -/
theorem conditions_find : (parts : List Criteria) → AllClean parts →
    ∃ conds, conditions parts = .ok conds ∧ ∀ e, Seen (AnyAsksShortName parts) e →
      allAccept parts e = true → ∀ cond ∈ conds, cond.holds e.column = true
  | [], _ => ⟨[], rfl, fun _ _ _ _ member => absurd member List.not_mem_nil⟩
  | c :: rest, clean => by
      obtain ⟨cond, written, found⟩ := condition_finds c clean.1
      obtain ⟨conds, written_rest, found_rest⟩ := conditions_find rest clean.2
      refine ⟨cond :: conds, ?_, ?_⟩
      · rw [conditions, written, written_rest]
        rfl
      · intro e seen accepted d member
        obtain ⟨here, later⟩ := (Bool.and_eq_true _ _).mp accepted
        rcases List.mem_cons.1 member with rfl | inside
        · exact found e (fun asked => seen (.inl asked)) here
        · exact found_rest e (fun asked => seen (.inr asked)) later d inside

end

/-- A criteria without a NUL has a condition, which holds of the row of every entry without a NUL
that the criteria accepts. -/
theorem condition_holds (c : Criteria) (clean : c.Clean) :
    ∃ cond, c.condition = .ok cond ∧ Covers cond c.accepts := by
  obtain ⟨cond, written, finds⟩ := condition_finds c clean
  exact ⟨cond, written, finds.covers⟩

/-! ## Criteria that have a condition -/

theorem clean_of_supported {text : List Char} {value : String} (carried : supported text = .ok value) :
    '\x00' ∉ text := by
  intro member
  rw [supported, if_pos (List.contains_iff_mem.2 member)] at carried
  cases carried

theorem exists_of_bind_ok {ε α β : Type} {x : Except ε α} {f : α → Except ε β} {b : β}
    (bound : (x >>= f) = .ok b) : ∃ a, x = .ok a ∧ f a = .ok b := by
  cases x with
  | error e => cases bound
  | ok a => exact ⟨a, rfl, bound⟩

mutual

/-- A criteria that has a condition has no NUL in its texts. -/
theorem clean_of_condition : (c : Criteria) → {cond : Condition} → c.condition = .ok cond → c.Clean
  | .exactShortName _, _, written => by
      rw [condition] at written
      obtain ⟨_, carried, _⟩ := exists_of_bind_ok written
      exact clean_of_supported carried
  | .shortNameBeginsWith _, _, written => by
      rw [condition] at written
      obtain ⟨_, carried, _⟩ := exists_of_bind_ok written
      exact fun member => clean_of_supported carried
        (List.mem_append_left _ (List.mem_cons_of_mem _ (mem_escapeGlob member)))
  | .fqnBeginsWith _, _, written => by
      rw [condition] at written
      obtain ⟨_, carried, _⟩ := exists_of_bind_ok written
      exact fun member => clean_of_supported carried (List.mem_append_left _ (mem_escapeGlob member))
  | .isClass, _, _ | .isFunction, _, _ | .isConstant, _, _ | .isClassType _, _, _ => trivial
  | .and parts, _, written => by
      rw [condition] at written
      obtain ⟨_, written_parts, _⟩ := exists_of_bind_ok written
      exact allClean_of_conditions parts written_parts

/-- The same of every part. -/
theorem allClean_of_conditions : (parts : List Criteria) → {conds : List Condition} →
    conditions parts = .ok conds → AllClean parts
  | [], _, _ => trivial
  | c :: rest, _, written => by
      rw [conditions] at written
      obtain ⟨_, first, written⟩ := exists_of_bind_ok written
      obtain ⟨_, others, _⟩ := exists_of_bind_ok written
      exact ⟨clean_of_condition c first, allClean_of_conditions rest others⟩

end

/-! ## Kinds -/

/-- A kind is among some kinds, or any kind is. -/
def Among (kinds : Option (List RecordType)) (kind : RecordType) : Prop :=
  ∀ listed, kinds = some listed → kind ∈ listed

theorem admits_iff {c : Criteria} {e : SearchEntry} :
    c.admits e = true ↔ Among c.recordTypes e.recordType := by
  unfold admits Among
  cases c.recordTypes with
  | none => simp
  | some kinds => simp

theorem among_commonKinds {kinds more : Option (List RecordType)} {kind : RecordType}
    (first : Among kinds kind) (second : Among more kind) : Among (commonKinds kinds more) kind := by
  cases kinds with
  | none => exact second
  | some listed =>
      cases more with
      | none => exact first
      | some others =>
          rintro _ ⟨⟩
          exact List.mem_filter.2 ⟨first listed rfl, List.contains_iff_mem.2 (second others rfl)⟩

theorem among_single {kind : RecordType} {e : SearchEntry} (same : (e.recordType == kind) = true) :
    Among (some [kind]) e.recordType := by
  rintro _ ⟨⟩
  exact List.mem_singleton.2 (eq_of_beq same)

mutual

theorem among_recordTypes : (c : Criteria) → (e : SearchEntry) → c.accepts e = true →
    Among c.recordTypes e.recordType
  | .exactShortName _, _, _ | .shortNameBeginsWith _, _, _ | .fqnBeginsWith _, _, _ => by
      rintro _ ⟨⟩
  | .isClass, _, accepted | .isFunction, _, accepted | .isConstant, _, accepted =>
      among_single accepted
  | .isClassType _, _, accepted => among_single ((Bool.and_eq_true _ _).mp accepted).1
  | .and parts, e, accepted => among_commonRecordTypes parts none e (by rintro _ ⟨⟩) accepted

theorem among_commonRecordTypes : (parts : List Criteria) → (kinds : Option (List RecordType)) →
    (e : SearchEntry) → Among kinds e.recordType → allAccept parts e = true →
    Among (commonRecordTypes kinds parts) e.recordType
  | [], _, _, among, _ => among
  | c :: rest, _, e, among, accepted =>
      among_commonRecordTypes rest _ e
        (among_commonKinds among (among_recordTypes c e ((Bool.and_eq_true _ _).mp accepted).1))
        ((Bool.and_eq_true _ _).mp accepted).2

end

/-- A criteria admits what it accepts. -/
theorem admits_of_accepts {c : Criteria} {e : SearchEntry} (accepted : c.accepts e = true) :
    c.admits e = true :=
  admits_iff.2 (among_recordTypes c e accepted)

end Criteria

end SymbolIndex
