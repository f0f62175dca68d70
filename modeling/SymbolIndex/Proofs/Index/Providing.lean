import SymbolIndex.Proofs.Dirty.Failing
import SymbolIndex.Proofs.Index.Untouched

/-!
# Proofs.Index.Providing — the log while a pass is given its candidates

The sources of a pass are asked in order. A listing leaves the log alone, and so does a drain that fails: what awaits
a drain goes on to await it (`Source.goes_provideAll`). A drain that succeeds answers all that awaits it. From then on
the log lists nothing until the pass marks files of its own (`Source.goes_provideAll_drained`).
-/

namespace SymbolIndex

open DirtyLog (Awaits Listed Stocked Tidy remembering)
open World (MarksOf)

set_option autoImplicit false

variable {root : Path} {base : Address} {backend : Backend} {marks : List String} {known : SortedSet String}
  {w w' : World} {t : List Answered} {uri : String}

/-! ## Logs that are left alone -/

namespace World.MarksOf

theorem node_eq (left : MarksOf root base w w') (p : FileLog.Part) :
    w'.disk.node? (p.address base) = w.disk.node? (p.address base) :=
  left.same.disk _ (Part.owns_of_name (by cases p <;> simp [Part.names, FileLog.Part.name]))

theorem dirty_eq (left : MarksOf root base w w') : w'.database.dirty = w.database.dirty := by
  have same := congrArg Database.dirty left.same.tables
  exact same

theorem entriesIn_eq (left : MarksOf root base w w') (p : FileLog.Part) :
    FileLog.entriesIn w'.disk (p.address base) = FileLog.entriesIn w.disk (p.address base) := by
  rw [FileLog.entriesIn, FileLog.entriesIn, Disk.contentAt, Disk.contentAt, left.node_eq]

theorem listed_iff (left : MarksOf root base w w') : Listed base backend w' uri ↔ Listed base backend w uri := by
  cases backend with
  | file => rw [Listed, Listed, left.entriesIn_eq, left.entriesIn_eq]
  | sqlite => rw [Listed, Listed, TableLog.HasRow, TableLog.HasRow, left.dirty_eq]

theorem awaits_iff (left : MarksOf root base w w') : Awaits base backend w' uri ↔ Awaits base backend w uri := by
  cases backend with
  | file => rw [Awaits, Awaits, left.entriesIn_eq, left.entriesIn_eq, left.node_eq]
  | sqlite => rw [Awaits, Awaits, TableLog.HasRow, TableLog.HasRow, left.dirty_eq]

/-- The files stay, but other files may have been made beside them. -/
theorem filed {σ : FileLog.Slots} (left : MarksOf root base w w') (filed : FileLog.Filed root base σ w.disk) :
    FileLog.Filed root base { σ with next := w'.disk.nextId } w'.disk where
  hosts := left.hosts
  next := rfl
  lies p := by
    rw [left.node_eq]
    exact filed.lies p

theorem holds (left : MarksOf root base w w') (holds : TableLog.Holds w.database marks) :
    TableLog.Holds w'.database marks := by
  rw [TableLog.Holds, left.dirty_eq]
  exact holds

theorem stocked (left : MarksOf root base w w') (stocked : Stocked root base w backend) :
    Stocked root base w' backend := by
  cases stocked with
  | file filed => exact .file (left.filed filed)
  | table hosts holds => exact .table left.hosts (left.holds holds)

theorem tidy (left : MarksOf root base w w') (tidy : Tidy root base marks w backend) :
    Tidy root base marks w' backend := by
  cases tidy with
  | file filed bare listed => exact .file (left.filed filed) bare listed
  | table hosts holds => exact .table left.hosts (left.holds holds)

end World.MarksOf

namespace DirtyLog

theorem Stocked.hosts (stocked : Stocked root base w backend) : w.disk.Hosts root base := by
  cases stocked with
  | file filed => exact filed.hosts
  | table hosts holds => exact hosts

theorem Awaits.listed (awaits : Awaits base backend w uri) : Listed base backend w uri := by
  cases backend with
  | file => exact awaits.imp_right And.left
  | sqlite => exact awaits

/-- A drain in a run answered a URI. -/
def Drained (uri : String) (t : List Answered) : Prop :=
  ∃ before during after log log' w w' uris, t = before ++ during ++ after ∧
    DirtyLog.drain.Goes log w during (.ok uris) log' w' ∧ uri ∈ uris

theorem Drained.append (drained : Drained uri t) (before after : List Answered) :
    Drained uri (before ++ t ++ after) := by
  obtain ⟨front, during, back, log, log', w, w', uris, rfl, goes, member⟩ := drained
  exact ⟨before ++ front, during, back ++ after, log, log', w, w', uris, by simp, goes, member⟩

end DirtyLog

open DirtyLog (Drained)

theorem Script.Asks.leaves {α : Type} {s : Script α} (asks : s.Asks) : s.LeavesMarks root base := by
  induction s with
  | done a => exact fun _ => .pure a
  | @call γ request next ih =>
      have looks : request.Looks := by
        cases request with
        | read | stat | readDirectory => trivial
        | _ => exact asks.1.elim
      exact fun w₀ => Script.Keeps.bind (Script.leaves_ask looks w₀) fun answer => ih answer (asks.2 answer) w₀

/-! ## Sources -/

namespace Source

variable {log log' : DirtyLog} {r : Except IndexError (List Path)} {source : Source} {sources : List Source}

/-- A source gives what it finds after those before it, or an error. -/
theorem goes_cons (goes : (provideAll (source :: sources)).Goes log w t r log' w') :
    (∃ e, r = .error e ∧ source.provide.Goes log w t (.error e) log' w') ∨
      ∃ found log₁ w₁ t₁ t₂ r', t = t₁ ++ t₂ ∧ source.provide.Goes log w t₁ (.ok found) log₁ w₁ ∧
        (provideAll sources).Goes log₁ w₁ t₂ r' log' w' ∧ r = r'.map (found ++ ·) := by
  rcases Action.goes_bind.1 goes with ⟨e, rfl, first⟩ | ⟨found, log₁, w₁, t₁, t₂, rfl, first, rest⟩
  · exact .inl ⟨e, rfl, first⟩
  · refine .inr ⟨found, log₁, w₁, t₁, t₂, ?_⟩
    rcases Action.goes_bind.1 rest with ⟨e, rfl, second⟩ | ⟨more, log₂, w₂, t₃, t₄, rfl, second, last⟩
    · exact ⟨.error e, rfl, first, second, rfl⟩
    · obtain ⟨rfl, rfl, rfl, rfl⟩ := Action.goes_pure.1 last
      exact ⟨.ok more, rfl, first, by rwa [List.append_nil], rfl⟩

/-- The dirty log gives the paths of what a drain answers. -/
theorem goes_dirtyLog (goes : Source.dirtyLog.provide.Goes log w t r log' w') :
    ∃ r', DirtyLog.drain.Goes log w t r' log' w' ∧ r = (r'.mapError .ofDirty).map (·.map Uri.toPath) := by
  rcases Action.goes_bind.1 goes with ⟨e, rfl, first⟩ | ⟨uris, log₁, w₁, t₁, t₂, rfl, first, rest⟩
  · obtain ⟨r', log₂, ran, same, rfl⟩ := Action.goes_within.1 first
    exact ⟨r', ran, by rw [← same]; rfl⟩
  · obtain ⟨rfl, rfl, rfl, rfl⟩ := Action.goes_pure.1 rest
    obtain ⟨r', log₂, ran, same, rfl⟩ := Action.goes_within.1 first
    exact ⟨r', by rwa [List.append_nil], by rw [← same]; rfl⟩

/-- What sources leave that are asked after a drain: the log is empty, or one of them has failed and nothing is
listed. -/
inductive Emptied (root : Path) (base : Address) (backend : Backend) :
    Except IndexError (List Path) → World → Prop where
  | ok {found : List Path} {w : World} (tidy : Tidy root base [] w backend) : Emptied root base backend (.ok found) w
  | error {e : IndexError} {w : World} (stocked : Stocked root base w backend)
      (bare : ∀ uri, ¬ Listed base backend w uri) : Emptied root base backend (.error e) w

theorem Emptied.map (emptied : Emptied root base backend r w) (f : List Path → List Path) :
    Emptied root base backend (r.map f) w := by
  cases emptied with
  | ok tidy => exact .ok tidy
  | error stocked bare => exact .error stocked bare

theorem goes_provide_drained (leave : ∀ list, source = .listing list → Script.LeavesMarks root base list)
    (tidy : Tidy root base [] w backend)
    (goes : source.provide.Goes (remembering backend root .empty) w t r log' w') :
    log' = remembering backend root .empty ∧ Emptied root base backend r w' := by
  have bare : ∀ uri, ¬ Listed base backend w uri := fun uri listed => List.not_mem_nil (tidy.listed_iff.1 listed)
  cases source with
  | listing list =>
      obtain ⟨rfl, ran⟩ := Action.goes_ofScript.1 goes
      have left := leave list rfl w (.refl tidy.stocked.hosts) ran
      refine ⟨rfl, ?_⟩
      cases r with
      | ok found => exact .ok (left.tidy tidy)
      | error e => exact .error (left.stocked tidy.stocked) fun uri listed => bare uri (left.listed_iff.1 listed)
  | dirtyLog =>
      obtain ⟨r', ran, rfl⟩ := goes_dirtyLog goes
      rcases tidy.stocked.goes_drain ran with
        ⟨e, rfl, rfl, stocked, -, still⟩ | ⟨uris, known', rfl, rfl, tidy', -, rfl | ⟨-, rfl⟩⟩
      · exact ⟨rfl, .error stocked fun uri listed => bare uri (still uri listed)⟩
      · exact ⟨rfl, .ok tidy'⟩
      · exact ⟨rfl, .ok tidy'⟩

/-- Nothing is listed while more sources are asked. -/
theorem goes_provideAll_drained (leave : ∀ list, .listing list ∈ sources → Script.LeavesMarks root base list)
    (tidy : Tidy root base [] w backend)
    (goes : (provideAll sources).Goes (remembering backend root .empty) w t r log' w') :
    log' = remembering backend root .empty ∧ Emptied root base backend r w' := by
  induction sources generalizing w t r with
  | nil =>
      obtain ⟨-, rfl, rfl, rfl⟩ := Action.goes_pure.1 goes
      exact ⟨rfl, .ok tidy⟩
  | cons source sources ih =>
      have leave' : ∀ list, source = .listing list → Script.LeavesMarks root base list := fun list same =>
        leave list (by simp [same])
      rcases goes_cons goes with ⟨e, rfl, first⟩ | ⟨found, log₁, w₁, t₁, t₂, r', rfl, first, rest, rfl⟩
      · exact goes_provide_drained leave' tidy first
      · obtain ⟨rfl, emptied⟩ := goes_provide_drained leave' tidy first
        cases emptied with
        | ok tidy' =>
            obtain ⟨rfl, emptied'⟩ := ih (fun list member => leave list (by simp [member])) tidy' rest
            exact ⟨rfl, emptied'.map _⟩

/-- **What awaits a drain is listed until a drain answers it**, whichever source fails. -/
theorem goes_provideAll (leave : ∀ list, .listing list ∈ sources → Script.LeavesMarks root base list)
    (stocked : Stocked root base w backend) (awaits : Awaits base backend w uri)
    (goes : (provideAll sources).Goes (remembering backend root known) w t r log' w') :
    (log' = remembering backend root known ∧ Stocked root base w' backend ∧ Listed base backend w' uri ∧
        ((∃ e, r = .error e) ∨ .dirtyLog ∉ sources)) ∨
      (Drained uri t ∧ log' = remembering backend root .empty ∧ Emptied root base backend r w') := by
  induction sources generalizing w t r with
  | nil =>
      obtain ⟨-, rfl, rfl, rfl⟩ := Action.goes_pure.1 goes
      exact .inl ⟨rfl, stocked, awaits.listed, .inr (by simp)⟩
  | cons source sources ih =>
      have leave' : ∀ list, .listing list ∈ sources → Script.LeavesMarks root base list := fun list member =>
        leave list (by simp [member])
      cases source with
      | listing list =>
          rcases goes_cons goes with ⟨e, rfl, first⟩ | ⟨found, log₁, w₁, t₁, t₂, r', rfl, first, rest, rfl⟩
          · obtain ⟨rfl, ran⟩ := Action.goes_ofScript.1 first
            have left := leave list (by simp) w (.refl stocked.hosts) ran
            exact .inl ⟨rfl, left.stocked stocked, left.listed_iff.2 awaits.listed, .inl ⟨e, rfl⟩⟩
          · obtain ⟨rfl, ran⟩ := Action.goes_ofScript.1 first
            have left := leave list (by simp) w (.refl stocked.hosts) ran
            rcases ih leave' (left.stocked stocked) (left.awaits_iff.2 awaits) rest with
              ⟨same, stocked', listed, ⟨e, rfl⟩ | none_⟩ | ⟨drained, same, emptied⟩
            · exact .inl ⟨same, stocked', listed, .inl ⟨e, rfl⟩⟩
            · exact .inl ⟨same, stocked', listed, .inr (by simpa using none_)⟩
            · exact .inr ⟨by simpa using drained.append t₁ [], same, emptied.map _⟩
      | dirtyLog =>
          rcases goes_cons goes with ⟨e, rfl, first⟩ | ⟨found, log₁, w₁, t₁, t₂, r', rfl, first, rest, rfl⟩
          · obtain ⟨r', ran, same⟩ := goes_dirtyLog first
            rcases stocked.goes_drain ran with ⟨e, rfl, rfl, stocked', listed, -⟩ | ⟨uris, known', rfl, -⟩
            · exact .inl ⟨rfl, stocked', listed uri awaits, .inl ⟨_, rfl⟩⟩
            · cases same
          · obtain ⟨r'', ran, same⟩ := goes_dirtyLog first
            rcases stocked.goes_drain ran with ⟨e, rfl, -⟩ | ⟨uris, known', rfl, rfl, tidy, answers, which⟩
            · cases same
            · have answered := answers uri awaits.listed
              obtain rfl : known' = .empty := which.resolve_right fun none_ => by
                rw [none_.1] at answered
                cases answered
              obtain ⟨rfl, emptied⟩ := goes_provideAll_drained leave' tidy rest
              exact .inr ⟨⟨[], t₁, t₂, _, _, w, w₁, uris, rfl, ran, answered⟩, rfl, emptied.map _⟩

end Source

end SymbolIndex
