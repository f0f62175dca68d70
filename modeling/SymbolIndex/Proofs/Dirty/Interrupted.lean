import SymbolIndex.Proofs.Dirty.Crowd
import SymbolIndex.Proofs.Dirty.Due

/-!
# Proofs.Dirty.Interrupted — which marks outlast interruptions

Any number of handles mark files in one log, and one of them, the keeper, drains and clears it as well. Between any
two calls of one handle the others make theirs, and processes die. All of it rests on lines that are written by one
call each (`FileLog.mark`), so that no two handles ever write into one line.

* An entry that is listed is listed or held by a drain under way (`Point.Keeps`) until a drain answers it, as long
  as the keeper does not die in a drain that moved the log in place of one it was to take up (`Crowd.Loses`).
* A mark of another handle is listed once it is made, if its line is written to the log or to what a drain is about
  to read, and the keeper is not rewriting the log (`Crowd.Lands`): `landed_marks_wait`. Where the line goes to
  another file, or to a log that a clear has read already, the mark is lost (`crossed_marks_lost`).
* A mark of the keeper itself always lands, and so does the mark that it remembers: `own_marks_wait`. What a second
  drain moves the log over is lost with its process (`recovered_marks_lost`).
-/

namespace SymbolIndex

open SymbolIndex.Text (Bytes)

set_option autoImplicit false

namespace FileLog

/-! ## What is asked of whom -/

/-- Only the keeper drains and clears, and it does not clear an entry. -/
def Turn.KeptBy (k : Nat) (e : String) : Turn → Prop
  | .start _ (.mark _) => True
  | .start i .drain => i = k
  | .start i (.clear path) => i = k ∧ Uri.normalize path ≠ e
  | .go _ | .die _ => True

instance Turn.decidableKeptBy (k : Nat) (e : String) (t : Turn) : Decidable (t.KeptBy k e) :=
  match t with
  | .start _ (.mark _) => .isTrue trivial
  | .start i .drain => inferInstanceAs (Decidable (i = k))
  | .start i (.clear path) => inferInstanceAs (Decidable (i = k ∧ Uri.normalize path ≠ e))
  | .go _ | .die _ => .isTrue trivial

/-- A drain answers an entry. -/
def Event.Takes (e : String) (event : Event) : Prop :=
  event.request = .drain ∧ ∃ uris, event.answer = .ok uris ∧ e ∈ uris

namespace Point

/-- A handle that marks, or rests. -/
def Marks : Point → Prop
  | .resting | .opening _ | .writing .. => True
  | _ => False

/-- A clear of something else than an entry, if it is one. -/
def Spares (e : String) : Point → Prop
  | .scanning path | .drafting path _ | .filling path _ _ | .placing path _ => Uri.normalize path ≠ e
  | _ => True

/-- A clear has read the log and not put its draft in place yet. -/
def Rewrites : Point → Prop
  | .drafting .. | .filling .. | .placing .. => True
  | _ => False

/-- A mark is about to write to the log. -/
def Lands (σ : Slots) : Point → Prop
  | .writing _ number => ∃ marks, σ.place .log = some ⟨number, marks⟩
  | _ => True

/-- A drain has read an entry in a log that was moved aside before it. -/
def Holds (e : String) : Point → Prop
  | .reading left | .removing left _ => e ∈ left
  | _ => False

/-- An entry is in the log, or in what a drain under way has moved aside, and in whatever takes its place. -/
def Waits (σ : Slots) (e : String) : Point → Prop
  | .reading _ => e ∈ σ.entries .log ∨ e ∈ σ.entries .draining
  | .removing _ fresh => e ∈ σ.entries .log ∨ (e ∈ σ.entries .draining ∧ e ∈ fresh)
  | .drafting path entries => e ∈ σ.entries .log ∧ e ∈ without path entries
  | .filling path entries number =>
    e ∈ σ.entries .log ∧ e ∈ without path entries ∧ ∃ marks, σ.place .draft = some ⟨number, marks⟩
  | .placing _ _ => e ∈ σ.entries .log ∧ e ∈ σ.entries .draft
  | .resting | .opening _ | .writing .. | .looking | .moving _ | .scanning _ => e ∈ σ.entries .log

/-- An entry is in a log that was left aside by a drain which died, or held by the drain that takes it up. -/
def Left (σ : Slots) (e : String) : Point → Prop
  | .moving left => e ∈ σ.entries .draining ∧ e ∈ left
  | .reading left | .removing left _ => e ∈ left
  | _ => e ∈ σ.entries .draining

/-- An entry waits or was left aside. -/
def Keeps (σ : Slots) (e : String) (p : Point) : Prop := p.Waits σ e ∨ p.Left σ e

variable {σ σ' : Slots} {e : String} {p : Point} {known : SortedSet String}

/-- Marks of others only add. -/
theorem Waits.grows (waits : p.Waits σ e) (grows : σ.Grows σ') : p.Waits σ' e := by
  cases p with
  | reading left => exact waits.imp grows.mem grows.mem
  | removing left fresh => exact waits.imp grows.mem (And.imp_left grows.mem)
  | drafting path entries => exact waits.imp_left grows.mem
  | filling path entries number =>
      obtain ⟨listed, copied, marks, draft⟩ := waits
      obtain ⟨more, draft'⟩ := grows.sheets draft
      exact ⟨grows.mem listed, copied, _, draft'⟩
  | placing path entries => exact waits.imp grows.mem grows.mem
  | resting | opening | writing | looking | moving | scanning => exact grows.mem waits

theorem Left.grows (left : p.Left σ e) (grows : σ.Grows σ') : p.Left σ' e := by
  cases p with
  | moving => exact left.imp_left grows.mem
  | reading | removing => exact left
  | _ => exact grows.mem left

theorem Keeps.grows (keeps : p.Keeps σ e) (grows : σ.Grows σ') : p.Keeps σ' e :=
  keeps.imp (·.grows grows) (·.grows grows)

theorem Lands.grows (lands : p.Lands σ) (grows : σ.Grows σ') : p.Lands σ' := by
  cases p with
  | writing path number =>
      obtain ⟨marks, there⟩ := lands
      obtain ⟨more, there'⟩ := grows.sheets there
      exact ⟨_, there'⟩
  | _ => trivial

/-- What is in the log waits, unless the keeper is rewriting it. -/
theorem Waits.of_log (steady : ¬ p.Rewrites) (listed : e ∈ σ.entries .log) : p.Waits σ e := by
  cases p with
  | drafting | filling | placing => exact absurd trivial steady
  | reading | removing => exact .inl listed
  | resting | opening | writing | looking | moving | scanning => exact listed

/-- What waits is listed. -/
theorem Waits.listed (waits : p.Waits σ e) : e ∈ σ.entries .log ∨ e ∈ σ.entries .draining := by
  cases p with
  | reading left => exact waits
  | removing left fresh => exact waits.imp_right And.left
  | drafting | filling | placing => exact .inl waits.1
  | resting | opening | writing | looking | moving | scanning => exact .inl waits

/-- What was left aside is listed, or held by the drain that takes it up. -/
theorem Left.cases (left : p.Left σ e) : e ∈ σ.entries .draining ∨ p.Holds e := by
  cases p with
  | moving => exact .inl left.1
  | reading | removing => exact .inr left
  | _ => exact .inl left

theorem Keeps.cases (keeps : p.Keeps σ e) :
    (e ∈ σ.entries .log ∨ e ∈ σ.entries .draining) ∨ p.Holds e :=
  keeps.elim (fun waits => .inl waits.listed) fun left => left.cases.imp_left .inr

/-- A mark only adds to the places. -/
theorem Marks.step (marks : p.Marks) (known : SortedSet String) (σ : Slots) :
    (p.step known σ).2.1.point.Marks ∧ σ.Grows (p.step known σ).2.2 := by
  cases p with
  | resting => exact ⟨trivial, .refl σ⟩
  | opening path => exact ⟨trivial, .openLog σ⟩
  | writing path number => exact ⟨trivial, .append σ _ _⟩
  | _ => exact marks.elim

theorem Spares.step (spares : p.Spares e) (known : SortedSet String) (σ : Slots) :
    (p.step known σ).2.1.point.Spares e := by
  cases p with
  | moving left =>
      rw [Point.step]
      split <;> trivial
  | scanning path =>
      rw [Point.step]
      split
      · exact spares
      · trivial
  | drafting path entries =>
      rw [Point.step]
      split <;> exact spares
  | filling => exact spares
  | placing path entries =>
      rw [Point.step]
      split <;> trivial
  | resting | opening | writing | looking | reading | removing => trivial

/-- A mark that has just opened the log is about to write to it. -/
theorem lands_step (p : Point) (known : SortedSet String) (σ : Slots) :
    (p.step known σ).2.1.point.Lands (p.step known σ).2.2 := by
  cases p with
  | opening path => exact σ.place_openFile false .log
  | moving left =>
      rw [Point.step]
      split <;> trivial
  | scanning path =>
      rw [Point.step]
      split <;> trivial
  | drafting path entries =>
      rw [Point.step]
      split <;> trivial
  | placing path entries =>
      rw [Point.step]
      split <;> trivial
  | resting | writing | looking | reading | removing | filling => trivial

theorem mem_without {path : String} {entries : List String} :
    e ∈ without path entries ↔ e ∈ entries ∧ Uri.normalize path ≠ e := by
  rw [without, List.mem_filter, decide_eq_true_eq]
  exact and_congr_right fun _ => ne_comm

/-- **Each call of the keeper lets an entry wait**, unless it ends a drain that answers it. -/
theorem Waits.step (waits : p.Waits σ e) (spares : p.Spares e) (known : SortedSet String)
    (untaken : ∀ uris, p.request = .drain → (p.step known σ).1 = some (.ok uris) → e ∉ uris) :
    (p.step known σ).2.1.point.Waits (p.step known σ).2.2 e := by
  cases p with
  | resting => exact waits
  | opening path => exact waits.grows (.openLog σ)
  | writing path number => exact waits.grows (.append σ _ _)
  | looking => exact waits
  | moving left =>
      rw [Point.step]
      cases there : σ.place .log with
      | none =>
          have listed : e ∈ σ.entries .log := waits
          rw [Slots.entries_none there] at listed
          cases listed
      | some sheet =>
          have moved : e ∈ (σ.rename .log .draining).entries .draining := by
            rwa [Slots.entries_congr (σ.place_rename (by decide))]
          exact .inr moved
  | reading left => exact waits.imp_right fun aside => ⟨aside, aside⟩
  | removing left fresh =>
      rcases waits with listed | ⟨-, collected⟩
      · have still : e ∈ (σ.put .draining none).entries .log := by
          rwa [Slots.entries_congr (σ.place_put_of_ne (by decide) none)]
        exact still
      · exact absurd (mem_firstOccurrences.2 (List.mem_append_right left collected)) (untaken _ rfl rfl)
  | scanning path =>
      rw [Point.step]
      split
      · exact ⟨waits, mem_without.2 ⟨waits, spares⟩⟩
      · exact waits
  | drafting path entries =>
      obtain ⟨listed, copied⟩ := waits
      have still : e ∈ (σ.openFile true .draft).entries .log := by
        rwa [Slots.entries_congr (σ.place_openFile_of_ne true (by decide))]
      rw [Point.step, if_neg (List.ne_nil_of_mem copied)]
      exact ⟨still, copied, σ.place_openFile true .draft⟩
  | filling path entries number =>
      obtain ⟨listed, copied, marks, draft⟩ := waits
      have line : e ∈ linesOf e := by
        rw [show linesOf e = [e] from Slots.isLine_of_mem_entries listed]
        exact List.mem_singleton_self e
      exact ⟨(Slots.Grows.append σ number _).mem listed, Slots.mem_entries_append draft copied line⟩
  | placing path entries =>
      rw [Point.step]
      cases there : σ.place .draft with
      | none => exact waits.1
      | some sheet =>
          have moved : e ∈ (σ.rename .draft .log).entries .log := by
            rw [Slots.entries_congr (σ.place_rename (by decide))]
            exact waits.2
          exact moved

/-- **Each call of the keeper keeps what was left aside**, unless it ends a drain that answers it. -/
theorem Left.step (aside : p.Left σ e) (known : SortedSet String)
    (untaken : ∀ uris, p.request = .drain → (p.step known σ).1 = some (.ok uris) → e ∉ uris) :
    (p.step known σ).2.1.point.Left (p.step known σ).2.2 e := by
  cases p with
  | resting => exact aside
  | opening path => exact aside.grows (.openLog σ)
  | writing path number => exact aside.grows (.append σ _ _)
  | looking => exact ⟨aside, aside⟩
  | moving left =>
      rw [Point.step]
      split <;> exact aside.2
  | reading left => exact aside
  | removing left fresh =>
      exact absurd (mem_firstOccurrences.2 (List.mem_append_left fresh aside)) (untaken _ rfl rfl)
  | scanning path =>
      rw [Point.step]
      split <;> exact aside
  | drafting path entries =>
      have still : e ∈ (σ.openFile true .draft).entries .draining := by
        rwa [Slots.entries_congr (σ.place_openFile_of_ne true (by decide))]
      rw [Point.step]
      split <;> exact still
  | filling path entries number => exact aside.grows (.append σ _ _)
  | placing path entries =>
      have still : e ∈ (σ.rename .draft .log).entries .draining := by
        rwa [Slots.entries_congr (σ.place_rename_of_ne (by decide) (by decide))]
      rw [Point.step]
      split
      · exact aside
      · exact still

theorem Keeps.step (keeps : p.Keeps σ e) (spares : p.Spares e) (known : SortedSet String)
    (untaken : ∀ uris, p.request = .drain → (p.step known σ).1 = some (.ok uris) → e ∉ uris) :
    (p.step known σ).2.1.point.Keeps (p.step known σ).2.2 e :=
  keeps.imp (·.step spares known untaken) (·.step known untaken)

end Point

/-! ## What one turn does to the keeper -/

namespace Plan

variable {k : Nat} {e : String} {m : Plan}

/-- A turn as the keeper sees it: it moves on itself, or something is added to the places. -/
inductive Seen (k : Nat) (m : Plan) : Turn → Option Event → Plan → Prop where
  | aside {t : Turn} {event : Option Event} {m' : Plan} (same : m'.seat k = m.seat k)
      (grows : m.slots.Grows m'.slots) : Seen k m t event m'
  | started {request : Request} (resting : (m.seat k).point = .resting) :
      Seen k m (.start k request) (((m.seat k).start request).1.map (⟨k, request, ·⟩))
        (m.seated k ((m.seat k).start request).2 m.slots)
  | went {answer : Option Answer} {s : Seat} {σ : Slots}
      (step : (m.seat k).point.step (m.seat k).known m.slots = (answer, s, σ)) :
      Seen k m (.go k) (answer.map (⟨k, (m.seat k).point.request, ·⟩)) (m.seated k s σ)
  | died : Seen k m (.die k) none (m.seated k ⟨.empty, .resting⟩ m.slots)

/-- The others only mark, the keeper spares an entry, and what it is about to write to is the log. -/
structure Tended (k : Nat) (e : String) (m : Plan) : Prop where
  marks : ∀ i, i ≠ k → (m.seat i).point.Marks
  spares : (m.seat k).point.Spares e
  lands : (m.seat k).point.Lands m.slots

theorem seat_seated (m : Plan) (i : Nat) (s : Seat) (σ : Slots) : (m.seated i s σ).seat i = s :=
  Function.update_self ..

theorem seat_seated_of_ne (m : Plan) {i j : Nat} (other : j ≠ i) (s : Seat) (σ : Slots) :
    (m.seated i s σ).seat j = m.seat j := Function.update_of_ne other ..

/-- What another handle does is seen aside. -/
theorem Tended.aside (tended : Tended k e m) {i : Nat} (other : i ≠ k) {s : Seat} (marks : s.point.Marks) {σ : Slots}
    (grows : m.slots.Grows σ) {t : Turn} {event : Option Event} :
    Seen k m t event (m.seated i s σ) ∧ Tended k e (m.seated i s σ) := by
  have same : (m.seated i s σ).seat k = m.seat k := m.seat_seated_of_ne (Ne.symm other) s σ
  refine ⟨.aside same grows, fun j apart => ?_, by rw [same]; exact tended.spares,
    by rw [same]; exact tended.lands.grows grows⟩
  by_cases own : j = i
  · subst own
    rw [seat_seated]
    exact marks
  · rw [seat_seated_of_ne m own]
    exact tended.marks j apart

/-- The keeper moves on. -/
theorem Tended.own (tended : Tended k e m) {s : Seat} (spares : s.point.Spares e) {σ : Slots}
    (lands : s.point.Lands σ) : Tended k e (m.seated k s σ) where
  marks i other := by
    rw [seat_seated_of_ne m other]
    exact tended.marks i other
  spares := by rwa [seat_seated]
  lands := by rwa [seat_seated]

/-- A turn that nobody takes. -/
theorem Tended.still (tended : Tended k e m) {t : Turn} : Seen k m t none m ∧ Tended k e m :=
  ⟨.aside rfl (.refl _), tended⟩

theorem Tended.start (tended : Tended k e m) {i : Nat} {request : Request}
    (kept : (Turn.start i request).KeptBy k e) :
    Seen k m (.start i request) (m.turn (.start i request)).1 (m.turn (.start i request)).2 ∧
      Tended k e (m.turn (.start i request)).2 := by
  rw [Plan.turn]
  by_cases resting : (m.seat i).point = .resting
  · rw [if_pos resting]
    by_cases other : i = k
    · subst other
      refine ⟨.started resting, ?_⟩
      cases request with
      | mark path =>
          rw [Seat.start]
          split
          · exact tended.own tended.spares tended.lands
          · refine tended.own ?_ ?_ <;> exact trivial
      | drain => refine tended.own ?_ ?_ <;> exact trivial
      | clear path =>
          refine tended.own ?_ ?_
          · exact kept.2
          · exact trivial
    · cases request with
      | mark path =>
          refine tended.aside other ?_ (.refl _)
          rw [Seat.start]
          split
          · exact tended.marks i other
          · trivial
      | drain => exact absurd kept other
      | clear path => exact absurd kept.1 other
  · rw [if_neg resting]
    exact tended.still

theorem Tended.go (tended : Tended k e m) (i : Nat) :
    Seen k m (.go i) (m.turn (.go i)).1 (m.turn (.go i)).2 ∧ Tended k e (m.turn (.go i)).2 := by
  rw [Plan.turn]
  by_cases resting : (m.seat i).point = .resting
  · rw [if_pos resting]
    exact tended.still
  · rw [if_neg resting]
    by_cases other : i = k
    · subst other
      exact ⟨.went rfl, tended.own (tended.spares.step _ _) (Point.lands_step _ _ _)⟩
    · obtain ⟨marks, grows⟩ := (tended.marks i other).step (m.seat i).known m.slots
      exact tended.aside other marks grows

theorem Tended.die (tended : Tended k e m) (i : Nat) :
    Seen k m (.die i) (m.turn (.die i)).1 (m.turn (.die i)).2 ∧ Tended k e (m.turn (.die i)).2 := by
  rw [Plan.turn]
  by_cases other : i = k
  · subst other
    refine ⟨.died, tended.own ?_ ?_⟩ <;> exact trivial
  · refine tended.aside other ?_ (.refl _)
    exact trivial

/-- A turn that fits the keeper is seen so by it. -/
theorem Tended.turn (tended : Tended k e m) {t : Turn} (kept : t.KeptBy k e) :
    Seen k m t (m.turn t).1 (m.turn t).2 ∧ Tended k e (m.turn t).2 := by
  cases t with
  | start i request => exact tended.start kept
  | go i => exact tended.go i
  | die i => exact tended.die i

/-! ## What turns keep -/

/-- The keeper is in a drain that has read an entry in a log which lies aside no longer. -/
def Loses (k : Nat) (e : String) (m : Plan) : Prop :=
  (m.seat k).point.Holds e ∧ e ∉ m.slots.entries .draining

/-- What the keeper remembers to have marked is kept. -/
def Knows (k : Nat) (e : String) (m : Plan) : Prop :=
  ∀ uri ∈ (m.seat k).known, e ∈ linesOf uri → (m.seat k).point.Keeps m.slots e

/-- To be given a request changes nothing that waits. -/
theorem waits_start {s : Seat} {σ : Slots} (resting : s.point = .resting) (request : Request)
    (waits : s.point.Waits σ e) : (s.start request).2.point.Waits σ e := by
  have listed : e ∈ σ.entries .log := by rwa [resting] at waits
  cases request with
  | mark path =>
      rw [Seat.start]
      split
      · exact waits
      · exact listed
  | drain => exact listed
  | clear path => exact listed

theorem left_start {s : Seat} {σ : Slots} (resting : s.point = .resting) (request : Request)
    (left : s.point.Left σ e) : (s.start request).2.point.Left σ e := by
  have aside : e ∈ σ.entries .draining := by rwa [resting] at left
  cases request with
  | mark path =>
      rw [Seat.start]
      split
      · exact left
      · exact aside
  | drain => exact aside
  | clear path => exact aside

theorem keeps_start {s : Seat} {σ : Slots} (resting : s.point = .resting) (request : Request)
    (keeps : s.point.Keeps σ e) : (s.start request).2.point.Keeps σ e :=
  keeps.imp (waits_start resting request) (left_start resting request)

/-- A handle remembers what it has just marked and what it remembered, unless a drain has ended. -/
theorem mem_known_step {p : Point} {known : SortedSet String} {σ : Slots} {uri : String}
    (remembered : uri ∈ (p.step known σ).2.1.known) :
    (uri ∈ known ∧ ∀ uris, p.request = .drain → (p.step known σ).1 ≠ some (.ok uris)) ∨
      ∃ path number, p = .writing path number ∧ uri = Uri.normalize path := by
  have unanswered : ∀ uris : List String, (none : Option Answer) ≠ some (.ok uris) := fun _ same => by cases same
  cases p with
  | writing path number =>
      rcases SortedSet.mem_insert.1 remembered with same | before
      · exact .inr ⟨path, number, rfl, same⟩
      · exact .inl ⟨before, by rintro _ ⟨⟩⟩
  | removing left fresh => exact absurd remembered (SortedSet.not_mem_empty uri)
  | looking | reading => exact .inl ⟨remembered, fun uris _ => unanswered uris⟩
  | moving left =>
      rw [Point.step] at remembered ⊢
      split at remembered <;> exact .inl ⟨remembered, fun uris _ => unanswered uris⟩
  | scanning path =>
      rw [Point.step] at remembered
      split at remembered <;> exact .inl ⟨remembered, by rintro _ ⟨⟩⟩
  | drafting path entries =>
      rw [Point.step] at remembered
      split at remembered <;> exact .inl ⟨remembered, by rintro _ ⟨⟩⟩
  | placing path entries =>
      rw [Point.step] at remembered
      split at remembered <;> exact .inl ⟨remembered, by rintro _ ⟨⟩⟩
  | resting | opening | filling => exact .inl ⟨remembered, fun uris _ => unanswered uris⟩

namespace Seen

variable {t : Turn} {event : Option Event} {m' : Plan}

/-- A drain that a turn ends answers no entry that no drain answers. -/
theorem untaken_step {answer : Option Answer} {request : Request}
    (untaken : ∀ answered, answer.map (Event.mk k request) = some answered → ¬ answered.Takes e) :
    ∀ uris, request = .drain → answer = some (.ok uris) → e ∉ uris := by
  rintro uris drains rfl member
  exact untaken _ rfl ⟨drains, uris, rfl, member⟩

/-- **A turn lets an entry wait**, unless a drain answers it or the keeper dies. -/
theorem waits (seen : Seen k m t event m') (tended : Tended k e m)
    (untaken : ∀ answered, event = some answered → ¬ answered.Takes e) (alive : t ≠ .die k)
    (waits : (m.seat k).point.Waits m.slots e) : (m'.seat k).point.Waits m'.slots e := by
  cases seen with
  | aside same grows =>
      rw [same]
      exact waits.grows grows
  | started resting =>
      rw [seat_seated]
      exact waits_start resting _ waits
  | went step =>
      have kept := waits.step tended.spares (m.seat k).known (by rw [step]; exact untaken_step untaken)
      rw [step] at kept
      rw [seat_seated]
      exact kept
  | died => exact absurd rfl alive

/-- **A turn keeps an entry**, unless a drain answers it or is lost with it. -/
theorem keeps (seen : Seen k m t event m') (tended : Tended k e m)
    (untaken : ∀ answered, event = some answered → ¬ answered.Takes e) (alive : t = .die k → ¬ m.Loses k e)
    (keeps : (m.seat k).point.Keeps m.slots e) : (m'.seat k).point.Keeps m'.slots e := by
  cases seen with
  | aside same grows =>
      rw [same]
      exact keeps.grows grows
  | started resting =>
      rw [seat_seated]
      exact keeps_start resting _ keeps
  | went step =>
      have kept := keeps.step tended.spares (m.seat k).known (by rw [step]; exact untaken_step untaken)
      rw [step] at kept
      rw [seat_seated]
      exact kept
  | died =>
      rw [seat_seated]
      rcases keeps.cases with (listed | aside) | held
      · exact .inl listed
      · exact .inr aside
      · exact .inr (Classical.not_not.1 fun missing => alive rfl ⟨held, missing⟩)

/-- **What the keeper remembers stays kept**, whatever dies. -/
theorem knows (seen : Seen k m t event m') (tended : Tended k e m) (knows : m.Knows k e) : m'.Knows k e := by
  intro uri remembered entry
  cases seen with
  | aside same grows =>
      rw [same] at remembered ⊢
      exact (knows uri remembered entry).grows grows
  | @started request resting =>
      rw [seat_seated] at remembered ⊢
      have before : uri ∈ (m.seat k).known := by
        cases request with
        | mark path =>
            rw [Seat.start] at remembered
            split at remembered <;> exact remembered
        | drain => exact remembered
        | clear path => exact (SortedSet.mem_erase.1 remembered).1
      exact keeps_start resting _ (knows uri before entry)
  | @went answer s σ step =>
      rw [seat_seated] at remembered ⊢
      have known : uri ∈ ((m.seat k).point.step (m.seat k).known m.slots).2.1.known := by rwa [step]
      have kept : ((m.seat k).point.step (m.seat k).known m.slots).2.1.point.Keeps
          ((m.seat k).point.step (m.seat k).known m.slots).2.2 e := by
        rcases mem_known_step known with ⟨before, unanswered⟩ | ⟨path, number, writing, rfl⟩
        · exact (knows uri before entry).step tended.spares _ fun uris drains answered =>
            absurd answered (unanswered uris drains)
        · have lands := tended.lands
          rw [writing] at lands ⊢
          obtain ⟨marks, there⟩ := lands
          exact .inl (Slots.mem_entries_append there (List.mem_singleton_self _) entry)
      rw [step] at kept
      exact kept
  | died =>
      rw [seat_seated] at remembered
      exact absurd remembered (SortedSet.not_mem_empty uri)

end Seen

/-- A mark that is answered is remembered. -/
theorem known_of_marked {t : Turn} {path : String} (marked : (m.turn t).1 = some ⟨k, .mark path, .ok []⟩) :
    Uri.normalize path ∈ ((m.turn t).2.seat k).known := by
  cases t with
  | start i request =>
      rw [turn] at marked ⊢
      by_cases resting : (m.seat i).point = .resting
      · rw [if_pos resting] at marked ⊢
        obtain ⟨answer, answered, same⟩ := Option.map_eq_some_iff.1 marked
        cases same
        rw [seat_seated]
        rw [Seat.start] at answered ⊢
        split at answered
        next remembered =>
          rw [if_pos remembered]
          exact List.contains_iff_mem.1 remembered
        next => cases answered
      · rw [if_neg resting] at marked
        cases marked
  | go i =>
      rw [turn] at marked ⊢
      by_cases resting : (m.seat i).point = .resting
      · rw [if_pos resting] at marked
        cases marked
      · rw [if_neg resting] at marked ⊢
        obtain ⟨answer, answered, same⟩ := Option.map_eq_some_iff.1 marked
        obtain ⟨rfl, request, rfl⟩ := Event.mk.inj same
        simp only [seat_seated]
        cases place : (m.seat i).point with
        | writing path' number =>
            rw [place] at request
            cases request
            exact SortedSet.mem_insert.2 (.inl rfl)
        | opening path' =>
            rw [place] at answered
            cases answered
        | _ =>
            rw [place] at request
            cases request
  | die i => cases marked

/-! ## What runs keep -/

/-- What holds at the start and is kept by each turn of a run holds at its end. -/
theorem run_induction {I : Plan → Prop} {turns : List Turn} (start : I m)
    (turn : ∀ earlier t later, turns = earlier ++ t :: later → I (m.run earlier).2 →
      I ((m.run earlier).2.turn t).2) : I (m.run turns).2 := by
  induction turns generalizing m with
  | nil => exact start
  | cons t later ih =>
      refine ih (turn [] t later rfl start) fun earlier t' later' split holds => ?_
      exact turn (t :: earlier) t' later' (by rw [split]; rfl) holds

theorem event_mem {earlier later : List Turn} {t : Turn} {answered : Event}
    (event : ((m.run earlier).2.turn t).1 = some answered) : answered ∈ (m.run (earlier ++ t :: later)).1 := by
  induction earlier generalizing m with
  | nil =>
      have first : (m.turn t).1 = some answered := event
      rw [List.nil_append, run, first]
      exact List.mem_append_left _ (List.mem_singleton_self _)
  | cons t' earlier ih => exact List.mem_append_right _ (ih event)

variable {turns : List Turn}

theorem Tended.run (tended : Tended k e m) (kept : ∀ t ∈ turns, t.KeptBy k e) : Tended k e (m.run turns).2 :=
  run_induction tended fun _ t _ split tended => (tended.turn (kept t (by simp [split]))).2

/-- What each turn keeps that the keeper sees, a run of turns keeps. -/
theorem Tended.run_induction {I : Plan → Prop} (tended : Tended k e m) (kept : ∀ t ∈ turns, t.KeptBy k e) (start : I m)
    (turn : ∀ earlier t later, turns = earlier ++ t :: later →
      Seen k (m.run earlier).2 t ((m.run earlier).2.turn t).1 ((m.run earlier).2.turn t).2 →
      Tended k e (m.run earlier).2 → I (m.run earlier).2 → I ((m.run earlier).2.turn t).2) : I (m.run turns).2 := by
  have both : Tended k e (m.run turns).2 ∧ I (m.run turns).2 := by
    refine Plan.run_induction (I := fun m => Tended k e m ∧ I m) ⟨tended, start⟩ fun earlier t later split holds => ?_
    obtain ⟨seen, tended'⟩ := holds.1.turn (kept t (by simp [split]))
    exact ⟨tended', turn earlier t later split seen holds.1 holds.2⟩
  exact both.2

/-- **An entry is kept** until a drain answers it, if none is lost with it. -/
theorem Tended.run_keeps (tended : Tended k e m) (kept : ∀ t ∈ turns, t.KeptBy k e)
    (untaken : ∀ answered ∈ (m.run turns).1, ¬ answered.Takes e)
    (alive : ∀ earlier later, turns = earlier ++ .die k :: later → ¬ (m.run earlier).2.Loses k e)
    (keeps : (m.seat k).point.Keeps m.slots e) :
    ((m.run turns).2.seat k).point.Keeps (m.run turns).2.slots e := by
  refine tended.run_induction (I := fun m => (m.seat k).point.Keeps m.slots e) kept keeps ?_
  intro earlier t later split seen tended keeps
  refine seen.keeps tended (fun answered event => untaken answered (split ▸ event_mem event)) ?_ keeps
  rintro rfl
  exact alive earlier later split

/-- **An entry waits** until a drain answers it, as long as the keeper lives. -/
theorem Tended.run_waits (tended : Tended k e m) (kept : ∀ t ∈ turns, t.KeptBy k e ∧ t ≠ .die k)
    (untaken : ∀ answered ∈ (m.run turns).1, ¬ answered.Takes e) (waits : (m.seat k).point.Waits m.slots e) :
    ((m.run turns).2.seat k).point.Waits (m.run turns).2.slots e := by
  refine tended.run_induction (I := fun m => (m.seat k).point.Waits m.slots e) (fun t member => (kept t member).1)
    waits ?_
  intro earlier t later split seen tended waits
  exact seen.waits tended (fun answered event => untaken answered (split ▸ event_mem event))
    (kept t (by simp [split])).2 waits

theorem Tended.run_knows (tended : Tended k e m) (kept : ∀ t ∈ turns, t.KeptBy k e) (knows : m.Knows k e) :
    (m.run turns).2.Knows k e :=
  tended.run_induction (I := Knows k e) kept knows fun _ _ _ _ seen tended knows =>
    seen.knows tended knows

end Plan

/-! ## Crowds -/

/-- The file that the next call writes to. -/
def Rest.target : Rest → Option Nat
  | .call (.append file _) _ => some file
  | _ => none

/-- Whether the next call reads a file, and one that is missing is removed next. -/
def Rest.endsReading : Rest → Bool
  | .call (.read _) next =>
    match next (.error .notFound) with
    | .call (.removeFile _) _ => true
    | _ => false
  | _ => false

section

variable {root : Path} {known : SortedSet String} {s : Seat}

theorem hand_eq_busy {request : Request} {rest : Rest} (same : s.hand root = .busy request rest) :
    s.point.request = request ∧ s.point.rest (s.log root) = rest := by
  by_cases resting : s.point = .resting
  · rw [Seat.hand_resting resting] at same
    cases same
  · rw [Seat.hand_busy resting] at same
    cases same
    exact ⟨rfl, rfl⟩

/-- A handle that is about to write a mark sits nowhere else. -/
theorem point_of_writing {path : String} {number : Nat}
    (same : s.hand root = Seat.hand root ⟨known, .writing path number⟩) : s.point = .writing path number := by
  obtain ⟨request, rest⟩ := hand_eq_busy same
  have target := congrArg Rest.target rest
  cases place : s.point with
  | writing path' number' =>
      rw [place] at request target
      cases request
      cases target
      rfl
  | opening path' =>
      rw [place] at target
      cases target
  | _ =>
      rw [place] at request
      cases request

/-- A handle that is about to read what it moved aside sits nowhere else. -/
theorem point_of_reading {left : List String} (same : s.hand root = Seat.hand root ⟨known, .reading left⟩) :
    ∃ left', s.point = .reading left' := by
  obtain ⟨request, rest⟩ := hand_eq_busy same
  have ends := congrArg Rest.endsReading rest
  cases place : s.point with
  | reading left' => exact ⟨left', rfl⟩
  | opening | writing | scanning | drafting | filling | placing =>
      rw [place] at request
      cases request
  | _ =>
      rw [place] at ends
      cases ends

end

namespace Crowd

variable (root : Path) (base : Address) (c : Crowd)

/-- Handles at rest on a log, which remember something each. -/
def opened (known : Nat → SortedSet String) (w : World) : Crowd := ⟨fun i => .idle ⟨root.child fileName, known i⟩, w⟩

/-- A handle stands at a point. -/
def At (i : Nat) (p : Point) : Prop := ∃ known, c.hand i = Seat.hand root ⟨known, p⟩

/-- An entry is listed in the log, or in the log that was moved aside. -/
def Lists (e : String) : Prop :=
  e ∈ entriesIn c.world.disk (Part.log.address base) ∨ e ∈ entriesIn c.world.disk (Part.draining.address base)

/-- The file of a number lies in a place. -/
def Holds (p : Part) (number : Nat) : Prop :=
  ∃ content time, c.world.disk.node? (p.address base) = some (.file number content time)

/-- An open file is the log, which the keeper is not rewriting, or it is what the keeper moved aside and is about
to read. -/
def Lands (k number : Nat) : Prop :=
  (c.Holds base .log number ∧ ∀ p, c.At root k p → ¬ p.Rewrites) ∨
    (c.Holds base .draining number ∧ ∃ left, c.At root k (.reading left))

/-- The keeper is in a drain that has read an entry in a log which lies aside no longer. -/
def Loses (k : Nat) (e : String) : Prop :=
  (∃ p, c.At root k p ∧ p.Holds e) ∧ e ∉ entriesIn c.world.disk (Part.draining.address base)

end Crowd

section

variable {root : Path} {base : Address} {σ : Slots} {w : World} {known : Nat → SortedSet String} {m : Plan}
  {c : Crowd} {k i number : Nat} {path e : String} {t : Turn} {before after : List Turn}

namespace Plan.Shows

theorem opened (filed : Filed root base σ w.disk) (known : Nat → SortedSet String) :
    Shows root base ⟨fun i => ⟨known i, .resting⟩, σ⟩ (.opened root known w) where
  filed := filed
  hand _ := rfl
  owns _ := trivial

theorem at_seat (shows_ : Shows root base m c) (i : Nat) : c.At root i (m.seat i).point :=
  ⟨(m.seat i).known, shows_.hand i⟩

theorem lists (shows_ : Shows root base m c) :
    c.Lists base e ↔ e ∈ m.slots.entries .log ∨ e ∈ m.slots.entries .draining := by
  rw [Crowd.Lists, shows_.filed.entriesIn_eq, shows_.filed.entriesIn_eq]

theorem holds (shows_ : Shows root base m c) {p : Part} (holds : c.Holds base p number) :
    ∃ marks, m.slots.place p = some ⟨number, marks⟩ := by
  obtain ⟨content, time, there⟩ := holds
  cases place : m.slots.place p with
  | none =>
      rw [shows_.filed.none_of place] at there
      cases there
  | some sheet =>
      obtain ⟨time', file⟩ := shows_.filed.some_of place
      rw [file] at there
      cases there
      exact ⟨sheet.marks, rfl⟩

theorem loses (shows_ : Shows root base m c) (loses : m.Loses k e) : c.Loses root base k e := by
  rw [Crowd.Loses, shows_.filed.entriesIn_eq]
  exact ⟨⟨_, shows_.at_seat k, loses.1⟩, loses.2⟩

end Plan.Shows

/-- Handles at rest are tended. -/
theorem tended_opened (k : Nat) (e : String) (known : Nat → SortedSet String) (σ : Slots) :
    Plan.Tended k e ⟨fun i => ⟨known i, .resting⟩, σ⟩ := ⟨fun _ _ => trivial, trivial, trivial⟩

/-- The turn that writes a mark which lands lets its entries wait. -/
theorem waits_of_lands (shows_ : Plan.Shows root base m c) (tended : m.Tended k e)
    (writes : c.At root i (.writing path number)) (lands : c.Lands root base k number)
    (entry : e ∈ linesOf (Uri.normalize path)) :
    (m.turn (.go i)).1 = some ⟨i, .mark path, .ok []⟩ ∧
      (((m.turn (.go i)).2.seat k).point.Waits (m.turn (.go i)).2.slots e) := by
  obtain ⟨_, same⟩ := writes
  have place : (m.seat i).point = .writing path number := point_of_writing ((shows_.hand i).symm.trans same)
  have written : ∀ {p : Part}, c.Holds base p number →
      e ∈ (m.slots.append number [Uri.normalize path]).entries p := by
    intro p holds
    obtain ⟨marks, there⟩ := shows_.holds holds
    exact Slots.mem_entries_append there (List.mem_singleton_self _) entry
  have turned : m.turn (.go i) = (some ⟨i, .mark path, .ok []⟩,
      m.seated i ⟨(m.seat i).known.insert (Uri.normalize path), .resting⟩
        (m.slots.append number [Uri.normalize path])) := by
    rw [Plan.turn, place]
    rfl
  rw [turned]
  refine ⟨rfl, ?_⟩
  show Point.Waits (m.slots.append number [Uri.normalize path]) e ((m.seated i _ _).seat k).point
  by_cases own : k = i
  · -- The keeper's own mark lands in the log.
    subst own
    have opens := tended.lands
    rw [place] at opens
    obtain ⟨marks, there⟩ := opens
    rw [Plan.seat_seated]
    exact Slots.mem_entries_append there (List.mem_singleton_self _) entry
  · rw [Plan.seat_seated_of_ne m own]
    rcases lands with ⟨log, steady⟩ | ⟨aside, left, _, reading⟩
    · exact .of_log (steady _ (shows_.at_seat k)) (written log)
    · obtain ⟨left', there⟩ := point_of_reading ((shows_.hand k).symm.trans reading)
      rw [there]
      exact .inr (written aside)

/-! ### A sample -/

/-- New handles on a log in the new index. -/
def sampleCrowd : Crowd := .opened DirtyLog.sampleRoot (fun _ => .empty) newIndex

/-- Their plan. -/
def samplePlan : Plan := ⟨fun _ => ⟨.empty, .resting⟩, .bare 0⟩

theorem sampleShows (turns : List Turn) :
    (sampleCrowd.run DirtyLog.sampleRoot turns).1 = (samplePlan.run turns).1 ∧
      Plan.Shows DirtyLog.sampleRoot [[105]] (samplePlan.run turns).2
        (sampleCrowd.run DirtyLog.sampleRoot turns).2 :=
  (Plan.Shows.opened (filed_fresh newIndex_fresh) _).run turns

/-- **A mark that lands is listed until a drain answers it.** Any number of handles mark files, each line by one call,
and one of them, `k`, drains and clears others than `e`. -/
theorem landed_marks_wait (filed : Filed root base σ w.disk)
    (reached : ((Crowd.opened root known w).run root before).2 = c)
    (kept : ∀ t ∈ before ++ .go i :: after, t.KeptBy k e ∧ t ≠ .die k)
    (writes : c.At root i (.writing path number)) (lands : c.Lands root base k number)
    (entry : e ∈ linesOf (Uri.normalize path))
    (untaken : ∀ answered ∈ (c.run root (.go i :: after)).1, ¬ answered.Takes e) :
    (c.turn root (.go i)).1 = some ⟨i, .mark path, .ok []⟩ ∧ (c.run root (.go i :: after)).2.Lists base e := by
  subst reached
  obtain ⟨-, shows_⟩ := (Plan.Shows.opened filed known).run before
  have tended := (tended_opened k e known σ).run fun t member => (kept t (List.mem_append_left _ member)).1
  obtain ⟨event, waits⟩ := waits_of_lands shows_ tended writes lands entry
  obtain ⟨turned, shows'⟩ := shows_.turn (.go i)
  obtain ⟨events, shows''⟩ := shows'.run after
  obtain ⟨-, tended'⟩ := tended.turn (kept (.go i) (by simp)).1
  have waits' := tended'.run_waits (fun t member => kept t (by simp [member]))
    (fun answered member => untaken answered (List.mem_append_right _ (events ▸ member))) waits
  exact ⟨turned.trans event, shows''.lists.2 waits'.listed⟩

/-- A drain has moved the log aside, and a mark that opened it before is about to write to it. -/
def landedBefore : List Turn :=
  [.start 0 (.mark "/y"), .go 0, .go 0, .start 0 (.mark "/x"), .go 0, .start 1 .drain, .go 1, .go 1]

/-- The mark lands in what the drain reads next, while the handle 2 starts a new log. -/
theorem sample_landed_marks_wait :
    ((sampleCrowd.run DirtyLog.sampleRoot landedBefore).2.turn DirtyLog.sampleRoot (.go 0)).1 =
        some ⟨0, .mark "/x", .ok []⟩ ∧
      ((sampleCrowd.run DirtyLog.sampleRoot landedBefore).2.run DirtyLog.sampleRoot
        [.go 0, .start 2 (.mark "/z"), .go 2, .go 1, .go 2]).2.Lists [[105]] "file:///x" := by
  obtain ⟨-, shows_⟩ := sampleShows landedBefore
  have writing : ((samplePlan.run landedBefore).2.seat 0).point = .writing "/x" 0 := by decide +kernel
  have reading : ((samplePlan.run landedBefore).2.seat 1).point = .reading [] := by decide +kernel
  have aside : (samplePlan.run landedBefore).2.slots.place .draining = some ⟨0, ["file:///y"]⟩ := by decide +kernel
  obtain ⟨time, file⟩ := shows_.filed.some_of aside
  refine landed_marks_wait (filed_fresh newIndex_fresh) rfl (k := 1) (by decide +kernel)
    (writing ▸ shows_.at_seat 0) (.inr ⟨⟨_, time, file⟩, [], reading ▸ shows_.at_seat 1⟩) (by decide +kernel) ?_
  obtain ⟨events, -⟩ := shows_.run [.go 0, .start 2 (.mark "/z"), .go 2, .go 1, .go 2]
  have marks : ((samplePlan.run landedBefore).2.run [.go 0, .start 2 (.mark "/z"), .go 2, .go 1, .go 2]).1 =
      [⟨0, .mark "/x", .ok []⟩, ⟨2, .mark "/z", .ok []⟩] := by decide +kernel
  rw [events, marks]
  simp [Event.Takes]

/-- A mark that is written while a clear of another file has the log in hand. -/
def clearCrossed : List Turn :=
  [.start 0 (.mark "/y"), .go 0, .go 0, .start 1 (.clear "/y"), .go 1, .start 0 (.mark "/x"), .go 0, .go 0, .go 1,
    .go 1]

/-- A mark that opens the log before a drain moves it aside, and writes when the drain has removed it. -/
def drainCrossed : List Turn :=
  [.start 0 (.mark "/x"), .go 0, .start 1 .drain, .go 1, .go 1, .go 1, .go 1, .go 0]

/-- **A mark is lost that crosses a clear or a drain of another handle**: it is answered, no drain answers it, and
it is not listed any more. -/
theorem crossed_marks_lost :
    (sampleCrowd.run DirtyLog.sampleRoot clearCrossed).1 =
        [⟨0, .mark "/y", .ok []⟩, ⟨0, .mark "/x", .ok []⟩, ⟨1, .clear "/y", .ok []⟩] ∧
      ¬ (sampleCrowd.run DirtyLog.sampleRoot clearCrossed).2.Lists [[105]] "file:///x" ∧
      (sampleCrowd.run DirtyLog.sampleRoot drainCrossed).1 =
        [⟨1, .drain, .ok []⟩, ⟨0, .mark "/x", .ok []⟩] ∧
      ¬ (sampleCrowd.run DirtyLog.sampleRoot drainCrossed).2.Lists [[105]] "file:///x" := by
  obtain ⟨cleared, shows_⟩ := sampleShows clearCrossed
  obtain ⟨drained, shows'⟩ := sampleShows drainCrossed
  rw [cleared, shows_.lists, drained, shows'.lists]
  exact ⟨by decide +kernel, by decide +kernel, by decide +kernel, by decide +kernel⟩

/-- **A mark of the keeper is listed until a drain answers it**, or held by the drain that takes it up. Whatever was
left aside at first and whatever dies, this is lost only if the keeper dies in a drain that moved the log in place
of what it has read. -/
theorem own_marks_wait {c' : Crowd} (filed : Filed root base σ w.disk) (fresh : known k = .empty)
    (reached : ((Crowd.opened root known w).run root before).2 = c)
    (kept : ∀ t' ∈ before ++ t :: after, t'.KeptBy k e)
    (marked : c.turn root t = (some ⟨k, .mark path, .ok []⟩, c')) (entry : e ∈ linesOf (Uri.normalize path))
    (untaken : ∀ answered ∈ (c'.run root after).1, ¬ answered.Takes e)
    (alive : ∀ earlier later, after = earlier ++ .die k :: later →
      ¬ (c'.run root earlier).2.Loses root base k e) :
    (c'.run root after).2.Lists base e ∨ ∃ p, (c'.run root after).2.At root k p ∧ p.Holds e := by
  subst reached
  obtain ⟨-, shows_⟩ := (Plan.Shows.opened filed known).run before
  obtain ⟨turned, shows'⟩ := shows_.turn t
  rw [marked] at turned shows'
  have kept_before : ∀ t ∈ before, t.KeptBy k e := fun t member => kept t (List.mem_append_left _ member)
  have start := tended_opened k e known σ
  have unknown : Plan.Knows k e ⟨fun i => ⟨known i, .resting⟩, σ⟩ := by
    intro uri remembered
    rw [show ((⟨fun i => ⟨known i, .resting⟩, σ⟩ : Plan).seat k).known = .empty from fresh] at remembered
    exact absurd remembered (SortedSet.not_mem_empty uri)
  have tended := start.run kept_before
  obtain ⟨seen, tended'⟩ := tended.turn (kept t (by simp))
  have keeps := seen.knows tended (start.run_knows kept_before unknown) _
    (Plan.known_of_marked turned.symm) entry
  obtain ⟨events, shows''⟩ := shows'.run after
  have keeps' := tended'.run_keeps (fun t member => kept t (by simp [member]))
    (fun answered member => untaken answered (events ▸ member)) (fun earlier later split loses => ?_) keeps
  · rcases keeps'.cases with listed | held
    · exact .inl (shows''.lists.2 listed)
    · exact .inr ⟨_, shows''.at_seat k, held⟩
  · obtain ⟨-, shows₁⟩ := shows'.run earlier
    exact alive earlier later split (shows₁.loses loses)

/-- A drain dies with a log left aside, and a mark opens a new one. -/
def ownBefore : List Turn :=
  [.start 0 (.mark "/y"), .go 0, .go 0, .start 0 .drain, .go 0, .go 0, .die 0, .start 0 (.mark "/x"), .go 0]

/-- A second drain dies when it has moved the log in place of what was left: the mark in the log is still listed. -/
theorem sample_own_marks_wait :
    ((sampleCrowd.run DirtyLog.sampleRoot ownBefore).2.turn DirtyLog.sampleRoot (.go 0)).1 =
        some ⟨0, .mark "/x", .ok []⟩ ∧
      ((((sampleCrowd.run DirtyLog.sampleRoot ownBefore).2.turn DirtyLog.sampleRoot (.go 0)).2.run
          DirtyLog.sampleRoot [.start 0 .drain, .go 0, .go 0, .die 0]).2.Lists [[105]] "file:///x" ∨
        ∃ p, (((sampleCrowd.run DirtyLog.sampleRoot ownBefore).2.turn DirtyLog.sampleRoot (.go 0)).2.run
          DirtyLog.sampleRoot [.start 0 .drain, .go 0, .go 0, .die 0]).2.At DirtyLog.sampleRoot 0 p ∧
            p.Holds "file:///x") := by
  obtain ⟨-, shows_⟩ := sampleShows ownBefore
  obtain ⟨turned, shows'⟩ := shows_.turn (.go 0)
  have marked := turned.trans (show _ = some ⟨0, .mark "/x", .ok []⟩ by decide +kernel)
  refine ⟨marked, own_marks_wait (filed_fresh newIndex_fresh) rfl rfl (by decide +kernel)
    (Prod.ext marked rfl) (by decide +kernel) ?_ ?_⟩
  · obtain ⟨events, -⟩ := shows'.run [.start 0 .drain, .go 0, .go 0, .die 0]
    have none_ :
        (((samplePlan.run ownBefore).2.turn (.go 0)).2.run [.start 0 .drain, .go 0, .go 0, .die 0]).1 = [] := by
      decide +kernel
    rw [events, none_]
    simp
  · intro earlier later split loses
    obtain rfl : earlier = [.start 0 .drain, .go 0, .go 0] := by
      rcases earlier with _ | ⟨_, _ | ⟨_, _ | ⟨_, _ | ⟨_, earlier⟩⟩⟩⟩ <;> simp at split
      obtain ⟨rfl, rfl, rfl, -⟩ := split
      rfl
    obtain ⟨-, shows₁⟩ := shows'.run [.start 0 .drain, .go 0, .go 0]
    have aside : "file:///x" ∈
        (((samplePlan.run ownBefore).2.turn (.go 0)).2.run
          [.start 0 .drain, .go 0, .go 0]).2.slots.entries .draining := by
      decide +kernel
    exact loses.2 ((shows₁.filed.entriesIn_eq .draining).symm ▸ aside)

/-- Two drains die, the second one when it has moved a new log in place of what the first one left aside. -/
def twiceDied : List Turn :=
  [.start 0 (.mark "/y"), .go 0, .go 0, .start 0 .drain, .go 0, .go 0, .die 0,
    .start 0 (.mark "/x"), .go 0, .go 0, .start 0 .drain, .go 0, .go 0, .die 0]

/-- **A mark is lost when a drain dies that had taken up what another one left**: it is answered, no drain answers
it, and it is not listed any more. -/
theorem recovered_marks_lost :
    (sampleCrowd.run DirtyLog.sampleRoot twiceDied).1 = [⟨0, .mark "/y", .ok []⟩, ⟨0, .mark "/x", .ok []⟩] ∧
      ¬ (sampleCrowd.run DirtyLog.sampleRoot twiceDied).2.Lists [[105]] "file:///y" ∧
      (sampleCrowd.run DirtyLog.sampleRoot twiceDied).2.hand 0 = .idle (.ofRoot DirtyLog.sampleRoot) := by
  obtain ⟨events, shows_⟩ := sampleShows twiceDied
  refine ⟨events.trans (by decide +kernel), fun lists => ?_, shows_.hand 0⟩
  exact absurd (shows_.lists.1 lists) (by decide +kernel)

end

end FileLog

end SymbolIndex
