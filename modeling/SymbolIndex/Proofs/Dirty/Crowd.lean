import SymbolIndex.Proofs.Dirty.Places

/-!
# Proofs.Dirty.Crowd — handles on one log, call by call

A handle serves one request at a time. Handles do not wait for each other: between two calls of one of them the
others make theirs, and the process of a handle may die and open the log anew (`Turn`). Each request is the script
that the handle runs (`Request.act`), one call at a turn (`Crowd.turn`, `Crowd.run`), so a request that nothing
comes between is what that script comes to (`Crowd.undisturbed`). The line of a mark is one call: it is assumed
that no handle writes, and that none dies, between a URI and its line feed.

A handle in the middle of a request stands at one of ten points (`Point`), each a call with what the handle holds by
then. What the calls do to the three places of the log is a plan of the crowd (`Seat.step`, `Plan.run`). A crowd
that starts as a plan shows it goes on as the plan does, with the same answers (`Plan.Shows.run`), so what a crowd
keeps to is read off the plan.
-/

namespace SymbolIndex

open Action (outcome)
open SymbolIndex.Text (Bytes decode?)

set_option autoImplicit false

/-- A script after its next call. -/
def Script.step {α : Type} : Script α → World → Script α × World
  | .done a, w => (.done a, w)
  | .call request next, w => (next (request.perform w).1, (request.perform w).2)

namespace FileLog

/-! ## Requests, one call at a time -/

/-- What a handle is asked for. -/
inductive Request where
  | mark (path : String)
  | drain
  | clear (path : String)
  deriving DecidableEq

/-- What a request gives: the URIs of a drain, and none for the others. -/
abbrev Answer := Except DirtyError (List String)

/-- What is left to do of a request. -/
abbrev Rest := Script (Answer × FileLog)

/-- A request as an action of its handle. -/
def Request.act : Request → Action FileLog DirtyError (List String)
  | .mark path => do
    FileLog.mark path
    return []
  | .drain => FileLog.drain
  | .clear path => do
    FileLog.clear path
    return []

/-- A handle: at rest, or in the middle of a request. -/
inductive Hand where
  | idle (log : FileLog)
  | busy (request : Request) (rest : Rest)

/-- Handles on one log, and the world that keeps it. -/
structure Crowd where
  hand : Nat → Hand
  world : World

/-- What happens next. -/
inductive Turn where
  /-- A handle at rest is given a request. -/
  | start (i : Nat) (request : Request)
  /-- A handle in the middle of a request makes its next call. -/
  | go (i : Nat)
  /-- The process of a handle dies, and the log is opened anew. -/
  | die (i : Nat)
  deriving DecidableEq

/-- A request was answered. -/
structure Event where
  hand : Nat
  request : Request
  answer : Answer
  deriving DecidableEq

namespace Crowd

/-- A handle has come to what is left of its request. It answers as soon as that is nothing. -/
def settle (c : Crowd) (i : Nat) (request : Request) (rest : Rest) (w : World) : Option Event × Crowd :=
  match rest with
  | .done (answer, log) => (some ⟨i, request, answer⟩, ⟨Function.update c.hand i (.idle log), w⟩)
  | .call asked next => (none, ⟨Function.update c.hand i (.busy request (.call asked next)), w⟩)

/-- One turn. A handle that is busy takes no request, and one at rest makes no call. -/
def turn (root : Path) (c : Crowd) : Turn → Option Event × Crowd
  | .start i request =>
    match c.hand i with
    | .idle log => c.settle i request (request.act log) c.world
    | .busy _ _ => (none, c)
  | .go i =>
    match c.hand i with
    | .busy request rest => c.settle i request (rest.step c.world).1 (rest.step c.world).2
    | .idle _ => (none, c)
  | .die i => (none, ⟨Function.update c.hand i (.idle (.ofRoot root)), c.world⟩)

/-- Turn after turn, with the answers that are given. -/
def run (root : Path) (c : Crowd) : List Turn → List Event × Crowd
  | [] => ([], c)
  | t :: later =>
    let (event, c') := c.turn root t
    let (events, c'') := run root c' later
    (event.toList ++ events, c'')

variable {root : Path} {c : Crowd}

theorem settle_call {β : Type} (c : Crowd) (i : Nat) (request : Request) (asked : Call β) (next : β → Rest)
    (w : World) : c.settle i request (.call asked next) w =
      (none, ⟨Function.update c.hand i (.busy request (.call asked next)), w⟩) := rfl

theorem turn_start {i : Nat} {log : FileLog} (resting : c.hand i = .idle log) (request : Request) :
    c.turn root (.start i request) = c.settle i request (request.act log) c.world := by
  rw [turn, resting]

theorem turn_go {i : Nat} {request : Request} {rest : Rest} (busy : c.hand i = .busy request rest) :
    c.turn root (.go i) = c.settle i request (rest.step c.world).1 (rest.step c.world).2 := by
  rw [turn, busy]

theorem run_cons (t : Turn) (later : List Turn) :
    c.run root (t :: later) = ((c.turn root t).1.toList ++ ((c.turn root t).2.run root later).1,
      ((c.turn root t).2.run root later).2) := rfl

/-- What is left of a request runs to its end when nothing comes between. -/
theorem settle_undisturbed (i : Nat) (request : Request) (rest : Rest) (c : Crowd) (w : World) :
    ∃ n, ((c.settle i request rest w).1.toList ++
          ((c.settle i request rest w).2.run root (List.replicate n (.go i))).1,
        ((c.settle i request rest w).2.run root (List.replicate n (.go i))).2) =
      ([⟨i, request, (rest.run w).1.1⟩], ⟨Function.update c.hand i (.idle (rest.run w).1.2), (rest.run w).2⟩) := by
  induction rest generalizing c w with
  | done result => exact ⟨0, rfl⟩
  | call asked next ih =>
      obtain ⟨n, onward⟩ := ih (asked.perform w).1
        ⟨Function.update c.hand i (.busy request (.call asked next)), w⟩ (asked.perform w).2
      refine ⟨n + 1, ?_⟩
      have first : turn root ⟨Function.update c.hand i (.busy request (.call asked next)), w⟩ (.go i) =
          settle ⟨Function.update c.hand i (.busy request (.call asked next)), w⟩ i request
            (next (asked.perform w).1) (asked.perform w).2 := by
        rw [turn_go (Function.update_self i (.busy request (.call asked next)) c.hand)]
        rfl
      rw [settle_call, Option.toList_none, List.nil_append, List.replicate_succ, run_cons, first]
      refine onward.trans ?_
      rw [Function.update_idem]
      rfl

/-- **A request that nothing comes between is what its action comes to.** -/
theorem undisturbed (i : Nat) (request : Request) {log : FileLog} (resting : c.hand i = .idle log) :
    ∃ n, c.run root (.start i request :: List.replicate n (.go i)) =
      ([⟨i, request, (outcome request.act log c.world).1⟩],
        ⟨Function.update c.hand i (.idle (outcome request.act log c.world).2.1),
          (outcome request.act log c.world).2.2⟩) := by
  obtain ⟨n, onward⟩ := @settle_undisturbed root i request (request.act log) c c.world
  refine ⟨n, ?_⟩
  rw [run_cons, turn_start resting]
  exact onward

end Crowd

/-! ## The points of a request -/

/-- Where a handle stands in a request: at rest, or before one of its calls, with what it holds by then. -/
inductive Point where
  | resting
  /-- A mark opens the log. -/
  | opening (path : String)
  /-- A mark writes to the file it opened. -/
  | writing (path : String) (file : Nat)
  /-- A drain looks for a log that was moved aside before. -/
  | looking
  /-- A drain moves the log aside. -/
  | moving (left : List String)
  /-- A drain reads the log that it moved aside. -/
  | reading (left : List String)
  /-- A drain removes what lies aside. -/
  | removing (left fresh : List String)
  /-- A clear reads the log. -/
  | scanning (path : String)
  /-- A clear opens the draft of the log. -/
  | drafting (path : String) (entries : List String)
  /-- A clear writes the draft. -/
  | filling (path : String) (entries : List String) (file : Nat)
  /-- A clear puts the draft in place of the log. -/
  | placing (path : String) (entries : List String)
  deriving DecidableEq

/-- The request that a handle at a point serves. -/
def Point.request : Point → Request
  | .resting | .looking | .moving _ | .reading _ | .removing _ _ => .drain
  | .opening path | .writing path _ => .mark path
  | .scanning path | .drafting path _ | .filling path _ _ | .placing path _ => .clear path

/-- The entries without those of a file. -/
def without (path : String) (entries : List String) : List String :=
  entries.filter (· ≠ Uri.normalize path)

namespace Rest

variable (log : FileLog)

/-- Make a call, and go on if it does not fail. -/
def attempt {α : Type} (request : Call (Except DiskError α)) (next : α → Rest) : Rest :=
  .call request fun
    | .ok a => next a
    | .error e => .done (.error (.io e), log)

/-- Read the entries in a file. -/
def entries (path : Path) (next : List String → Rest) : Rest :=
  .call (.read path) fun answer =>
    match found answer with
    | .ok entries => next entries
    | .error e => .done (.error (.io e), log)

def writing (path : String) (file : Nat) : Rest :=
  attempt log (.append file (contentOf [Uri.normalize path])) fun () =>
    .done (.ok [], { log with pending := log.pending.insert (Uri.normalize path) })

def opening (path : String) : Rest := attempt log (.openAppend log.path) (writing log path)

def removing (left fresh : List String) : Rest :=
  .call (.removeFile (drainingPath log.path)) fun
    | .ok () | .error .notFound =>
      .done (.ok (firstOccurrences (left ++ fresh)), { log with pending := .empty })
    | .error e => .done (.error (.io e), log)

def reading (left : List String) : Rest := entries log (drainingPath log.path) (removing log left)

def moving (left : List String) : Rest :=
  .call (.rename log.path (drainingPath log.path)) fun
    | .ok () => reading log left
    | .error .notFound => removing log left []
    | .error e => .done (.error (.io e), log)

def looking : Rest := entries log (drainingPath log.path) (moving log)

def placing : Rest := attempt log (.rename (draftPath log.path) log.path) fun () => .done (.ok [], log)

def filling (path : String) (entries : List String) (file : Nat) : Rest :=
  attempt log (.append file (contentOf (without path entries))) fun () => placing log

def drafting (path : String) (entries : List String) : Rest :=
  attempt log (.create (draftPath log.path)) fun file =>
    if contentOf (without path entries) ≠ [] then filling log path entries file else placing log

def scanning (path : String) : Rest :=
  entries log log.path fun entries =>
    if entries.contains (Uri.normalize path) then drafting log path entries else .done (.ok [], log)

end Rest

/-- What is left to do at a point. -/
def Point.rest (log : FileLog) : Point → Rest
  | .resting => .done (.ok [], log)
  | .opening path => Rest.opening log path
  | .writing path file => Rest.writing log path file
  | .looking => Rest.looking log
  | .moving left => Rest.moving log left
  | .reading left => Rest.reading log left
  | .removing left fresh => Rest.removing log left fresh
  | .scanning path => Rest.scanning log path
  | .drafting path entries => Rest.drafting log path entries
  | .filling path entries file => Rest.filling log path entries file
  | .placing _ _ => Rest.placing log

/-! ### Requests as scripts -/

section

variable (log : FileLog)

theorem bind_get (next : FileLog → Action FileLog DirtyError (List String)) :
    (get >>= next) log = next log log := rfl

theorem bind_modify (change : FileLog → FileLog) (next : PUnit → Action FileLog DirtyError (List String)) :
    (modify change >>= next) log = next ⟨⟩ (change log) := rfl

theorem bind_plain {β : Type} (request : Call β) (next : β → Action FileLog DirtyError (List String)) :
    (Action.ofPlain (Script.ask request) >>= next) log = .call request fun b => next b log := rfl

theorem bind_ask {β : Type} (request : Call (Except DiskError β))
    (next : β → Action FileLog DirtyError (List String)) :
    (Action.ask .io request >>= next) log = Rest.attempt log request fun b => next b log :=
  congrArg (Script.call request) (funext fun answer => by cases answer <;> rfl)

theorem bind_entriesAt (path : Path) (next : List String → Action FileLog DirtyError (List String)) :
    (entriesAt path >>= next) log = Rest.entries log path fun entries => next entries log := by
  refine congrArg (Script.call (.read path)) (funext fun answer => ?_)
  rcases answer with e | bytes
  · cases e <;> rfl
  · cases read : decode? bytes <;> simp only [found, read, Script.bind] <;> rfl

/-- A mark that its handle does not remember opens the log and writes. -/
theorem act_mark (path : String) : (Request.mark path).act log =
    if log.pending.contains (Uri.normalize path) then .done (.ok [], log) else Rest.opening log path := by
  simp only [Request.act, FileLog.mark, bind_assoc]
  rw [bind_get]
  cases log.pending.contains (Uri.normalize path) with
  | true => rfl
  | false =>
      simp only [Bool.false_eq_true, if_false, bind_assoc]
      rw [bind_ask]
      exact congrArg (Rest.attempt log _) (funext fun file => bind_ask log _ _)

/-- A drain ends by removing what lies aside. -/
theorem removing_eq (left fresh : List String) :
    (do removeDraining
        modify fun log => { log with pending := .empty }
        return firstOccurrences (left ++ fresh) : Action FileLog DirtyError (List String)) log =
      Rest.removing log left fresh := by
  simp only [removeDraining, bind_assoc]
  rw [bind_get, bind_plain]
  refine congrArg (Script.call _) (funext fun removed => ?_)
  rcases removed with e | _
  · cases e <;> rfl
  · rfl

theorem act_drain : Request.drain.act log = Rest.looking log := by
  simp only [Request.act, FileLog.drain, FileLog.moveAside, bind_assoc]
  rw [bind_get, bind_entriesAt]
  refine congrArg (Rest.entries log _) (funext fun left => ?_)
  rw [bind_get, bind_plain]
  refine congrArg (Script.call _) (funext fun moved => ?_)
  rcases moved with e | _
  · cases e with
    | notFound => exact removing_eq log left []
    | _ => rfl
  · simp only [pure_bind, if_true]
    rw [bind_entriesAt]
    exact congrArg (Rest.entries log _) (funext fun fresh => removing_eq log left fresh)

/-- A clear forgets the file before it looks at the log. -/
theorem act_clear (path : String) : (Request.clear path).act log =
    Rest.scanning { log with pending := log.pending.erase (Uri.normalize path) } path := by
  simp only [Request.act, FileLog.clear, bind_assoc]
  rw [bind_modify, bind_get, bind_entriesAt]
  refine congrArg (Rest.entries _ _) (funext fun entries => ?_)
  cases entries.contains (Uri.normalize path) with
  | false => rfl
  | true =>
      simp only [Bool.not_true, Bool.false_eq_true, if_false, if_true, bind_assoc]
      rw [bind_ask]
      refine congrArg (Rest.attempt _ _) (funext fun file => ?_)
      rw [← without]
      by_cases some_ : contentOf (without path entries) ≠ []
      · rw [if_pos some_, if_pos some_, bind_assoc, bind_ask]
        exact congrArg (Rest.attempt _ _) (funext fun _ => bind_ask _ _ _)
      · rw [if_neg some_, if_neg some_]
        exact bind_ask _ _ _

end

/-! ## Plans -/

/-- What a handle remembers, and where it stands. -/
structure Seat where
  known : SortedSet String
  point : Point

namespace Seat

/-- The handle without its request. -/
def log (root : Path) (s : Seat) : FileLog := ⟨root.child fileName, s.known⟩

/-- The handle that sits there. -/
def hand (root : Path) (s : Seat) : Hand :=
  match s.point with
  | .resting => .idle (s.log root)
  | p => .busy p.request (p.rest (s.log root))

/-- What a handle has come to that sits there, having answered or not. -/
def rest (root : Path) (s : Seat) : Option Answer → Rest
  | some answer => .done (answer, s.log root)
  | none => s.point.rest (s.log root)

/-- What a handle does when it is given a request: a mark that it remembers is answered at once, and a clear is
forgotten first. -/
def start (s : Seat) : Request → Option Answer × Seat
  | .mark path =>
    if s.known.contains (Uri.normalize path) then (some (.ok []), s) else (none, { s with point := .opening path })
  | .drain => (none, { s with point := .looking })
  | .clear path => (none, ⟨s.known.erase (Uri.normalize path), .scanning path⟩)

end Seat

/-- What the call at a point makes of the places: the answer if the request is done, where the handle sits then, and
what the places hold. -/
def Point.step (known : SortedSet String) (σ : Slots) : Point → Option Answer × Seat × Slots
  | .resting => (none, ⟨known, .resting⟩, σ)
  | .opening path => (none, ⟨known, .writing path (σ.numberAt .log)⟩, σ.openFile false .log)
  | .writing path file =>
    (some (.ok []), ⟨known.insert (Uri.normalize path), .resting⟩, σ.append file [Uri.normalize path])
  | .looking => (none, ⟨known, .moving (σ.entries .draining)⟩, σ)
  | .moving left =>
    match σ.place .log with
    | none => (none, ⟨known, .removing left []⟩, σ)
    | some _ => (none, ⟨known, .reading left⟩, σ.rename .log .draining)
  | .reading left => (none, ⟨known, .removing left (σ.entries .draining)⟩, σ)
  | .removing left fresh =>
    (some (.ok (firstOccurrences (left ++ fresh))), ⟨.empty, .resting⟩, σ.put .draining none)
  | .scanning path =>
    if Uri.normalize path ∈ σ.entries .log then (none, ⟨known, .drafting path (σ.entries .log)⟩, σ)
    else (some (.ok []), ⟨known, .resting⟩, σ)
  | .drafting path entries =>
    if without path entries = [] then (none, ⟨known, .placing path entries⟩, σ.openFile true .draft)
    else (none, ⟨known, .filling path entries (σ.numberAt .draft)⟩, σ.openFile true .draft)
  | .filling path entries file => (none, ⟨known, .placing path entries⟩, σ.append file (without path entries))
  | .placing _ _ =>
    match σ.place .draft with
    | none => (some (.error (.io .notFound)), ⟨known, .resting⟩, σ)
    | some _ => (some (.ok []), ⟨known, .resting⟩, σ.rename .draft .log)

/-- Where the handles of a crowd sit, and what the places of the log hold. -/
structure Plan where
  seat : Nat → Seat
  slots : Slots

namespace Plan

/-- A handle is somewhere else. -/
def seated (m : Plan) (i : Nat) (s : Seat) (σ : Slots) : Plan := ⟨Function.update m.seat i s, σ⟩

/-- One turn. -/
def turn (m : Plan) : Turn → Option Event × Plan
  | .start i request =>
    if (m.seat i).point = .resting then
      (((m.seat i).start request).1.map (⟨i, request, ·⟩), m.seated i ((m.seat i).start request).2 m.slots)
    else (none, m)
  | .go i =>
    if (m.seat i).point = .resting then (none, m)
    else
      let (answer, s, σ) := (m.seat i).point.step (m.seat i).known m.slots
      (answer.map (⟨i, (m.seat i).point.request, ·⟩), m.seated i s σ)
  | .die i => (none, m.seated i ⟨.empty, .resting⟩ m.slots)

/-- Turn after turn, with the answers that are given. -/
def run (m : Plan) : List Turn → List Event × Plan
  | [] => ([], m)
  | t :: later => ((m.turn t).1.toList ++ (run (m.turn t).2 later).1, (run (m.turn t).2 later).2)

end Plan

/-! ## A crowd goes as its plan does -/

/-- The file that a handle holds open is one of the log's. -/
def Point.Owns (base : Address) (d : Disk) : Point → Prop
  | .writing _ file | .filling _ _ file => Own base d file
  | _ => True

theorem Point.Owns.congr {base : Address} {d d' : Disk} {p : Point} (owns : p.Owns base d)
    (apart : Apart base d d') : p.Owns base d' := by
  cases p with
  | writing path file => exact Own.congr owns apart
  | filling path entries file => exact Own.congr owns apart
  | _ => trivial

section

variable {root : Path} {base : Address} {σ : Slots} {w w' : World}

namespace Seat

theorem hand_resting {s : Seat} (resting : s.point = .resting) : s.hand root = .idle (s.log root) := by
  rw [hand, resting]

theorem hand_busy {s : Seat} (busy : s.point ≠ .resting) :
    s.hand root = .busy s.point.request (s.point.rest (s.log root)) := by
  rw [hand]
  split
  next resting => exact absurd resting busy
  next => rfl

/-- A handle that has not answered is in the middle of the request, and one that has answered rests. -/
def Follows (s : Seat) (request : Request) (answer : Option Answer) : Prop :=
  (answer = none ∧ s.point ≠ .resting ∧ s.point.request = request) ∨ (answer ≠ none ∧ s.point = .resting)

theorem start_follows {s : Seat} (resting : s.point = .resting) (request : Request) :
    (s.start request).2.Follows request (s.start request).1 := by
  cases request with
  | mark path =>
      rw [start]
      split
      · exact .inr ⟨nofun, resting⟩
      · exact .inl ⟨rfl, nofun, rfl⟩
  | drain => exact .inl ⟨rfl, nofun, rfl⟩
  | clear path => exact .inl ⟨rfl, nofun, rfl⟩

theorem step_follows {p : Point} (busy : p ≠ .resting) (known : SortedSet String) (σ : Slots) :
    (p.step known σ).2.1.Follows p.request (p.step known σ).1 := by
  cases p with
  | resting => exact absurd rfl busy
  | moving left =>
      rw [Point.step]
      cases σ.place .log <;> exact .inl ⟨rfl, nofun, rfl⟩
  | scanning path =>
      rw [Point.step]
      split
      · exact .inl ⟨rfl, nofun, rfl⟩
      · exact .inr ⟨nofun, rfl⟩
  | drafting path entries =>
      rw [Point.step]
      split <;> exact .inl ⟨rfl, nofun, rfl⟩
  | placing path entries =>
      rw [Point.step]
      cases σ.place .draft <;> exact .inr ⟨nofun, rfl⟩
  | writing | removing => exact .inr ⟨nofun, rfl⟩
  | opening | looking | reading | filling => exact .inl ⟨rfl, nofun, rfl⟩

/-- A request begins as its script does. -/
theorem act_start (s : Seat) (request : Request) :
    request.act (s.log root) = (s.start request).2.rest root (s.start request).1 := by
  cases request with
  | mark path =>
      rw [act_mark, start]
      show (if s.known.contains (Uri.normalize path) = true then _ else _) = _
      split <;> rfl
  | drain => exact act_drain _
  | clear path => exact act_clear _ path

end Seat

theorem step_attempt {α : Type} {log : FileLog} {request : Call (Except DiskError α)} {next : α → Rest} {a : α}
    (done : request.perform w = (.ok a, w')) : (Rest.attempt log request next).step w = (next a, w') := by
  rw [Rest.attempt, Script.step, done]

theorem step_entries {log : FileLog} {path : Path} {next : List String → Rest} {answer : Except DiskError Bytes}
    {entries : List String} (done : (Call.read path).perform w = (answer, w)) (told : found answer = .ok entries) :
    (Rest.entries log path next).step w = (next entries, w) := by
  rw [Rest.entries, Script.step, done]
  simp only [told]

theorem perform_openFile {truncate : Bool} {p : Part} {id : Nat} {d' : Disk}
    (opened : w.disk.openFile w.time truncate (p.path root) = .ok (id, d')) :
    w.onDisk (w.disk.openFile w.time truncate (p.path root)) = (.ok id, { w with disk := d' }) := by
  rw [opened]
  rfl

/-- **A call does what the plan says**, and leaves the places filed. -/
theorem Point.step_rest {p : Point} (busy : p ≠ .resting) (known : SortedSet String)
    (filed : Filed root base σ w.disk) (owns : p.Owns base w.disk) :
    ∃ d', (p.rest ⟨root.child fileName, known⟩).step w =
        ((p.step known σ).2.1.rest root (p.step known σ).1, { w with disk := d' }) ∧
      Filed root base (p.step known σ).2.2 d' ∧ Apart base w.disk d' ∧ (p.step known σ).2.1.point.Owns base d' := by
  have logAt : (FileLog.mk (root.child fileName) known).path = Part.log.path root := rfl
  have drainingAt : drainingPath (root.child fileName) = Part.draining.path root := drainingPath_below root
  have draftAt : draftPath (root.child fileName) = Part.draft.path root := draftPath_below root
  cases p with
  | resting => exact absurd rfl busy
  | opening path =>
      obtain ⟨d', opened, filed', apart, own⟩ := filed.openFile false .log
      exact ⟨d', step_attempt (perform_openFile opened), filed', apart, own⟩
  | writing path file =>
      obtain ⟨filed', apart⟩ := filed.append owns [Uri.normalize path]
      exact ⟨_, step_attempt rfl, filed', apart, trivial⟩
  | looking =>
      obtain ⟨answer, done, told⟩ := filed.read .draining
      exact ⟨w.disk, step_entries (drainingAt ▸ done) told, filed, .refl _ _, trivial⟩
  | moving left =>
      have moved := @Filed.rename root base σ .log .draining w filed (by decide)
      rw [rest, Rest.moving, drainingAt, logAt, Script.step, step]
      cases there : σ.place .log with
      | none =>
          rw [there] at moved
          rw [moved]
          exact ⟨w.disk, rfl, filed, .refl _ _, trivial⟩
      | some sheet =>
          rw [there] at moved
          obtain ⟨d', done, filed', apart⟩ := moved
          rw [done]
          exact ⟨d', rfl, filed', apart, trivial⟩
  | reading left =>
      obtain ⟨answer, done, told⟩ := filed.read .draining
      exact ⟨w.disk, step_entries (drainingAt ▸ done) told, filed, .refl _ _, trivial⟩
  | removing left fresh =>
      obtain ⟨answer, d', done, either, filed', apart⟩ := filed.removeFile .draining
      refine ⟨d', ?_, filed', apart, trivial⟩
      rw [rest, Rest.removing, drainingAt, Script.step, done]
      rcases either with rfl | rfl <;> rfl
  | scanning path =>
      obtain ⟨answer, done, told⟩ := filed.read .log
      rw [rest, Rest.scanning, logAt, step_entries done told, step]
      by_cases there : Uri.normalize path ∈ σ.entries .log
      · rw [if_pos there, if_pos (by simpa using there)]
        exact ⟨w.disk, rfl, filed, .refl _ _, trivial⟩
      · rw [if_neg there, if_neg (by simpa using there)]
        exact ⟨w.disk, rfl, filed, .refl _ _, trivial⟩
  | drafting path entries =>
      obtain ⟨d', opened, filed', apart, own⟩ := filed.openFile true .draft
      have created : (Call.create (Part.draft.path root)).perform w = _ := perform_openFile opened
      rw [rest, Rest.drafting, draftAt, step_attempt created, step]
      by_cases nothing : without path entries = []
      · rw [if_pos nothing, if_neg (by simpa [contentOf_eq_nil] using nothing)]
        exact ⟨d', rfl, filed', apart, trivial⟩
      · rw [if_neg nothing, if_pos (by simpa [contentOf_eq_nil] using nothing)]
        exact ⟨d', rfl, filed', apart, own⟩
  | filling path entries file =>
      obtain ⟨filed', apart⟩ := filed.append owns (without path entries)
      exact ⟨_, step_attempt rfl, filed', apart, trivial⟩
  | placing path entries =>
      have moved := @Filed.rename root base σ .draft .log w filed (by decide)
      rw [rest, Rest.placing, draftAt, logAt, Rest.attempt, Script.step, step]
      cases there : σ.place .draft with
      | none =>
          rw [there] at moved
          rw [moved]
          exact ⟨w.disk, rfl, filed, .refl _ _, trivial⟩
      | some sheet =>
          rw [there] at moved
          obtain ⟨d', done, filed', apart⟩ := moved
          rw [done]
          exact ⟨d', rfl, filed', apart, trivial⟩

theorem settle_seat {c : Crowd} {i : Nat} {request : Request} {answer : Option Answer} {s : Seat}
    (follows : s.Follows request answer) : c.settle i request (s.rest root answer) w =
      (answer.map (⟨i, request, ·⟩), ⟨Function.update c.hand i (s.hand root), w⟩) := by
  rcases follows with ⟨rfl, busy, rfl⟩ | ⟨answered, resting⟩
  · rw [Seat.hand_busy busy, Seat.rest]
    obtain ⟨known, point⟩ := s
    cases point with
    | resting => exact absurd rfl busy
    | _ => rfl
  · obtain ⟨a, rfl⟩ := Option.ne_none_iff_exists'.1 answered
    rw [Seat.hand_resting resting]
    rfl

end

namespace Plan

/-- The handles of a crowd sit as planned, over the places of the log. -/
structure Shows (root : Path) (base : Address) (m : Plan) (c : Crowd) : Prop where
  filed : Filed root base m.slots c.world.disk
  hand : ∀ i, c.hand i = (m.seat i).hand root
  owns : ∀ i, (m.seat i).point.Owns base c.world.disk

namespace Shows

variable {root : Path} {base : Address} {m : Plan} {c : Crowd}

/-- One handle has moved on. -/
theorem seated (shows_ : Shows root base m c) {i : Nat} {s : Seat} {σ : Slots} {d' : Disk}
    (filed : Filed root base σ d') (apart : Apart base c.world.disk d') (owns : s.point.Owns base d') :
    Shows root base (m.seated i s σ)
      ⟨Function.update c.hand i (s.hand root), { c.world with disk := d' }⟩ where
  filed := filed
  hand j := by
    show Function.update c.hand i (s.hand root) j = (Function.update m.seat i s j).hand root
    by_cases own : j = i
    · subst own
      rw [Function.update_self, Function.update_self]
    · rw [Function.update_of_ne own, Function.update_of_ne own, shows_.hand]
  owns j := by
    show (Function.update m.seat i s j).point.Owns base d'
    by_cases own : j = i
    · subst own
      rw [Function.update_self]
      exact owns
    · rw [Function.update_of_ne own]
      exact (shows_.owns j).congr apart

/-- A turn goes as planned. -/
theorem turn (shows_ : Shows root base m c) (t : Turn) :
    (c.turn root t).1 = (m.turn t).1 ∧ Shows root base (m.turn t).2 (c.turn root t).2 := by
  cases t with
  | start i request =>
      rw [Plan.turn]
      by_cases resting : (m.seat i).point = .resting
      · have idle := (shows_.hand i).trans (Seat.hand_resting resting)
        rw [if_pos resting, Crowd.turn_start idle, Seat.act_start, settle_seat (Seat.start_follows resting request)]
        refine ⟨rfl, shows_.seated shows_.filed (.refl _ _) ?_⟩
        cases request with
        | mark path =>
            rw [Seat.start]
            split
            · exact shows_.owns i
            · trivial
        | drain => trivial
        | clear path => trivial
      · have busy := (shows_.hand i).trans (Seat.hand_busy resting)
        rw [if_neg resting, Crowd.turn, busy]
        exact ⟨rfl, shows_⟩
  | go i =>
      rw [Plan.turn]
      by_cases resting : (m.seat i).point = .resting
      · have idle := (shows_.hand i).trans (Seat.hand_resting resting)
        rw [if_pos resting, Crowd.turn, idle]
        exact ⟨rfl, shows_⟩
      · have busy := (shows_.hand i).trans (Seat.hand_busy resting)
        obtain ⟨d', stepped, filed, apart, owns⟩ :=
          Point.step_rest resting (m.seat i).known shows_.filed (shows_.owns i)
        have stepped' : ((m.seat i).point.rest ((m.seat i).log root)).step c.world = _ := stepped
        rw [if_neg resting, Crowd.turn_go busy, stepped', settle_seat (Seat.step_follows resting _ _)]
        exact ⟨rfl, shows_.seated filed apart owns⟩
  | die i =>
      have owns : Point.Owns base c.world.disk (Seat.point ⟨.empty, .resting⟩) := trivial
      exact ⟨rfl, shows_.seated shows_.filed (.refl _ _) owns⟩

/-- **A crowd goes as its plan does**, with the same answers. -/
theorem run (shows_ : Shows root base m c) (turns : List Turn) :
    (c.run root turns).1 = (m.run turns).1 ∧ Shows root base (m.run turns).2 (c.run root turns).2 := by
  induction turns generalizing m c with
  | nil => exact ⟨rfl, shows_⟩
  | cons t later ih =>
      obtain ⟨event, shows'⟩ := shows_.turn t
      obtain ⟨events, shows''⟩ := ih shows'
      rw [Crowd.run_cons, Plan.run, event, events]
      exact ⟨rfl, shows''⟩

end Shows

end Plan

end FileLog

end SymbolIndex
