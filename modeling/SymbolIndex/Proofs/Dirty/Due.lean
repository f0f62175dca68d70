import SymbolIndex.Proofs.Dirty.Handles

/-!
# Proofs.Dirty.Due — the URIs that are due

A URI is due when it was marked and has not been drained or cleared since (`due`, `mem_due`). One ordered set
answers each drain with what is due (`dueAnswers`).

* Through one handle, which may be opened anew at any time, a log of either kind answers as that set does
  (`one_handle_answers_due`).
* Several handles on one log do not: each leaves out a mark that it remembers to have made (`Remembers`), also
  when another handle has drained it meanwhile (`remembered_mark_lost`). A mark that its handle does not
  remember reaches the next drain, and where no handle repeats a mark that is not due any more, the
  answers are those of the set (`shared_marks_reach_drains`).
-/

namespace SymbolIndex

set_option autoImplicit false

/-! ## What holds since -/

/-- Something began, and has not ended since. -/
def Since {α : Type} (begins ends : α → Prop) (events : List α) : Prop :=
  ∃ before e after, events = before ++ e :: after ∧ begins e ∧ ∀ later ∈ after, ¬ ends later

theorem not_since_nil {α : Type} {begins ends : α → Prop} : ¬ Since begins ends [] := by
  rintro ⟨before, e, after, split, -⟩
  cases before <;> cases split

theorem since_append {α : Type} {begins ends : α → Prop} {events : List α} {e : α} :
    Since begins ends (events ++ [e]) ↔ begins e ∨ (Since begins ends events ∧ ¬ ends e) := by
  constructor
  · rintro ⟨before, first, after, split, began, lasting⟩
    rcases List.eq_nil_or_concat after with rfl | ⟨after, last, rfl⟩
    · obtain ⟨-, same⟩ := List.append_inj' split rfl
      obtain rfl := (List.cons.inj same).1
      exact .inl began
    · rw [List.concat_eq_append, ← List.cons_append, ← List.append_assoc] at split
      obtain ⟨same, last_⟩ := List.append_inj' split rfl
      obtain rfl := (List.cons.inj last_).1
      exact .inr ⟨⟨before, first, after, same, began, fun later member => lasting later (by simp [member])⟩,
        lasting e (by simp)⟩
  · rintro (began | ⟨⟨before, first, after, rfl, began, lasting⟩, onward⟩)
    · exact ⟨events, e, [], rfl, began, fun later member => by cases member⟩
    · refine ⟨before, first, after ++ [e], by simp, began, fun later member => ?_⟩
      rcases List.mem_append.1 member with earlier | now
      · exact lasting later earlier
      · rwa [List.mem_singleton.1 now]

/-! ## First occurrences -/

theorem firstOccurrences_append (entries : List String) (uri : String) :
    firstOccurrences (entries ++ [uri]) =
      if uri ∈ entries then firstOccurrences entries else firstOccurrences entries ++ [uri] := by
  rw [firstOccurrences, List.eraseDups_append]
  split
  next there => simp [List.removeAll, there, firstOccurrences]
  next missing => simp [List.removeAll, missing, firstOccurrences, List.eraseDups_cons]

theorem firstOccurrences_filter (p : String → Bool) (entries : List String) :
    firstOccurrences (entries.filter p) = (firstOccurrences entries).filter p := by
  induction entries using List.reverseRecOn with
  | nil => rfl
  | append_singleton entries uri ih =>
      rw [List.filter_append, firstOccurrences_append]
      by_cases kept : p uri = true
      · rw [List.filter_cons_of_pos kept, List.filter_nil, firstOccurrences_append, ih]
        by_cases there : uri ∈ entries
        · rw [if_pos there, if_pos (List.mem_filter.2 ⟨there, kept⟩)]
        · rw [if_neg there, if_neg fun member => there (List.mem_filter.1 member).1, List.filter_append,
            List.filter_cons_of_pos kept, List.filter_nil]
      · rw [List.filter_cons_of_neg kept, List.filter_nil, List.append_nil, ih]
        by_cases there : uri ∈ entries
        · rw [if_pos there]
        · rw [if_neg there, List.filter_append, List.filter_cons_of_neg kept, List.filter_nil,
            List.append_nil]

namespace DirtyLog

/-! ## What is due -/

namespace Command

/-- The URIs that a command marks: one or none. -/
def marked : Command → List String
  | .mark path => [Uri.normalize path]
  | _ => []

/-- Whether a command takes a URI out of the log. -/
def drops (uri : String) : Command → Bool
  | .drain => true
  | .clear path => Uri.normalize path = uri
  | _ => false

end Command

/-- The marks that were not drained or cleared since, in their order. -/
def undropped : List Command → List String
  | [] => []
  | c :: later => c.marked.filter (fun uri => later.all fun c' => !c'.drops uri) ++ undropped later

/-- **What is due**: the URIs that were marked and not drained or cleared since, each once, in the order of
their first such marks. -/
def due (commands : List Command) : List String := firstOccurrences (undropped commands)

theorem undropped_append (commands : List Command) (c : Command) :
    undropped (commands ++ [c]) = (undropped commands).filter (fun uri => !c.drops uri) ++ c.marked := by
  induction commands with
  | nil => simp [undropped]
  | cons first commands ih =>
      rw [List.cons_append, undropped, ih, undropped, List.filter_append, List.filter_filter,
        List.append_assoc]
      congr 1
      exact List.filter_congr fun uri _ => by rw [List.all_append, Bool.and_comm]; simp

/-- A URI is due if it was marked and has not been drained or cleared since. -/
theorem mem_due {commands : List Command} {uri : String} :
    uri ∈ due commands ↔ Since (uri ∈ ·.marked) (·.drops uri = true) commands := by
  rw [due, mem_firstOccurrences]
  induction commands using List.reverseRecOn with
  | nil => simp [undropped, not_since_nil]
  | append_singleton commands c ih =>
      rw [since_append, undropped_append, List.mem_append, List.mem_filter, ih, or_comm]
      simp

/-- A mark comes last, unless the URI is due already. -/
theorem due_mark (commands : List Command) (path : String) :
    due (commands ++ [.mark path]) = if Uri.normalize path ∈ due commands then due commands
      else due commands ++ [Uri.normalize path] := by
  rw [due, undropped_append, Command.marked, firstOccurrences_append]
  simp [Command.drops, due, mem_firstOccurrences]

/-- A clear takes its own URI, and keeps the order of the others. -/
theorem due_clear (commands : List Command) (path : String) :
    due (commands ++ [.clear path]) = (due commands).filter (· ≠ Uri.normalize path) := by
  rw [due, undropped_append, show (Command.clear path).marked = [] from rfl, List.append_nil,
    firstOccurrences_filter, due]
  exact List.filter_congr fun uri _ => by simp [Command.drops, eq_comm]

/-- After a drain nothing is due. -/
theorem due_drain (commands : List Command) : due (commands ++ [.drain]) = [] := by
  rw [due, undropped_append, show Command.drain.marked = [] from rfl, List.append_nil,
    firstOccurrences_filter]
  simp [Command.drops]

/-- A handle that is opened anew leaves what is due. -/
theorem due_reopen (commands : List Command) : due (commands ++ [.reopen]) = due commands := by
  rw [due, undropped_append, show Command.reopen.marked = [] from rfl, List.append_nil]
  simp [Command.drops, due]

/-- What one ordered set answers after some commands: a drain gets what is due. -/
def dueAnswer (before : List Command) : Command → Answer
  | .drain => .ok (due before)
  | _ => .ok []

/-- What one ordered set answers to commands that come after others. -/
def dueFrom (before : List Command) : List Command → List Answer
  | [] => []
  | c :: later => dueAnswer before c :: dueFrom (before ++ [c]) later

/-- What one ordered set answers to commands from the beginning. -/
def dueAnswers (commands : List Command) : List Answer := dueFrom [] commands

theorem dueFrom_append (before commands : List Command) (c : Command) :
    dueFrom before (commands ++ [c]) = dueFrom before commands ++ [dueAnswer (before ++ commands) c] := by
  induction commands generalizing before with
  | nil => simp [dueFrom]
  | cons first commands ih => simp [dueFrom, ih]

theorem length_dueFrom (before commands : List Command) :
    (dueFrom before commands).length = commands.length := by
  induction commands generalizing before with
  | nil => rfl
  | cons first commands ih => simp [dueFrom, ih]

/-! ## What a handle remembers -/

/-- Whether a handle forgets a URI by a command with an answer. -/
def Command.forgets (uri : String) (answer : Answer) : Command → Prop
  | .reopen => True
  | .mark _ => False
  | .clear path => Uri.normalize path = uri
  | .drain => answer ≠ .ok []

/-- A handle marked a URI, and since then it was not opened anew, did not clear the URI and drained no
entries. -/
def Remembers (handle : Nat) (uri : String) (served : List (Request × Answer)) : Prop :=
  Since (fun e => e.1.handle = handle ∧ uri ∈ e.1.command.marked)
    (fun e => e.1.handle = handle ∧ e.1.command.forgets uri e.2) served

/-- A handle remembers only what it was asked to mark. -/
theorem Remembers.marked {handle : Nat} {uri : String} {requests : List Request} {answers : List Answer}
    (remembers : Remembers handle uri (requests.zip answers)) :
    ∃ r ∈ requests, r.handle = handle ∧ uri ∈ r.command.marked := by
  obtain ⟨before, e, after, split, own, -⟩ := remembers
  have member : (e.1, e.2) ∈ requests.zip answers := by rw [split]; simp
  exact ⟨e.1, (List.of_mem_zip member).1, own⟩

/-- What one ordered set has answered. -/
def dulyServed (requests : List Request) : List (Request × Answer) :=
  requests.zip (dueAnswers (requests.map (·.command)))

theorem dulyServed_append (requests : List Request) (r : Request) :
    dulyServed (requests ++ [r]) =
      dulyServed requests ++ [(r, dueAnswer (requests.map (·.command)) r.command)] := by
  rw [dulyServed, dueAnswers, List.map_append, List.map_singleton, dueFrom_append, List.nil_append,
    List.zip_append (by rw [length_dueFrom, List.length_map])]
  rfl

/-! ## A board and what is due -/

/-- A mark names an absolute path, or the URI of one. The other commands may name anything. -/
def Command.Plain : Command → Prop
  | .mark path => Uri.NamesFile path
  | _ => True

theorem added_of_namesFile (backend : Backend) {path : String} (named : Uri.NamesFile path) :
    added backend (Uri.normalize path) = [Uri.normalize path] := by
  cases backend with
  | file => exact FileLog.isLine_normalize named
  | sqlite => rfl

namespace Board

variable {backend : Backend} {b : Board} {served : List (Request × Answer)} {before requests : List Request}
  {uri path : String} {handle : Nat}

/-- What request after request leaves on the board. -/
def afterAll (backend : Backend) (b : Board) (requests : List Request) : Board :=
  requests.foldl (after backend) b

theorem answers_append (more : List Request) :
    b.answers backend (requests ++ more) =
      b.answers backend requests ++ (b.afterAll backend requests).answers backend more := by
  induction requests generalizing b with
  | nil => rfl
  | cons r later ih => rw [List.cons_append, answers, ih, answers]; rfl

/-- What the handles remember, they remember by what they were asked and answered. -/
def Recalled (b : Board) (served : List (Request × Answer)) : Prop :=
  ∀ handle uri, uri ∈ b.known handle → Remembers handle uri served

theorem Recalled.after (recalled : b.Recalled served) (backend : Backend) (r : Request) :
    (b.after backend r).Recalled (served ++ [(r, .ok (r.command.answers b.entries))]) := by
  intro handle uri known
  obtain ⟨own, command⟩ := r
  rw [Remembers, since_append]
  by_cases other : handle = own
  · subst other
    rw [Board.after] at known
    simp only [Function.update_self] at known
    cases command with
    | reopen => exact absurd known (SortedSet.not_mem_empty uri)
    | mark path =>
        have either : uri = Uri.normalize path ∨ uri ∈ b.known handle := by
          rw [Command.recalls] at known
          split at known
          · exact .inr known
          · exact SortedSet.mem_insert.1 known
        rcases either with rfl | earlier
        · exact .inl ⟨rfl, List.mem_singleton.2 rfl⟩
        · exact .inr ⟨recalled handle uri earlier, fun both => both.2⟩
    | clear path =>
        obtain ⟨earlier, distinct⟩ := SortedSet.mem_erase.1 known
        exact .inr ⟨recalled handle uri earlier, fun both => distinct both.2.symm⟩
    | drain =>
        rw [Command.recalls] at known
        split at known
        next nothing =>
          refine .inr ⟨recalled handle uri known, fun both => both.2 ?_⟩
          rw [Command.answers, nothing.2]
          rfl
        next => exact absurd known (SortedSet.not_mem_empty uri)
  · rw [Board.after] at known
    simp only [Function.update_of_ne other] at known
    exact .inr ⟨recalled handle uri known, fun both => other both.1.symm⟩

theorem Recalled.afterAll (recalled : b.Recalled served) (backend : Backend) (requests : List Request) :
    (b.afterAll backend requests).Recalled
      (served ++ requests.zip ((b.answers backend requests).map .ok)) := by
  induction requests generalizing b served with
  | nil => simpa [Board.afterAll] using recalled
  | cons r later ih =>
      have rest := ih (recalled.after backend r)
      rwa [List.append_assoc] at rest

/-! ### A mark that is not remembered -/

theorem listed_mark (unknown : uri ∉ b.known handle) (named : Uri.NamesFile path)
    (same : Uri.normalize path = uri) : uri ∈ (b.after backend ⟨handle, .mark path⟩).entries := by
  subst same
  rw [after, Command.leaves, if_neg fun known => unknown (FileLog.contains_iff.1 known),
    added_of_namesFile backend named]
  exact List.mem_append_right _ (List.mem_singleton.2 rfl)

/-- What is listed stays listed until it is dropped. -/
theorem listed_after (listed : uri ∈ b.entries) {r : Request} (kept : r.command.drops uri = false) :
    uri ∈ (b.after backend r).entries := by
  obtain ⟨handle, command⟩ := r
  cases command with
  | reopen => exact listed
  | mark path =>
      rw [after, Command.leaves]
      split
      · exact listed
      · exact List.mem_append_left _ listed
  | clear path =>
      have other : ¬ Uri.normalize path = uri := of_decide_eq_false kept
      exact List.mem_filter.2 ⟨listed, decide_eq_true fun same => other same.symm⟩
  | drain => cases kept

theorem listed_afterAll (listed : uri ∈ b.entries) (kept : ∀ r ∈ requests, r.command.drops uri = false) :
    uri ∈ (b.afterAll backend requests).entries := by
  induction requests generalizing b with
  | nil => exact listed
  | cons r later ih =>
      exact ih (listed_after listed (kept r (by simp))) fun r' member => kept r' (by simp [member])

/-- A mark that its handle does not remember is answered by the next drain. -/
theorem next_drain {between : List Request} {reader : Nat}
    (recalled : b.Recalled served) (named : Uri.NamesFile path)
    (unremembered : ¬ Remembers handle (Uri.normalize path)
      (served ++ before.zip ((b.answers backend before).map .ok)))
    (kept : ∀ r ∈ between, r.command.drops (Uri.normalize path) = false) :
    ∃ uris, (b.answers backend (before ++ ⟨handle, .mark path⟩ :: between ++ [⟨reader, .drain⟩])).getLast? =
      some uris ∧ Uri.normalize path ∈ uris := by
  have unknown : Uri.normalize path ∉ (b.afterAll backend before).known handle := fun known =>
    unremembered (recalled.afterAll backend before _ _ known)
  have marked : Uri.normalize path ∈
      (b.afterAll backend (before ++ ⟨handle, .mark path⟩ :: between)).entries := by
    rw [afterAll, List.foldl_append]
    show _ ∈ (((b.afterAll backend before).after backend ⟨handle, .mark path⟩).afterAll backend between).entries
    exact listed_afterAll (listed_mark unknown named rfl) kept
  refine ⟨_, ?_, mem_firstOccurrences.2 marked⟩
  rw [answers_append, answers, answers, List.getLast?_concat]
  rfl

/-! ### Marks that renew what is due -/

end Board

/-- A request marks no URI that its handle remembers and that is not due any more. -/
def Request.Renews (r : Request) (before : List Request) : Prop :=
  ∀ uri ∈ r.command.marked, Remembers r.handle uri (dulyServed before) → uri ∈ due (before.map (·.command))

/-- No request marks a URI that its handle remembers and that is not due any more. -/
def Renewing (before requests : List Request) : Prop :=
  ∀ front r back, requests = front ++ r :: back → r.Renews (before ++ front)

theorem renewing_nil {before : List Request} : Renewing before [] := by
  intro front r back split
  cases front <;> cases split

theorem renewing_cons {before later : List Request} {r : Request} :
    Renewing before (r :: later) ↔ r.Renews before ∧ Renewing (before ++ [r]) later := by
  constructor
  · intro renewing
    refine ⟨by simpa using renewing [] r later rfl, fun front r' back split => ?_⟩
    have own := renewing (r :: front) r' back (by rw [split]; rfl)
    rwa [List.append_assoc]
  · rintro ⟨renews, onward⟩ front r' back split
    cases front with
    | nil =>
        obtain ⟨rfl, -⟩ := List.cons.inj split
        simpa using renews
    | cons first front =>
        obtain ⟨rfl, rest⟩ := List.cons.inj split
        have own := onward front r' back rest
        rwa [List.append_assoc] at own

namespace Board

variable {backend : Backend} {b : Board} {before requests : List Request}

/-- A board lists what is due, up to repetitions. -/
def Settled (b : Board) (commands : List Command) : Prop := firstOccurrences b.entries = due commands

theorem Settled.answer (settled : b.Settled (before.map (·.command))) (c : Command) :
    .ok (c.answers b.entries) = dueAnswer (before.map (·.command)) c := by
  cases c with
  | drain => exact congrArg Except.ok settled
  | reopen | mark | clear => rfl

theorem Settled.after (settled : b.Settled (before.map (·.command))) (recalled : b.Recalled (dulyServed before))
    {r : Request} (plain : r.command.Plain) (renews : r.Renews before) :
    (b.after backend r).Settled ((before ++ [r]).map (·.command)) := by
  obtain ⟨handle, command⟩ := r
  rw [Settled, List.map_append, List.map_singleton]
  rw [Settled] at settled
  cases command with
  | reopen => exact settled.trans (due_reopen _).symm
  | mark path =>
      have listed : Uri.normalize path ∈ b.entries ↔ Uri.normalize path ∈ due (before.map (·.command)) := by
        rw [← settled, mem_firstOccurrences]
      rw [due_mark, Board.after, Command.leaves, added_of_namesFile backend plain]
      split
      next known =>
        rw [if_pos (renews _ (List.mem_singleton.2 rfl) (recalled _ _ (FileLog.contains_iff.1 known)))]
        exact settled
      next unknown =>
        rw [firstOccurrences_append, settled]
        exact if_congr listed rfl rfl
  | clear path =>
      rw [due_clear, ← settled]
      exact firstOccurrences_filter _ _
  | drain => exact (due_drain _).symm

/-- **Where marks renew what is due, one ordered set answers.** -/
theorem answers_due (settled : b.Settled (before.map (·.command))) (recalled : b.Recalled (dulyServed before))
    (plain : ∀ r ∈ requests, r.command.Plain) (renewing : Renewing before requests) :
    (b.answers backend requests).map .ok =
      dueFrom (before.map (·.command)) (requests.map (·.command)) := by
  induction requests generalizing b before with
  | nil => rfl
  | cons r later ih =>
      obtain ⟨renews, onward⟩ := renewing_cons.1 renewing
      have answer := settled.answer r.command
      have recalled' := recalled.after backend r
      rw [answer, ← dulyServed_append] at recalled'
      have rest := ih (settled.after recalled (plain r (by simp)) renews) recalled'
        (fun r' member => plain r' (by simp [member])) onward
      rw [answers, List.map_cons, rest, answer, List.map_append]
      rfl

end Board

/-! ## One handle -/

/-- Commands for the handle 0. -/
def forOne (commands : List Command) : List Request := commands.map (⟨0, ·⟩)

@[simp] theorem commands_forOne (commands : List Command) :
    (forOne commands).map (·.command) = commands := by
  rw [forOne, List.map_map]
  exact List.map_id _

/-- What a handle remembers is due while it is the only one. -/
theorem due_of_remembers {commands : List Command} {uri : String}
    (remembers : Remembers 0 uri (dulyServed (forOne commands))) : uri ∈ due commands := by
  induction commands using List.reverseRecOn with
  | nil => exact absurd remembers not_since_nil
  | append_singleton commands c ih =>
      have last : forOne (commands ++ [c]) = forOne commands ++ [⟨0, c⟩] := List.map_append
      rw [last, dulyServed_append, commands_forOne, Remembers, since_append] at remembers
      rw [mem_due, since_append]
      rcases remembers with ⟨-, marks⟩ | ⟨earlier, onward⟩
      · exact .inl marks
      · have before := ih earlier
        refine .inr ⟨mem_due.1 before, fun drops => ?_⟩
        cases c with
        | reopen | mark => cases drops
        | clear path =>
            have same : Uri.normalize path = uri := of_decide_eq_true drops
            exact onward ⟨rfl, same⟩
        | drain =>
            refine onward ⟨rfl, fun nothing => ?_⟩
            rw [Except.ok.inj nothing] at before
            cases before

theorem renewing_forOne (commands : List Command) : Renewing [] (forOne commands) := by
  intro front r back split uri marks remembers
  obtain ⟨earlier, rest, rfl, rfl, tail⟩ := List.map_eq_append_iff.1 split
  obtain ⟨c, later, rfl, rfl, rfl⟩ := List.map_eq_cons_iff.1 tail
  rw [List.nil_append, show earlier.map _ = forOne earlier from rfl] at remembers ⊢
  rw [commands_forOne]
  exact due_of_remembers remembers

/-! ## Logs that are opened -/

variable {backend : Backend} {root : Path} {base : Address} {w : World}

/-- Any number of handles, all on a log that was just opened. -/
def Shared.opened (log : DirtyLog) (w : World) : Shared := ⟨fun _ => log, w⟩

/-- Nothing is listed, and nothing remembered. -/
def Board.blank : Board := ⟨[], fun _ => .empty⟩

theorem Board.recalled_blank : Board.blank.Recalled [] := fun _ uri known =>
  absurd known (SortedSet.not_mem_empty uri)

/-- From the beginning, where marks renew what is due, one ordered set answers. -/
theorem Board.blank_answers_due (backend : Backend) {requests : List Request}
    (plain : ∀ r ∈ requests, r.command.Plain) (renewing : Renewing [] requests) :
    (Board.blank.answers backend requests).map .ok = dueAnswers (requests.map (·.command)) := by
  have settled : Board.blank.Settled (([] : List Request).map (·.command)) := rfl
  exact answers_due settled recalled_blank plain renewing

theorem Blank.opens (blank : Blank root base w backend) :
    ∃ log w', Script.outcome (DirtyLog.open backend root) w = (.ok log, w') ∧
      Board.blank.Shows backend root base (Shared.opened log w') := by
  obtain ⟨w', opened, kept⟩ := outcome_open_blank blank
  exact ⟨_, w', opened, fun _ => rfl, kept⟩

/-- **Through one handle a log is an ordered set of URIs.** A drain answers what is due, whichever kind of log
it is, and however often the handle is opened anew. -/
theorem one_handle_answers_due (blank : Blank root base w backend) {commands : List Command}
    (plain : ∀ c ∈ commands, c.Plain) :
    ∃ log w', Script.outcome (DirtyLog.open backend root) w = (.ok log, w') ∧
      (Shared.opened log w').answers backend root (forOne commands) = dueAnswers commands := by
  obtain ⟨log, w', opened, shows_⟩ := blank.opens
  have plain' : ∀ r ∈ forOne commands, r.command.Plain := by
    intro r member
    obtain ⟨c, listed, rfl⟩ := List.mem_map.1 member
    exact plain c listed
  have due_ := Board.blank_answers_due backend plain' (renewing_forOne commands)
  rw [commands_forOne] at due_
  exact ⟨log, w', opened, (shows_.serveAll _).trans due_⟩

/-- **Marks of handles that share a log.** No request fails. A mark that its handle does not remember to have
made is answered by the first drain after it, through any handle, unless the URI was cleared in between. Where
no handle repeats a mark that is not due any more, one ordered set answers, whichever kind of log it is. -/
theorem shared_marks_reach_drains (blank : Blank root base w backend) :
    ∃ log w', Script.outcome (DirtyLog.open backend root) w = (.ok log, w') ∧
      (∀ requests, ∃ uris : List (List String),
        (Shared.opened log w').answers backend root requests = uris.map .ok) ∧
      (∀ before handle path between reader, Uri.NamesFile path →
        ¬ Remembers handle (Uri.normalize path)
          (before.zip ((Shared.opened log w').answers backend root before)) →
        (∀ r ∈ between, r.command.drops (Uri.normalize path) = false) →
        ∃ uris, ((Shared.opened log w').answers backend root
            (before ++ ⟨handle, .mark path⟩ :: between ++ [⟨reader, .drain⟩])).getLast? = some (.ok uris) ∧
          Uri.normalize path ∈ uris) ∧
      (∀ requests, (∀ r ∈ requests, r.command.Plain) → Renewing [] requests →
        (Shared.opened log w').answers backend root requests = dueAnswers (requests.map (·.command))) := by
  obtain ⟨log, w', opened, shows_⟩ := blank.opens
  refine ⟨log, w', opened, fun requests => ⟨_, shows_.serveAll requests⟩, ?_, ?_⟩
  · intro before handle path between reader named unremembered kept
    rw [shows_.serveAll] at unremembered
    obtain ⟨uris, last, member⟩ :=
      Board.next_drain Board.recalled_blank named unremembered kept
    refine ⟨uris, ?_, member⟩
    rw [shows_.serveAll, List.getLast?_map, last]
    rfl
  · intro requests plain renewing
    exact (shows_.serveAll requests).trans (Board.blank_answers_due backend plain renewing)

/-! ### Poles -/

theorem plain_mark {path : String} (absolute : (Path.ofString path).isAbsolute = true)
    (unmarked : Uri.hasSchemeMark path.toList = false) : (Command.mark path).Plain :=
  ⟨path, absolute, unmarked, .inl rfl⟩

theorem normal_x : Uri.normalize "/x" = "file:///x" := by decide +kernel

theorem named_x : Uri.NamesFile "/x" := plain_mark (by decide +kernel) (by decide +kernel)

theorem named_yz : Uri.NamesFile "/y z" := plain_mark (by decide +kernel) (by decide +kernel)

/-- Marks, one of them cleared and made again by a handle that is opened anew, then two drains. -/
def sampleCommands : List Command :=
  [.mark "/x", .mark "/y z", .mark "/x", .clear "/x", .reopen, .mark "/x", .drain, .drain]

theorem sample_dueAnswers : dueAnswers sampleCommands =
    [.ok [], .ok [], .ok [], .ok [], .ok [], .ok [], .ok ["file:///y%20z", "file:///x"], .ok []] := by
  decide +kernel

theorem plain_sampleCommands : ∀ c ∈ sampleCommands, c.Plain := by
  simp only [sampleCommands, List.forall_mem_cons]
  exact ⟨named_x, named_yz, named_x, trivial, trivial, named_x, trivial, trivial, nofun⟩

/-- A mark that another handle drains, and that is made again by the first. -/
def lostMark : List Request := [⟨0, .mark "/x"⟩, ⟨1, .drain⟩, ⟨0, .mark "/x"⟩, ⟨1, .drain⟩]

theorem lostMark_answers (backend : Backend) :
    Board.blank.answers backend lostMark = [[], ["file:///x"], [], []] := by
  cases backend <;> decide +kernel

/-- The same, where the handle that drained makes the second mark. -/
def keptMark : List Request := [⟨0, .mark "/x"⟩, ⟨1, .drain⟩, ⟨1, .mark "/x"⟩, ⟨0, .drain⟩]

theorem keptMark_renewing : Renewing [] keptMark := by
  have drain : ∀ {handle : Nat} {before : List Request}, Request.Renews ⟨handle, .drain⟩ before :=
    fun uri marks => by cases marks
  have first : Request.Renews ⟨0, .mark "/x"⟩ [] := fun uri _ remembers => absurd remembers not_since_nil
  have second : Request.Renews ⟨1, .mark "/x"⟩ [⟨0, .mark "/x"⟩, ⟨1, .drain⟩] := by
    intro uri _ remembers
    have own := remembers.marked
    simp [Command.marked] at own
  exact renewing_cons.2 ⟨first, renewing_cons.2 ⟨drain, renewing_cons.2 ⟨second,
    renewing_cons.2 ⟨drain, renewing_nil⟩⟩⟩⟩

theorem plain_keptMark : ∀ r ∈ keptMark, r.command.Plain := by
  simp only [keptMark, List.forall_mem_cons]
  exact ⟨named_x, trivial, named_x, trivial, nofun⟩

theorem keptMark_dueAnswers : dueAnswers (keptMark.map (·.command)) =
    [.ok [], .ok ["file:///x"], .ok [], .ok ["file:///x"]] := by
  decide +kernel

/-- The place of the index in the samples. -/
def sampleRoot : Path := ⟨[47, 105]⟩

theorem blank_newIndex (backend : Backend) : Blank sampleRoot [[105]] newIndex backend := .fresh newIndex_fresh

/-- A log is opened in the new index, and requests are answered so. -/
def SampleAnswers (backend : Backend) (requests : List Request) (answers : List Answer) : Prop :=
  ∃ log w', Script.outcome (DirtyLog.open backend sampleRoot) newIndex = (.ok log, w') ∧
    (Shared.opened log w').answers backend sampleRoot requests = answers

/-- Either kind of log answers the commands of one handle. -/
theorem sample_one_handle_answers_due :
    SampleAnswers .file (forOne sampleCommands)
      [.ok [], .ok [], .ok [], .ok [], .ok [], .ok [], .ok ["file:///y%20z", "file:///x"], .ok []] ∧
    SampleAnswers .sqlite (forOne sampleCommands)
      [.ok [], .ok [], .ok [], .ok [], .ok [], .ok [], .ok ["file:///y%20z", "file:///x"], .ok []] := by
  have both : ∀ backend, SampleAnswers backend (forOne sampleCommands) (dueAnswers sampleCommands) := fun backend =>
    one_handle_answers_due (blank_newIndex backend) plain_sampleCommands
  rw [sample_dueAnswers] at both
  exact ⟨both .file, both .sqlite⟩

/-- **A mark is lost that its handle remembers**: the handle 0 marks a file, the handle 1 drains it, and when the
file changes again the mark of the handle 0 does not reach the next drain. -/
theorem remembered_mark_lost :
    Uri.normalize "/x" = "file:///x" ∧
      SampleAnswers .file lostMark [.ok [], .ok ["file:///x"], .ok [], .ok []] ∧
      SampleAnswers .sqlite lostMark [.ok [], .ok ["file:///x"], .ok [], .ok []] := by
  have both : ∀ backend, SampleAnswers backend lostMark [.ok [], .ok ["file:///x"], .ok [], .ok []] := by
    intro backend
    obtain ⟨log, w', opened, shows_⟩ := (blank_newIndex backend).opens
    refine ⟨log, w', opened, ?_⟩
    rw [shows_.serveAll, lostMark_answers]
    rfl
  exact ⟨normal_x, both .file, both .sqlite⟩

/-- The handle 1 marks what it drained: the next drain answers it, whatever the handle 0 marks and clears in
between. -/
theorem sample_shared_marks_reach_drains :
    (∃ log w', Script.outcome (DirtyLog.open .file sampleRoot) newIndex = (.ok log, w') ∧
      ∃ uris, ((Shared.opened log w').answers .file sampleRoot ([⟨0, .mark "/x"⟩, ⟨1, .drain⟩] ++
          ⟨1, .mark "/x"⟩ :: [⟨0, .mark "/x"⟩, ⟨0, .clear "/y z"⟩] ++ [⟨0, .drain⟩])).getLast? =
            some (.ok uris) ∧ Uri.normalize "/x" ∈ uris) ∧
    SampleAnswers .file keptMark [.ok [], .ok ["file:///x"], .ok [], .ok ["file:///x"]] ∧
    SampleAnswers .sqlite keptMark [.ok [], .ok ["file:///x"], .ok [], .ok ["file:///x"]] := by
  have both : ∀ backend, SampleAnswers backend keptMark (dueAnswers (keptMark.map (·.command))) := by
    intro backend
    obtain ⟨log, w', opened, -, -, duly⟩ := shared_marks_reach_drains (blank_newIndex backend)
    exact ⟨log, w', opened, duly keptMark plain_keptMark keptMark_renewing⟩
  rw [keptMark_dueAnswers] at both
  obtain ⟨log, w', opened, -, reaches, -⟩ := shared_marks_reach_drains (blank_newIndex .file)
  refine ⟨⟨log, w', opened, reaches _ 1 "/x" _ 0 named_x (fun remembers => ?_) (by decide +kernel)⟩, both .file,
    both .sqlite⟩
  have own := remembers.marked
  simp [Command.marked] at own

end DirtyLog

end SymbolIndex
