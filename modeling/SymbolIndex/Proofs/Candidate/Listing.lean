import SymbolIndex.Candidate.Source
import SymbolIndex.Proofs.System.Run

/-!
# Proofs.Candidate.Listing — listing files changes nothing

The files of a project and of a stub are found by asking alone, whatever the answers are (`Script.Asks`). So the
sources of an index leave every world as it is (`Script.Quiet`), but for the dirty log (`Source.asks_ofConfig`,
`Source.quiet_ofConfig`).
-/

namespace SymbolIndex

set_option autoImplicit false

variable {α β : Type}

/-- A call asks for what is there, and changes nothing. -/
def Call.Asks : {β : Type} → Call β → Prop
  | _, .read _ | _, .stat _ | _, .readDirectory _ => True
  | _, _ => False

/-- A script leaves every world as it is. -/
def Script.Quiet (s : Script α) : Prop := ∀ w, (s.run w).2 = w

/-- All calls of a script ask, whatever they are answered. -/
def Script.Asks : Script α → Prop
  | .done _ => True
  | .call request next => request.Asks ∧ ∀ answer, (next answer).Asks

theorem Call.Asks.perform {request : Call β} (asks : request.Asks) (w : World) : (request.perform w).2 = w := by
  cases request with
  | read | stat | readDirectory => rfl
  | _ => exact asks.elim

namespace Script.Asks

theorem quiet {s : Script α} (asks : s.Asks) : s.Quiet := by
  induction s with
  | done a => exact fun _ => rfl
  | call request next ih =>
      intro w
      rw [Script.run, ih _ (asks.2 _), asks.1.perform]

theorem pure (a : α) : Asks (Pure.pure a) := trivial

theorem bind {s : Script α} {f : α → Script β} (first : s.Asks) (rest : ∀ a, (f a).Asks) : (s >>= f).Asks := by
  induction s with
  | done a => exact rest a
  | call request next ih => exact ⟨first.1, fun answer => ih answer (first.2 answer)⟩

theorem stat (path : Path) : Asks (ask (.stat path)) := ⟨trivial, fun _ => trivial⟩

theorem entries (path : Path) : (Script.entries path).Asks := by
  have asked : Asks (ask (.readDirectory path)) := ⟨trivial, fun _ => trivial⟩
  refine asked.bind fun found => ?_
  cases found <;> exact .pure _

theorem collect {f : α → Script (List β)} (each : ∀ a, (f a).Asks) (l : List α) : (Script.collect f l).Asks := by
  induction l with
  | nil => exact .pure _
  | cons a l ih => exact (each a).bind fun _ => ih.bind fun _ => .pure _

end Script.Asks

namespace Selection

theorem asks_addressed (path : Path) (above : List Address) : (addressed path above).Asks :=
  (Script.Asks.stat path).bind fun found => by cases found <;> exact .pure _

theorem asks_metBehind (path : Path) : (metBehind path).Asks :=
  (Script.Asks.stat path).bind fun found => by
    rcases found with _ | ⟨_, _ | _ | _, _, _⟩ <;> exact .pure _

theorem asks_met (s : Selection) (path : Path) (kind : NodeKind) : (s.met path kind).Asks := by
  cases kind with
  | directory => exact .pure _
  | link =>
      rw [met]
      split
      · exact asks_metBehind path
      · exact .pure _
  | file => exact (Script.Asks.stat path).bind fun found => by cases found <;> exact .pure _

theorem asks_below (s : Selection) (depth : Nat) (above : List Address) (names : List Name)
    (directory : Path) : (s.below depth above names directory).Asks := by
  induction depth generalizing above names directory with
  | zero => exact .pure _
  | succ depth ih =>
      refine (asks_addressed directory above).bind fun above => (Script.Asks.entries directory).bind
        fun entries => .collect (fun entry => (asks_met s _ _).bind fun found => ?_) entries
      cases found with
      | nothing => exact .pure _
      | file size => exact .pure _
      | directory linked =>
          simp only
          split
          · exact .pure _
          · exact ih _ _ _

theorem asks_files (s : Selection) : s.files.Asks := s.asks_below _ _ _ _

end Selection

namespace Listing

theorem asks_project (s : Selection) : Script.Asks (project s) := s.asks_files.bind fun _ => .pure _

theorem asks_stub (follow : Bool) (path : Path) : Script.Asks (stub follow path) := by
  refine (Script.Asks.stat path).bind fun found => ?_
  split
  · exact .pure _
  · split
    · exact .pure _
    · exact asks_project _

theorem quiet_project (s : Selection) : Script.Quiet (project s) := (asks_project s).quiet

theorem quiet_stub (follow : Bool) (path : Path) : Script.Quiet (stub follow path) := (asks_stub follow path).quiet

end Listing

namespace Source

/-- The sources of an index are listings that only ask, and last the dirty log. -/
theorem asks_ofConfig {c : IndexConfig} {sources : List Source} (made : ofConfig c = .ok sources) :
    ∃ listings : List Listing, sources = listings.map .listing ++ [.dirtyLog] ∧
      ∀ list ∈ listings, Script.Asks list := by
  rw [ofConfig] at made
  cases chosen : Selection.ofConfig c with
  | error e =>
      rw [chosen] at made
      cases made
  | ok s =>
      rw [chosen] at made
      cases made
      refine ⟨.project s :: c.stubPaths.map (.stub c.followSymlinks), ?_, ?_⟩
      · rw [List.map_cons, List.map_map]
        rfl
      · intro list member
        rcases List.mem_cons.1 member with rfl | member
        · exact Listing.asks_project s
        · obtain ⟨path, -, rfl⟩ := List.mem_map.1 member
          exact Listing.asks_stub _ path

/-- The sources of an index are listings that change nothing, and last the dirty log. -/
theorem quiet_ofConfig {c : IndexConfig} {sources : List Source} (made : ofConfig c = .ok sources) :
    ∃ listings : List Listing, sources = listings.map .listing ++ [.dirtyLog] ∧
      ∀ list ∈ listings, Script.Quiet list := by
  obtain ⟨listings, same, asks⟩ := asks_ofConfig made
  exact ⟨listings, same, fun list member => (asks list member).quiet⟩

end Source

end SymbolIndex
