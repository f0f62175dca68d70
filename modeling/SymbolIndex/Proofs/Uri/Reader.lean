import Mathlib.Data.List.TakeWhile
import SymbolIndex.Proofs.System.Paths
import SymbolIndex.Proofs.Uri.Percent

/-!
# Proofs.Uri.Reader — the URI of a path leads back to it

A text that is read as a URI is trimmed, cut, resolved and decoded. Of the URI that is made of an absolute
path nothing is trimmed or cut off, its segments are the components of the path, and none of them is a
spelling of a dot unless the path goes up by `..`, or is rewritten as a drive unless the path begins with one.
So it leads back to the components it was made of (`toPath_normalize`), whatever bytes they have.
-/

namespace SymbolIndex

open SymbolIndex.Text (Bytes encode)

set_option autoImplicit false

/-! ## Components -/

/-- A name between the slashes of a path that counts. -/
structure Name.IsComponent (name : Name) : Prop where
  some_ : name ≠ []
  notDot : name ≠ [dot]
  unslashed : slash ∉ name

namespace Path

theorem unslashed_of_mem_pieces {bytes : Bytes} {name : Name} (member : name ∈ pieces bytes) : slash ∉ name := by
  induction bytes generalizing name with
  | nil => simp [List.mem_singleton.1 member]
  | cons b bytes ih =>
      rw [pieces] at member
      split at member
      · rcases List.mem_cons.1 member with rfl | member
        · simp
        · exact ih member
      next plain =>
        cases parts : pieces bytes with
        | nil => exact absurd parts (pieces_ne_nil bytes)
        | cons piece more =>
            rw [parts] at member ih
            rcases List.mem_cons.1 member with rfl | member
            · rw [List.mem_cons, not_or]
              exact ⟨Ne.symm plain, ih List.mem_cons_self⟩
            · exact ih (List.mem_cons_of_mem piece member)

theorem isComponent_of_mem {p : Path} {name : Name} (member : name ∈ p.components) : name.IsComponent := by
  obtain ⟨inside, counts⟩ := List.mem_filter.1 member
  obtain ⟨some_, notDot⟩ := of_decide_eq_true counts
  exact ⟨some_, notDot, unslashed_of_mem_pieces inside⟩

theorem pieces_append_names (front : Bytes) {names : List Name} (unslashed : ∀ name ∈ names, slash ∉ name) :
    pieces (front ++ names.flatMap (slash :: ·)) = pieces front ++ names := by
  induction names generalizing front with
  | nil => simp
  | cons name names ih =>
      have more : ∀ n ∈ names, slash ∉ n := fun n member => unslashed n (List.mem_cons_of_mem name member)
      rw [List.flatMap_cons, List.cons_append, pieces_append_slash, ih name more,
        pieces_of_unslashed (unslashed name List.mem_cons_self), List.singleton_append]

/-- A path that is written out of its components. -/
theorem components_names {names : List Name} (components : ∀ name ∈ names, name.IsComponent) :
    Path.components ⟨names.flatMap (slash :: ·)⟩ = names := by
  have parts := pieces_append_names [] fun name member => (components name member).unslashed
  have counting : names.filter (fun name => name ≠ [] ∧ name ≠ [dot]) = names :=
    List.filter_eq_self.2 fun name member =>
      decide_eq_true ⟨(components name member).some_, (components name member).notDot⟩
  rw [List.nil_append] at parts
  rw [Path.components, parts, List.filter_append, counting]
  rfl

theorem components_append_slash (bytes : Bytes) :
    Path.components ⟨bytes ++ [slash]⟩ = Path.components ⟨bytes⟩ := by
  rw [Path.components, pieces_append_slash, List.filter_append]
  exact List.append_nil _

end Path

namespace Uri

/-! ## Segments -/

theorem segments_ne_nil (text : List Char) : segments text ≠ [] := by
  cases text with
  | nil => simp [segments]
  | cons c text =>
      rw [segments]
      split
      · simp
      · split <;> simp

theorem segments_append_slash (front back : List Char) :
    segments (front ++ '/' :: back) = segments front ++ segments back := by
  induction front with
  | nil => rfl
  | cons c front ih =>
      rw [List.cons_append, segments, segments, ih]
      split
      · rfl
      · cases parts : segments front with
        | nil => exact absurd parts (segments_ne_nil front)
        | cons segment more => rfl

theorem segments_of_unslashed {segment : List Char} (unslashed : ∀ c ∈ segment, isSlash c = false) :
    segments segment = [segment] := by
  induction segment with
  | nil => rfl
  | cons c segment ih =>
      have rest := ih fun d member => unslashed d (List.mem_cons_of_mem c member)
      rw [segments, unslashed c List.mem_cons_self, rest]
      rfl

theorem segments_append_names (front : List Char) (names : List Name) :
    segments (front ++ names.flatMap fun name => '/' :: encodeBytes name) =
      segments front ++ names.map encodeBytes := by
  induction names generalizing front with
  | nil => simp
  | cons name names ih =>
      have own : segments (encodeBytes name) = [encodeBytes name] :=
        segments_of_unslashed fun c member => (unmarked_encodeBytes name c member).1
      rw [List.flatMap_cons, List.cons_append, segments_append_slash, ih, own, List.map_cons,
        List.singleton_append]

theorem componentChars_eq {names : List Name} (some_ : names ≠ []) :
    componentChars names = names.flatMap fun name => '/' :: encodeBytes name := by
  induction names using componentChars.induct with
  | case1 => exact absurd rfl some_
  | case2 name => simp [componentChars]
  | case3 name rest more ih => rw [componentChars, ih more, List.flatMap_cons]; exact more

/-- What is written of some components begins with a slash, and the segments after it are the components. -/
theorem componentChars_segments (names : List Name) : ∃ text, componentChars names = '/' :: text ∧
    (names = [] ∧ text = [] ∨ names ≠ [] ∧ segments text = names.map encodeBytes) := by
  cases names with
  | nil => exact ⟨[], rfl, .inl ⟨rfl, rfl⟩⟩
  | cons name rest =>
      refine ⟨encodeBytes name ++ rest.flatMap fun n => '/' :: encodeBytes n, ?_,
        .inr ⟨List.cons_ne_nil _ _, ?_⟩⟩
      · rw [componentChars_eq (List.cons_ne_nil _ _), List.flatMap_cons, List.cons_append]
      · have own : segments (encodeBytes name) = [encodeBytes name] :=
          segments_of_unslashed fun c member => (unmarked_encodeBytes name c member).1
        rw [segments_append_names, own, List.map_cons, List.singleton_append]

/-- Only a drive that begins a path is rewritten. -/
theorem settle_eq (bar : Bar) {done : List (List Char)} {segment : List Char}
    (undriven : done = [] → isDriveLetter segment = false) : settle bar done segment = segment := by
  refine if_neg fun rewritten => ?_
  obtain ⟨-, first, driven⟩ := rewritten
  rw [undriven first] at driven
  cases driven

/-- Segments of which none is a spelling of dots stay as they are, unless the first is a drive. -/
theorem resolveDots_plain (bar : Bar) (done : List (List Char)) {found : List (List Char)}
    (plain : ∀ s ∈ found, isDot s = false ∧ isDotDot s = false)
    (undriven : done = [] → ∀ s ∈ found.head?, isDriveLetter s = false) :
    resolveDots bar done found = done ++ found := by
  induction found generalizing done with
  | nil => simp [resolveDots]
  | cons segment rest ih =>
      obtain ⟨notDot, notUp⟩ := plain segment List.mem_cons_self
      have kept : settle bar done segment = segment := settle_eq bar fun first => undriven first segment rfl
      have more := ih (done ++ [segment]) (fun s member => plain s (List.mem_cons_of_mem segment member))
        fun empty => absurd empty (by simp)
      cases rest with
      | nil => simp [resolveDots, notDot, notUp, kept]
      | cons next rest =>
          rw [resolveDots, notUp, notDot, kept]
          · simpa using more
          · simp

/-- The segments of what is written of some components, if none of them is `..` and the first is no drive. -/
theorem pathSegments_componentChars (bar : Bar) {names : List Name} (components : ∀ name ∈ names, name.IsComponent)
    (down : Disk.dotDot ∉ names) (undriven : ∀ name ∈ names.head?, isDrive name = false) :
    pathSegments bar (componentChars names) = if names = [] then [[]] else names.map encodeBytes := by
  obtain ⟨text, shape, parts⟩ := componentChars_segments names
  have open_ : ∀ c ∈ componentChars names, (!endsPath c) = true := by
    intro c member
    by_cases none_ : names = []
    · subst none_
      obtain rfl := List.mem_singleton.1 member
      rfl
    · rw [componentChars_eq none_] at member
      obtain ⟨name, -, inside⟩ := List.mem_flatMap.1 member
      rcases List.mem_cons.1 inside with rfl | inside
      · rfl
      · rw [(unmarked_encodeBytes name c inside).2]
        rfl
  have whole : (componentChars names).takeWhile (fun c => !endsPath c) = componentChars names :=
    List.takeWhile_eq_self_iff.2 open_
  rw [pathSegments, whole, shape]
  rcases parts with ⟨rfl, rfl⟩ | ⟨some_, parts⟩
  · cases bar <;> rfl
  · have plain : ∀ s ∈ names.map encodeBytes, isDot s = false ∧ isDotDot s = false := by
      intro s member
      obtain ⟨name, inside, rfl⟩ := List.mem_map.1 member
      exact ⟨isDot_encodeBytes (components name inside).notDot,
        isDotDot_encodeBytes fun up => down (up ▸ inside)⟩
    obtain ⟨name, rest, rfl⟩ := List.exists_cons_of_ne_nil some_
    have solid : (encodeBytes name).isEmpty = false := by
      rw [List.isEmpty_eq_false_iff]
      exact encodeBytes_ne_nil (components name List.mem_cons_self).some_
    have first : isDriveLetter (encodeBytes name) = false := isDriveLetter_encodeBytes (undriven name rfl)
    have resolved : resolveDots bar [] (segments text) = (name :: rest).map encodeBytes := by
      rw [parts, resolveDots_plain bar [] plain fun _ s head => Option.some.inj head ▸ first, List.nil_append]
    have whole' : ((name :: rest).map encodeBytes).dropWhile List.isEmpty = (name :: rest).map encodeBytes := by
      rw [List.map_cons, List.dropWhile_cons_of_neg]
      simp [solid]
    simp only [isSlash, beq_self_eq_true, Bool.true_or, if_true, resolved, whole']
    rfl

/-! ## From a URI to the path -/

theorem trimControls_visible {text : List Char} (visible : ∀ c ∈ text, IsVisible c) :
    trimControls text = text := by
  have kept : ∀ cs : List Char, (∀ c ∈ cs, IsVisible c) → cs.dropWhile (fun c => c.toNat ≤ 0x20) = cs := by
    intro cs each
    cases cs with
    | nil => rfl
    | cons c cs =>
        refine List.dropWhile_cons_of_neg ?_
        have low := (each c List.mem_cons_self).1
        simp only [decide_eq_true_eq]
        omega
  rw [trimControls]
  simp only
  rw [kept text visible, kept text.reverse fun c member => visible c (List.mem_reverse.1 member),
    List.reverse_reverse]

theorem dropBreaks_visible {text : List Char} (visible : ∀ c ∈ text, IsVisible c) :
    dropBreaks text = text := by
  refine List.filter_eq_self.2 fun c member => decide_eq_true ?_
  have low := (visible c member).1
  refine ⟨?_, ?_, ?_⟩ <;> (rintro rfl; revert low; decide)

/-- The URI of an absolute path is read as the segments of its components. -/
theorem filePath?_normalize (bar : Bar) {p : String} (absolute : (Path.ofString p).isAbsolute = true)
    (unmarked : hasSchemeMark p.toList = false) :
    filePath? bar (normalize p) =
      some (pathOfSegments (pathSegments bar (componentChars (Path.ofString p).components))) := by
  have visible := visible_normalize absolute unmarked
  have chars : (normalize p).toList =
      "file://".toList ++ componentChars (Path.ofString p).components := by
    rw [normalize_of_absolute absolute unmarked, String.toList_ofList]
  obtain ⟨text, shape, -⟩ := componentChars_segments (Path.ofString p).components
  have scheme : scheme? (normalize p).toList =
      some ("file".toList, '/' :: '/' :: componentChars (Path.ofString p).components) := by
    rw [chars]
    simp [scheme?, isSchemeChar]
  have local_ : localPath? ('/' :: '/' :: componentChars (Path.ofString p).components) =
      some (componentChars (Path.ofString p).components) := by
    simp [localPath?, shape, isSlash, isDriveLetter, isLocalHost]
  rw [filePath?, trimControls_visible visible, dropBreaks_visible visible, scheme]
  exact congrArg (Option.map _) local_

theorem components_closeDrive (bytes : Bytes) :
    Path.components ⟨closeDrive bytes⟩ = Path.components ⟨bytes⟩ := by
  rw [closeDrive]
  split
  · split
    · exact Path.components_append_slash bytes
    · rfl
  · rfl

theorem head?_closeDrive {bytes : Bytes} (some_ : bytes ≠ []) : (closeDrive bytes).head? = bytes.head? := by
  rw [closeDrive]
  split
  · split
    · rw [List.head?_append_of_ne_nil _ some_]
    · rfl
  · rfl

/-- The URI of a path leads back to its components, by every reader. -/
theorem readPath_normalize (bar : Bar) {p : String} (absolute : (Path.ofString p).isAbsolute = true)
    (unmarked : hasSchemeMark p.toList = false) (down : Disk.dotDot ∉ (Path.ofString p).components)
    (undriven : ∀ name ∈ (Path.ofString p).components.head?, isDrive name = false) :
    (readPath bar (normalize p)).isAbsolute = true ∧
      (readPath bar (normalize p)).components = (Path.ofString p).components := by
  have each : ∀ name ∈ (Path.ofString p).components, name.IsComponent := fun _ => Path.isComponent_of_mem
  rw [readPath, filePath?_normalize bar absolute unmarked, Option.getD_some,
    pathSegments_componentChars bar each down undriven]
  clear undriven
  generalize (Path.ofString p).components = names at each
  have bytes : pathOfSegments (if names = [] then [[]] else names.map encodeBytes) =
      ⟨closeDrive (if names = [] then [slash] else names.flatMap (slash :: ·))⟩ := by
    rw [pathOfSegments]
    split
    · rfl
    · simp only [List.flatMap_map, decode_encodeBytes]
  rw [bytes, components_closeDrive]
  split
  next none_ => exact ⟨rfl, by rw [none_]; rfl⟩
  next some_ =>
    refine ⟨?_, Path.components_names each⟩
    obtain ⟨name, rest, rfl⟩ := List.exists_cons_of_ne_nil some_
    rw [Path.isAbsolute, head?_closeDrive (by simp)]
    simp

/-- **The URI of a path leads back to it.** For every absolute path without a scheme mark that does not go up by
`..` and does not begin with a drive, whatever its components are made of, the path that its URI points at is
absolute and has the components of the path, also by a reader that rewrites drives as the standard has it. -/
theorem toPath_normalize {p : String} (absolute : (Path.ofString p).isAbsolute = true)
    (unmarked : hasSchemeMark p.toList = false) (down : Disk.dotDot ∉ (Path.ofString p).components)
    (undriven : ∀ name ∈ (Path.ofString p).components.head?, isDrive name = false) :
    ((toPath (normalize p)).isAbsolute = true ∧
      (toPath (normalize p)).components = (Path.ofString p).components) ∧
    ∀ bar, (readPath bar (normalize p)).isAbsolute = true ∧
      (readPath bar (normalize p)).components = (Path.ofString p).components :=
  ⟨readPath_normalize .kept absolute unmarked down undriven,
    fun bar => readPath_normalize bar absolute unmarked down undriven⟩

/-- A path with a name that looks encoded, signs with a meaning in URIs, a tab, a line break, drives after its
first component and slashes that count for nothing. -/
def samplePath : String := "/a b//%2e%2e/.\\?#\"/./C|/é\t\n/x:|/D:"

/-- The path comes back. -/
theorem sample_toPath_normalize :
    ((toPath (normalize samplePath)).isAbsolute = true ∧ (toPath (normalize samplePath)).components =
      ["a b", "%2e%2e", ".\\?#\"", "C|", "é\t\n", "x:|", "D:"].map encode) ∧
    (readPath .colon (normalize samplePath)).components = (toPath (normalize samplePath)).components := by
  have first : (Path.ofString samplePath).components.head? = some (encode "a b") := by decide +kernel
  obtain ⟨⟨absolute, components⟩, read⟩ := toPath_normalize (p := samplePath) (by decide +kernel)
    (by decide +kernel) (by decide +kernel) fun name member => by
      obtain rfl := Option.some.inj (first.symm.trans member)
      decide +kernel
  exact ⟨⟨absolute, components.trans (by decide +kernel)⟩, (read .colon).2.trans components.symm⟩

/-- A drive that begins a path comes back as it is, or with a colon. -/
example : toPath (normalize "/C|/x.php") = .ofString "/C|/x.php" ∧
    readPath .colon (normalize "/C|/x.php") = .ofString "/C:/x.php" := by decide +kernel

end Uri

end SymbolIndex
