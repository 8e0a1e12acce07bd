import YupFront.Proofs.Bounds

/-! A file that passes every check is a source like any other. The checks are stated one by one, each by
what the file system holds; a run over a file is told by the first of them that fails, and by a run
over the text if there is none. -/

namespace YupFront

/-! Lines, counted by their ends and as pieces. -/

theorem lastLine_eq_nil_iff (cs : List Char) :
    lastLine cs = [] ↔ cs = [] ∨ cs.getLast? = some '\n' := by
  induction cs using List.reverseRecOn with
  | nil => simp [lastLine]
  | append_singleton cs c ih =>
    rw [lastLine_concat]
    by_cases hc : c = '\n' <;> simp [hc]

theorem getLast?_splitLines (cs : List Char) : (splitLines cs).getLast? = some (lastLine cs) := by
  have hlength : (splitLines cs).length = cs.count '\n' + 1 := by
    rw [splitLines, length_splitOnto, List.length_nil, Nat.zero_add]
  have hlast := getElem?_splitLines cs []
  rw [List.append_nil] at hlast
  rw [List.getLast?_eq_getElem?, hlength, Nat.add_sub_cancel, hlast]
  exact congrArg some (List.append_nil _)

theorem length_lines (text : String) : (lines text).length =
    text.toList.count '\n' +
      if text.toList = [] ∨ text.toList.getLast? = some '\n' then 0 else 1 := by
  have hended : (splitLines text.toList).dropLast.length = text.toList.count '\n' := by
    rw [List.length_dropLast, splitLines, length_splitOnto]
    simp
  simp only [lines, List.length_map, List.length_append, hended, getLast?_splitLines,
    ← lastLine_eq_nil_iff]
  cases lastLine text.toList <;> rfl

theorem countLines_eq_length_lines (text : String) : countLines text = (lines text).length := by
  rw [length_lines, countLines, List.count_eq_countP]
  cases hlast : text.toList.getLast? with
  | none => simp [List.getLast?_eq_none_iff.mp hlast]
  | some c =>
    have hne : text.toList ≠ [] := by
      intro h
      simp [h] at hlast
    by_cases hc : c = '\n' <;> simp [hc, hne]

/-! The checks. -/

/-- What is asked of a path and its file, in this order. -/
inductive LoadCheck where
  | pathGiven
  | present
  | regular
  | resolved
  | sizeWithin
  | extensionRight
  | isText
  | linesWithin

namespace LoadCheck

def all : List LoadCheck :=
  [pathGiven, present, regular, resolved, sizeWithin, extensionRight, isText, linesWithin]

/-- The checks that can fail where no location on the way to a file has too long a path. -/
def usual : List LoadCheck :=
  [pathGiven, present, regular, sizeWithin, extensionRight, isText, linesWithin]

/-- The file a path leads to, if it does lead to one. -/
def file? (system : FileSystem) (path : String) : Option (Location × ByteArray) :=
  match system.resolve path with
  | .ok (location, .file bytes) => some (location, bytes)
  | _ => none

/-- The extension of the last name, in lower case. -/
def extensionOf (location : Location) : Option String :=
  (location.getLast?.bind extension?).map Text.lower

/-- How a check fails. A check that cannot be made has not failed. -/
def failure? (preferences : LoadingPreferences) (system : FileSystem) (path : String) :
    LoadCheck → Option LoadError
  | pathGiven => if Text.isBlankText path then some (.invalidPath path) else none
  | present =>
    match system.resolve path with
    | .error _ => some (.notFound path)
    | .ok _ => none
  | regular =>
    match system.resolve path with
    | .ok (_, .directory) => some (.invalidPath path)
    | _ => none
  | resolved => (file? system path).bind fun _ =>
    if system.WayFits path then none else some (.ofSystem .nameTooLong path "resolve path")
  | sizeWithin => (file? system path).bind fun (_, bytes) =>
    if Limits.fileSize < bytes.size then some (.tooLarge bytes.size Limits.fileSize) else none
  | extensionRight => (file? system path).bind fun (location, _) =>
    if preferences.requireExtension = true ∧ extensionOf location ≠ some "yup" then
      some (.wrongExtension (extensionOf location))
    else none
  | isText => (file? system path).bind fun (location, bytes) =>
    if String.fromUTF8? bytes = none then some (.notText location.render) else none
  | linesWithin => (file? system path).bind fun (_, bytes) =>
    (String.fromUTF8? bytes).bind fun source =>
      if Limits.lineCount < (lines source).length then
        some (.tooManyLines (lines source).length Limits.lineCount)
      else none

/-- The first of some checks that fails decides. -/
def firstFailure? (checks : List LoadCheck) (preferences : LoadingPreferences) (system : FileSystem)
    (path : String) : Option LoadError :=
  checks.findSome? (failure? preferences system path)

/-- Some checks are made: there is the error of the first one that fails, or a result of which `P`
holds. -/
def Settles (f : LoadCheck → Option LoadError) (checks : List LoadCheck) (P : α → Prop) :
    Except LoadError α → Prop
  | .error e => checks.findSome? f = some e
  | .ok a => checks.findSome? f = none ∧ P a

variable {α β : Type} {f : LoadCheck → Option LoadError} {checks more : List LoadCheck} {P : α → Prop}
  {Q : β → Prop}

theorem settles_error {e : LoadError} (h : checks.findSome? f = some e) (more : List LoadCheck) :
    Settles f (checks ++ more) Q (.error e) := by
  rw [Settles, List.findSome?_append, h]
  rfl

theorem Settles.after {r : Except LoadError β} (hchecks : checks.findSome? f = none)
    (h : Settles f more Q r) : Settles f (checks ++ more) Q r := by
  have happend : (checks ++ more).findSome? f = more.findSome? f := by
    rw [List.findSome?_append, hchecks]
    rfl
  cases r with
  | error e => exact happend.trans h
  | ok b => exact ⟨happend.trans h.1, h.2⟩

section Loading

variable (preferences : LoadingPreferences) (system : FileSystem) (path : String)

theorem locate_settles : (locate system path).Yields
    (Settles (failure? preferences system path) [pathGiven, present, regular, resolved]
      fun location => system.WayFits path ∧
        ∃ bytes, file? system path = some (location, bytes)) := by
  unfold locate
  by_cases hblank : Text.isBlankText path = true
  · rw [if_pos hblank]
    refine .after _ fun _ => yields_pure ?_
    simp [Settles, failure?, hblank]
  · rw [if_neg hblank]
    cases hresolve : system.resolve path with
    | error e =>
      have hthere : system.host.isThere path = false := by
        simp [FileSystem.host, hresolve, Except.isOk, Except.toBool]
      rw [hthere]
      refine .after _ fun _ => yields_pure ?_
      simp [Settles, failure?, hblank, hresolve]
    | ok found =>
      obtain ⟨location, entry⟩ := found
      have hthere : system.host.isThere path = true := by
        simp [FileSystem.host, hresolve, Except.isOk, Except.toBool]
      rw [hthere]
      cases entry with
      | directory =>
        have hfile : system.host.isFile path = false := by simp [FileSystem.host, hresolve]
        rw [hfile]
        refine .after _ fun _ => yields_pure ?_
        simp [Settles, failure?, hblank, hresolve]
      | file bytes =>
        have hfile : system.host.isFile path = true := by simp [FileSystem.host, hresolve]
        rw [hfile]
        by_cases hway : system.WayFits path
        · have hcanonical : system.host.canonical path = .ok location :=
            FileSystem.canonical_eq_ok hresolve hway
          simp only [hcanonical]
          refine yields_pure ?_
          simp [Settles, failure?, hblank, hresolve, file?, hway]
        · have hcanonical : system.host.canonical path = .error .nameTooLong := by
            simp only [FileSystem.host, FileSystem.canonical, hresolve, if_neg hway]
          simp only [hcanonical]
          refine .after _ fun _ => yields_pure ?_
          simp [Settles, failure?, hblank, hresolve, file?, hway]

variable {system path} {location : Location} {bytes : ByteArray}
variable (hfile : file? system path = some (location, bytes))
include hfile

theorem contents_of_file (hway : system.WayFits path) : system.contents location = .ok bytes := by
  have hresolve : system.resolve path = .ok (location, .file bytes) := by
    unfold file? at hfile
    split at hfile
    · next h =>
      cases hfile
      exact h
    · cases hfile
  exact FileSystem.contents_eq_ok hresolve hway

omit hfile in
theorem collectMetadata_result (system : FileSystem) {location : Location} {bytes : ByteArray}
    (hcontents : system.contents location = .ok bytes) :
    (collectMetadata system location).Yields (· = .ok (.ofFile location bytes.size)) := by
  intro j
  simp only [collectMetadata, FileSystem.host, hcontents]
  rfl

theorem checkMetadata_settles :
    (checkMetadata preferences path (.ofFile location bytes.size)).Yields
      (Settles (failure? preferences system path) [sizeWithin, extensionRight]
        fun _ => bytes.size ≤ Limits.fileSize) := by
  let m := FileMetadata.ofFile location bytes.size
  have hkind : (preferences.requireExtension && !m.isSource) = true ↔
      preferences.requireExtension = true ∧ extensionOf location ≠ some "yup" := by
    simp [m, FileMetadata.isSource, FileMetadata.ofFile, extensionOf, sourceExtension]
  unfold checkMetadata
  by_cases hsize : Limits.fileSize < m.size
  · rw [if_pos hsize]
    have hbytes : Limits.fileSize < bytes.size := hsize
    refine .after _ fun _ => yields_pure ?_
    simp [Settles, failure?, hfile, hbytes, FileMetadata.ofFile]
  · rw [if_neg hsize]
    have hbytes : ¬Limits.fileSize < bytes.size := hsize
    by_cases hwrong : (preferences.requireExtension && !m.isSource) = true
    · rw [if_pos hwrong]
      have hextension := hkind.mp hwrong
      refine .after _ fun _ => yields_pure ?_
      simp only [Settles, failure?, hfile, hbytes, hextension, List.findSome?_cons, Option.bind_some,
        if_false, if_true, and_self, ne_eq, not_false_eq_true]
      rfl
    · rw [if_neg hwrong]
      have hextension := fun h => hwrong (hkind.mpr h)
      refine yields_pure ⟨?_, Nat.le_of_not_lt hbytes⟩
      simp only [failure?, hfile, hbytes, List.findSome?_cons, List.findSome?_nil, Option.bind_some,
        if_false, if_neg hextension]

theorem readSource_settles (hcontents : system.contents location = .ok bytes) :
    (readSource system path location).Yields
      (Settles (failure? preferences system path) [isText]
        fun source => String.fromUTF8? bytes = some source) := by
  unfold readSource
  have hread : system.host.readText location = textOf bytes := by
    simp only [Host.readText, FileSystem.host, hcontents]
  rw [hread, textOf]
  cases hsource : String.fromUTF8? bytes with
  | none =>
    refine .after _ fun _ => yields_pure ?_
    simp [Settles, failure?, hfile, hsource, LoadError.ofSystem]
  | some source =>
    refine .after _ fun _ => yields_pure ?_
    simp [Settles, failure?, hfile, hsource]

theorem checkLines_settles {source : String} (hsource : String.fromUTF8? bytes = some source) :
    (checkLines path (.ofFile location bytes.size) source).Yields
      (Settles (failure? preferences system path) [linesWithin] fun loaded => loaded =
        ⟨source,
          { FileMetadata.ofFile location bytes.size with lineCount := (lines source).length }⟩) := by
  unfold checkLines
  rw [countLines_eq_length_lines]
  by_cases hlines : (lines source).length ≤ Limits.lineCount
  · have hfew : ¬Limits.lineCount < (lines source).length := Nat.not_lt_of_le hlines
    simp only [FileMetadata.isWithinLines, hlines, decide_true, if_true]
    refine yields_pure ?_
    simp [Settles, failure?, hfile, hsource, hfew]
  · have hmany : Limits.lineCount < (lines source).length := Nat.lt_of_not_le hlines
    simp only [FileMetadata.isWithinLines, hlines, decide_false, Bool.false_eq_true, if_false]
    refine .after _ fun _ => yields_pure ?_
    simp [Settles, failure?, hfile, hsource, hmany]

omit hfile

/-- What is handed on of a file that has passed. -/
def IsLoaded (system : FileSystem) (path : String) (loaded : Loaded) : Prop :=
  ∃ location bytes, file? system path = some (location, bytes) ∧ bytes.size ≤ Limits.fileSize ∧
    String.fromUTF8? bytes = some loaded.source ∧
    loaded.metadata =
      { FileMetadata.ofFile location bytes.size with lineCount := (lines loaded.source).length }

theorem load_settles (elapsed : Nat) : (load preferences system elapsed path).Yields
    (Settles (failure? preferences system path) all (IsLoaded system path)) := by
  unfold load
  -- Every stage settles the next checks; those before it have passed when it is reached.
  refine .after _ fun _ => (locate_settles preferences system path).bind fun located hlocated => ?_
  cases located with
  | error e => exact yields_pure (settles_error hlocated _)
  | ok location =>
    obtain ⟨hpath, hway, bytes, hfile⟩ := hlocated
    have hcontents := contents_of_file hfile hway
    refine (collectMetadata_result system hcontents).bind fun collected hcollected => ?_
    obtain rfl := hcollected
    refine (checkMetadata_settles preferences hfile).bind fun checked hchecked => ?_
    cases checked with
    | error e => exact yields_pure (.after hpath (settles_error hchecked [isText, linesWithin]))
    | ok u =>
      obtain ⟨hmetadata, hsize⟩ := hchecked
      refine (readSource_settles preferences hfile hcontents).bind fun read hread => ?_
      cases read with
      | error e =>
        exact yields_pure (.after hpath (.after hmetadata (settles_error hread [linesWithin])))
      | ok source =>
        obtain ⟨htext, hsource⟩ := hread
        refine (checkLines_settles preferences hfile hsource).bind fun lined hlined => ?_
        cases lined with
        | error e => exact yields_pure (.after hpath (.after hmetadata (.after htext hlined)))
        | ok loaded =>
          obtain ⟨hlines, rfl⟩ := hlined
          have hloaded : IsLoaded system path ⟨source,
              { FileMetadata.ofFile location bytes.size with lineCount := (lines source).length }⟩ :=
            ⟨location, bytes, hfile, hsize, hsource, rfl⟩
          exact .after _ fun _ =>
            yields_pure (.after hpath (.after hmetadata (.after htext ⟨hlines, hloaded⟩)))

end Loading

end LoadCheck

/-- What comes of a file that passes: what comes of its text, with the metadata added. They count the
bytes and the lines. -/
def FileRoute (p : Preferences) (system : FileSystem) (elapsed : Nat) (path : String)
    (r : Except Fault (Except Failure Analysis)) : Prop :=
  ∃ location bytes source found metadata, LoadCheck.file? system path = some (location, bytes) ∧
    String.fromUTF8? bytes = some source ∧
    (∀ j : Journal, ((analyseSource p elapsed source).run j).1 = .ok (.ok found)) ∧
    r = .ok (.ok { found with file := some metadata }) ∧
    metadata.size = bytes.size ∧
    metadata.lineCount = source.toList.count '\n' +
      if source.toList = [] ∨ source.toList.getLast? = some '\n' then 0 else 1

open LoadCheck in
theorem analyseFile_settles (p : Preferences) (system : FileSystem) (elapsed : Nat) (path : String) :
    (analyseFile p system elapsed path).Yields fun r =>
      (∃ e, firstFailure? all p.loading system path = some e ∧ r = .ok (.error (.loading e))) ∨
      (firstFailure? all p.loading system path = none ∧ FileRoute p system elapsed path r) := by
  refine withFile_yields _ (.after _ fun _ => ?_)
  refine (load_settles p.loading elapsed).bind fun r hr => ?_
  cases r with
  | error e => exact yields_pure (.inl ⟨e, hr, rfl⟩)
  | ok loaded =>
    obtain ⟨hnone, location, bytes, hfile, hsize, hsource, hmetadata⟩ := hr
    have hfits : loaded.source.length + 1 < lineBound := by
      have hlength := length_le_utf8ByteSize loaded.source
      have hbytes := utf8ByteSize_of_fromUTF8? hsource
      have hbound := fileSize_lt_lineBound
      omega
    obtain ⟨ts, htokens⟩ := tokenize_succeeds hfits
    obtain ⟨parsed, hparsed⟩ := parse_succeeds ts
    have hinline := analyse_result p elapsed inlineName htokens hparsed
    have hcount := length_lines loaded.source
    intro j
    have hfound := analyse_result p elapsed path htokens hparsed j
    refine .inr ⟨hnone, location, bytes, loaded.source, _, loaded.metadata, hfile, hsource, hinline,
      ?_, ?_, ?_⟩
    · rw [bind_result, hfound]
      rfl
    · rw [hmetadata]
      rfl
    · rw [hmetadata, ← hcount]

namespace LoadCheck

/-- The check of the way fails only where a location on it has too long a path. -/
theorem firstFailure?_of_wayFits (preferences : LoadingPreferences) {system : FileSystem}
    {path : String} (hway : system.WayFits path) :
    firstFailure? all preferences system path = firstFailure? usual preferences system path := by
  have hresolved : failure? preferences system path .resolved = none := by
    cases hfile : file? system path <;> simp [failure?, hfile, hway]
  simp [firstFailure?, all, usual, List.findSome?_cons, hresolved]

/-- The first of some checks that fails decides what comes of a file; if none does, a run over its
text. -/
def Decide (checks : List LoadCheck) (p : Preferences) (system : FileSystem) (elapsed : Nat)
    (path : String) (r : Except Fault (Except Failure Analysis)) : Prop :=
  match firstFailure? checks p.loading system path with
  | some e => r = .ok (.error (.loading e))
  | none => FileRoute p system elapsed path r

end LoadCheck

/-- A run over a file is decided by the checks in their order. Where the system can look up every
location on the way to the file, the usual checks decide. -/
theorem analyseFile_follows_checks (p : Preferences) (system : FileSystem) (elapsed : Nat)
    (path : String) (j : Journal) :
    LoadCheck.Decide LoadCheck.all p system elapsed path
      ((analyseFile p system elapsed path).run j).1 ∧
    (system.WayFits path →
      LoadCheck.Decide LoadCheck.usual p system elapsed path
        ((analyseFile p system elapsed path).run j).1) := by
  have hdecided : LoadCheck.Decide LoadCheck.all p system elapsed path
      ((analyseFile p system elapsed path).run j).1 := by
    unfold LoadCheck.Decide
    rcases analyseFile_settles p system elapsed path j with ⟨e, hfailure, hr⟩ | ⟨hnone, hroute⟩
    · rw [hfailure]
      exact hr
    · rw [hnone]
      exact hroute
  refine ⟨hdecided, fun hway => ?_⟩
  unfold LoadCheck.Decide at hdecided ⊢
  rwa [← LoadCheck.firstFailure?_of_wayFits p.loading hway]

theorem analyseFile_follows_checks_semicolon :
    let p : Preferences :=
      ⟨⟨false, false⟩, ⟨true, false⟩, ⟨false, false⟩, ⟨false, true, .info, true⟩⟩
    let system : FileSystem := ⟨[""], [(["", "a"], .file ";".toByteArray)]⟩
    system.WayFits "a" ∧
      LoadCheck.firstFailure? LoadCheck.usual p.loading system "a" = none ∧
      FileRoute p system 0 "a" ((analyseFile p system 0 "a").run (.empty true)).1 := by
  intro p system
  have hway : system.WayFits "a" := FileSystem.isName_a.wayFits (by decide +kernel)
  have hresolve : system.resolve "a" = .ok (["", "a"], .file ";".toByteArray) :=
    FileSystem.isName_a.resolve rfl
  have hpath : Text.isBlankText "a" = false := by decide +kernel
  have htext : String.fromUTF8? ";".toByteArray = some ";" := by decide +kernel
  have hlines : ¬Limits.lineCount < (lines ";").length := by decide +kernel
  have hsize : ";".utf8ByteSize ≤ Limits.fileSize := by decide +kernel
  have hnone : LoadCheck.firstFailure? LoadCheck.usual p.loading system "a" = none := by
    simp [LoadCheck.firstFailure?, LoadCheck.usual, LoadCheck.failure?, LoadCheck.file?, hresolve,
      hpath, htext, hlines, hsize, p]
  have hdecided := (analyseFile_follows_checks p system 0 "a" (.empty true)).2 hway
  unfold LoadCheck.Decide at hdecided
  rw [hnone] at hdecided
  exact ⟨hway, hnone, hdecided⟩

end YupFront
