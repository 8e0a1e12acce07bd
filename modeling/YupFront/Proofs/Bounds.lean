import YupFront.CommandLine.Run
import YupFront.Proofs.Excerpts

/-! Numbers that fit. A source that is short enough, as every file is that is loaded, is lexed,
parsed and shown without a sum that is too large, a negative difference or a span the wrong way round. -/

namespace YupFront

section Steps

variable {source before text behind : List Char}

/-- Every step that the lexer can take over a part of the source. -/
structure StepsFit (before text : List Char) : Prop where
  reaches : Position.start.advanceBy before = .ok (Position.start.after before)
  covers : Span.covering (Position.start.after before) text =
    .ok ⟨Position.start.after before, Position.start.after (before ++ text)⟩
  measures : ∃ bytes,
    (Span.mk (Position.start.after before) (Position.start.after (before ++ text))).length =
      .ok bytes
  counts : addOffset before.length text.length = .ok (before.length + text.length)
  makes : ∀ kind span, Token.make kind (String.ofList text) before.length span =
    .ok ⟨kind, String.ofList text, before.length, before.length + (text.length - 1), span⟩

theorem stepsFit (h : source.length + 1 < lineBound)
    (hsource : source = before ++ (text ++ behind)) : StepsFit before text := by
  have hlength : source.length = before.length + (text.length + behind.length) := by
    rw [hsource, List.length_append, List.length_append]
  have hbound := four_mul_lineBound_le
  have hbefore : 0 + before.length + 1 < lineBound := by omega
  obtain ⟨q, hq, hwithin, -⟩ := Position.start_within.advanceBy hbefore
  obtain rfl := Position.eq_after_of_advanceBy hq
  have htext : 0 + before.length + text.length + 1 < lineBound := by omega
  obtain ⟨hcovers, -, hle⟩ := hwithin.covering htext
  rw [← Position.after_append] at hcovers hle
  refine ⟨hq, hcovers, ⟨_, subtract_eq_ok hle⟩, addOffset_eq_ok (by omega), fun kind span => ?_⟩
  have hlast : before.length + (text.length - 1) < offsetBound := by omega
  simp only [Token.make, String.length_ofList, addOffset_eq_ok hlast]

end Steps

/-! The bound cannot be raised: on one line, what is lexed leaves a column that fits. -/

theorem fits_of_advanceBy {p q : Position} {cs : List Char} (hp : p.Fits)
    (h : p.advanceBy cs = .ok q) : q.Fits := by
  induction cs generalizing p with
  | nil =>
    cases h
    exact hp
  | cons c cs ih =>
    rw [Position.advanceBy, Position.advance] at h
    by_cases hfits : (p.next c).Fits
    · rw [if_pos hfits] at h
      exact ih hfits h
    · rw [if_neg hfits] at h
      cases h

theorem fits_of_covering {p : Position} {span : Span} {cs : List Char} (hp : p.Fits)
    (h : Span.covering p cs = .ok span) : span.finish.Fits := by
  unfold Span.covering at h
  split at h
  · next q hq =>
    have hfits := fits_of_advanceBy hp hq
    rw [Span.between] at h
    split at h <;> cases h
    exact hfits
  · cases h

/-- The position behind the last chunk has been computed, too. -/
theorem fits_of_placeAll {done ts : List Token} {index : Nat} {p : Position} {chunks : List Chunk}
    (hp : p.Fits) (h : placeAll done index p chunks = .ok ts) :
    (p.after (chunks.flatMap Chunk.text)).Fits := by
  induction chunks generalizing done index p with
  | nil => exact hp
  | cons chunk rest ih =>
    obtain ⟨hspan, hrest⟩ := placeAll_cons h
    have hnext := fits_of_covering hp hspan
    rw [List.flatMap_cons, Position.after_append]
    exact ih hnext hrest

/-- A text of one line has tokens exactly if the column behind it fits. -/
theorem tokenize_one_line_iff {source : String} (h : '\n' ∉ source.toList) :
    (∃ ts, tokenize source = .ok ts) ↔ source.length + 1 < lineBound := by
  constructor
  · rintro ⟨ts, hts⟩
    have hfits := fits_of_placeAll (by decide) hts
    rw [Chunk.flatMap_text_ofText] at hfits
    have hcolumn := (Position.after_of_no_newline h Position.start).2
    have hlength : source.toList.length = source.length := String.length_toList
    have hstart : Position.start.column = 1 := rfl
    have hlt := hfits.2.2
    omega
  · exact tokenize_succeeds

/-! What computations that log return, with any journal. -/

def Logging.Yields (m : Logging α) (P : α → Prop) : Prop := ∀ j, P (m.run j).1

section Yields

variable {α β : Type} {P : α → Prop} {Q : β → Prop} {m : Logging α} {f : α → Logging β}

theorem yields_pure {a : α} (h : P a) : Logging.Yields (pure a) P := fun _ => h

theorem yields_any (m : Logging α) : m.Yields fun _ => True := fun _ => trivial

theorem Logging.Yields.bind (hm : m.Yields P) (hf : ∀ a, P a → (f a).Yields Q) :
    Logging.Yields (m >>= f) Q := by
  intro j
  rw [bind_result]
  exact hf _ (hm j) _

theorem Logging.Yields.after (m : Logging α) (hf : ∀ a, (f a).Yields Q) :
    Logging.Yields (m >>= f) Q :=
  (yields_any m).bind fun a _ => hf a

end Yields

/-! Loading. -/

theorem length_le_utf8ByteSize_ofList (cs : List Char) :
    cs.length ≤ (String.ofList cs).utf8ByteSize := by
  induction cs with
  | nil => simp
  | cons c cs ih =>
    have hpos := c.utf8Size_pos
    have hsingle : (String.ofList [c]).utf8ByteSize = c.utf8Size := String.utf8ByteSize_singleton
    rw [← List.singleton_append, String.ofList_append, String.utf8ByteSize_append, hsingle,
      List.singleton_append, List.length_cons]
    omega

theorem length_le_utf8ByteSize (s : String) : s.length ≤ s.utf8ByteSize := by
  have h := length_le_utf8ByteSize_ofList s.toList
  rwa [String.ofList_toList, String.length_toList] at h

theorem utf8ByteSize_of_fromUTF8? {bytes : ByteArray} {s : String}
    (h : String.fromUTF8? bytes = some s) : s.utf8ByteSize = bytes.size := by
  unfold String.fromUTF8? at h
  split at h <;> cases h
  rfl

theorem fromUTF8?_of_textOf {bytes : ByteArray} {s : String} (h : textOf bytes = .ok s) :
    String.fromUTF8? bytes = some s := by
  unfold textOf at h
  split at h
  · next hs => rw [hs, Except.ok.inj h]
  · cases h

section Loading

variable (preferences : LoadingPreferences) (host : Host) (path : String) (location : Location)

theorem deny_yields {α : Type} {P : Except LoadError α → Prop} (h : ∀ e, P (.error e))
    (e : SystemError) (path action logged : String) (name : String × String) :
    (deny e path action logged name).Yields P :=
  .after _ fun _ => yields_pure (h _)

theorem collectMetadata_yields : (collectMetadata host location).Yields fun r => ∀ m, r = .ok m →
    host.size location = .ok m.size := by
  unfold collectMetadata
  cases hsize : host.size location with
  | error e => exact deny_yields (fun _ => nofun) e _ _ _ _
  | ok size =>
    refine .after _ fun _ => yields_pure fun m hm => ?_
    cases hm
    rfl

theorem checkMetadata_yields (m : FileMetadata) :
    (checkMetadata preferences path m).Yields fun r => r = .ok () → m.size ≤ Limits.fileSize := by
  unfold checkMetadata
  by_cases hsize : Limits.fileSize < m.size
  · rw [if_pos hsize]
    exact .after _ fun _ => yields_pure nofun
  · have hle : m.size ≤ Limits.fileSize := by omega
    exact fun _ _ => hle

theorem readSource_yields : (readSource host path location).Yields fun r => ∀ source,
    r = .ok source → host.readText location = .ok source := by
  unfold readSource
  cases host.readText location with
  | error e => exact deny_yields (fun _ => nofun) e _ _ _ _
  | ok source =>
    refine .after _ fun _ => yields_pure fun found hfound => ?_
    cases hfound
    rfl

theorem checkLines_yields (m : FileMetadata) (source : String) :
    (checkLines path m source).Yields fun r => ∀ loaded, r = .ok loaded →
      loaded.source = source := by
  unfold checkLines
  by_cases hlines : { m with lineCount := countLines source : FileMetadata }.isWithinLines = true
  · simp only [hlines, if_true]
    refine yields_pure fun loaded hloaded => ?_
    cases hloaded
    rfl
  · simp only [hlines]
    exact .after _ fun _ => yields_pure nofun

/-- What is loaded has been read from a location of which the host has told a size within the limit. -/
theorem load_yields (elapsed : Nat) :
    (load preferences host elapsed path).Yields fun r => ∀ loaded, r = .ok loaded →
      ∃ location size, host.size location = .ok size ∧ size ≤ Limits.fileSize ∧
        host.readText location = .ok loaded.source := by
  unfold load
  refine .after _ fun _ => .after _ fun located => ?_
  cases located with
  | error e => exact yields_pure nofun
  | ok location =>
    refine (collectMetadata_yields host location).bind fun collected hcollected => ?_
    cases collected with
    | error e => exact yields_pure nofun
    | ok m =>
      have hsize := hcollected m rfl
      refine (checkMetadata_yields preferences path m).bind fun checked hchecked => ?_
      cases checked with
      | error e => exact yields_pure nofun
      | ok u =>
        refine (readSource_yields host path location).bind fun read hread => ?_
        cases read with
        | error e => exact yields_pure nofun
        | ok source =>
          refine (checkLines_yields path m source).bind fun lined hlined => ?_
          cases lined with
          | error e => exact yields_pure nofun
          | ok loaded =>
            refine .after _ fun _ => yields_pure fun found hfound => ?_
            cases hfound
            rw [hlined loaded rfl]
            exact ⟨location, m.size, hsize, hchecked rfl, hread source rfl⟩

variable {host}

theorem length_le_of_sized (hsized : host.Sized) {size : Nat} {source : String}
    (hsize : host.size location = .ok size) (hread : host.readText location = .ok source) :
    source.length ≤ size := by
  unfold Host.readText at hread
  cases hbytes : host.read location with
  | error e => simp [hbytes] at hread
  | ok bytes =>
    simp only [hbytes] at hread
    have htold := hsized location size bytes hsize hbytes
    have hencoded := utf8ByteSize_of_fromUTF8? (fromUTF8?_of_textOf hread)
    have hchars := length_le_utf8ByteSize source
    omega

theorem load_fits (hsized : host.Sized) (elapsed : Nat) :
    (load preferences host elapsed path).Yields fun r => ∀ loaded, r = .ok loaded →
      loaded.source.length ≤ Limits.fileSize := by
  intro j loaded hloaded
  obtain ⟨location, size, hsize, hle, hread⟩ := load_yields preferences host path elapsed j loaded hloaded
  exact Nat.le_trans (length_le_of_sized location hsized hsize hread) hle

end Loading

/-- A file that is found and passes is loaded. -/
theorem load_result (preferences : LoadingPreferences) (elapsed : Nat) {system : FileSystem}
    {path source : String} {location : Location} {bytes : ByteArray}
    (hpath : Text.isBlankText path = false)
    (hfile : system.resolve path = .ok (location, .file bytes)) (hway : system.WayFits path)
    (hsize : bytes.size ≤ Limits.fileSize)
    (hextension : preferences.requireExtension = true →
      (FileMetadata.ofFile location bytes.size).isSource = true)
    (htext : String.fromUTF8? bytes = some source) (hlines : countLines source ≤ Limits.lineCount)
    (j : Journal) : ((load preferences system elapsed path).run j).1 =
      .ok ⟨source,
        { FileMetadata.ofFile location bytes.size with lineCount := countLines source }⟩ := by
  let m := FileMetadata.ofFile location bytes.size
  have hcontents : system.contents location = .ok bytes := FileSystem.contents_eq_ok hfile hway
  have hlocate : locate system path = pure (.ok location) := by
    have hcanonical : system.host.canonical path = .ok location :=
      FileSystem.canonical_eq_ok hfile hway
    simp only [locate, hpath, FileSystem.host, hfile, Bool.false_eq_true, if_false] at hcanonical ⊢
    simp [hcanonical, Except.isOk, Except.toBool]
  have hcollect : ∃ e, collectMetadata system location = log e >>= fun _ => pure (.ok m) := by
    simp only [collectMetadata, FileSystem.host, hcontents]
    exact ⟨_, rfl⟩
  have hcheck : checkMetadata preferences path m = pure (.ok ()) := by
    have hsmall : ¬ Limits.fileSize < m.size := Nat.not_lt_of_le hsize
    have hkind : ¬ (preferences.requireExtension && !m.isSource) = true := by
      simpa using hextension
    rw [checkMetadata, if_neg hsmall, if_neg hkind]
  have hread : ∃ e, readSource system path location = log e >>= fun _ => pure (.ok source) := by
    simp only [readSource, Host.readText, FileSystem.host, hcontents, textOf, htext]
    exact ⟨_, rfl⟩
  have hcount : checkLines path m source =
      pure (.ok ⟨source, { m with lineCount := countLines source }⟩) := by
    rw [checkLines, if_pos]
    simpa [FileMetadata.isWithinLines] using hlines
  obtain ⟨collected, hcollect⟩ := hcollect
  obtain ⟨read, hread⟩ := hread
  simp only [load, hlocate, hcollect, hcheck, hread, hcount, pure_bind, bind_assoc]
  rfl

theorem fileSize_lt_lineBound : Limits.fileSize + 1 < lineBound := by decide

/-! A run and what is shown of it. -/

/-- Everything can be shown, whatever is asked for. -/
def Analysis.IsShown (found : Analysis) : Prop :=
  (∃ excerpts, found.explain = .ok excerpts) ∧
    ∀ a, ∃ text, CommandLine.renderAnalysis a found = .ok text

theorem Analysis.isShown_of_explain {found : Analysis} {excerpts : String}
    (h : found.explain = .ok excerpts) : found.IsShown := by
  refine ⟨⟨excerpts, h⟩, fun a => ?_⟩
  unfold CommandLine.renderAnalysis
  by_cases hjson : a.has .json = true
  · exact ⟨_, if_pos hjson⟩
  · rw [if_neg hjson]
    simp only [h]
    split <;> exact ⟨_, rfl⟩

theorem isShown_found (p : Preferences) (elapsed : Nat) {source : String} {ts : List Token}
    {parsed : Parsed} (htokens : tokenize source = .ok ts) (hparsed : parse ts = .ok parsed) :
    (Analysis.found p elapsed source ts parsed).IsShown := by
  obtain ⟨excerpts, hmap, -⟩ :=
    exists_excerpts (.ofLegacy p.parsing.legacyPositions) htokens hparsed
  have hexplain : (Analysis.found p elapsed source ts parsed).explain =
      .ok (String.intercalate "\n" excerpts) := by
    simp only [Analysis.explain, Analysis.found] at hmap ⊢
    rw [hmap]
  exact Analysis.isShown_of_explain hexplain

theorem excerpt_of_token {source : String} {ts : List Token} (h : tokenize source = .ok ts)
    {t : Token} (ht : t ∈ ts) (message : String) :
    ∃ excerpt, (LineIndex.ofText source).excerpt t.span message = .ok excerpt := by
  let d : Diagnostic := ⟨0, 0, message, .unexpectedToken, t.span⟩
  have hspan : d.span = t.span := rfl
  obtain ⟨excerpt, line, -, -, -, hexcerpt, -⟩ :=
    exists_pointsAt (tokenize_lexeme h t ht) (tokenize_standsIn h t ht) hspan
  exact ⟨excerpt, hexcerpt⟩

def AllShown (r : Except Fault (Except Failure Analysis)) : Prop :=
  ∃ result, r = .ok result ∧ ∀ found, result = .ok found → found.IsShown

theorem analyse_yields (p : Preferences) (elapsed : Nat) (name : String) {source : String}
    (h : source.length + 1 < lineBound) : (analyse p elapsed name source).Yields fun r =>
      ∃ found, r = .ok (.ok found) ∧ found.IsShown := by
  intro j
  obtain ⟨ts, htokens⟩ := tokenize_succeeds h
  obtain ⟨parsed, hparsed⟩ := parse_succeeds ts
  have hshown := isShown_found p elapsed htokens hparsed
  exact ⟨_, analyse_result p elapsed name htokens hparsed j, hshown⟩

theorem withFile_yields {α : Type} {P : α → Prop} {body : Logging α} (file : FileContext)
    (h : body.Yields P) : (withFile file body).Yields P :=
  fun _ => h _

theorem analyseFile_yields (p : Preferences) {host : Host} (hsized : host.Sized) (elapsed : Nat)
    (path : String) : (analyseFile p host elapsed path).Yields AllShown := by
  refine withFile_yields _ (.after _ fun _ => ?_)
  refine (load_fits p.loading path hsized elapsed).bind fun r hr => ?_
  cases r with
  | error e => exact yields_pure ⟨_, rfl, nofun⟩
  | ok loaded =>
    have hlength := hr loaded rfl
    have hbound := fileSize_lt_lineBound
    refine (analyse_yields p elapsed path (by omega)).bind fun r hr => ?_
    obtain ⟨found, rfl, hshown⟩ := hr
    refine yields_pure ⟨_, rfl, fun withMetadata hfound => ?_⟩
    cases hfound
    -- The metadata that is added has no part in what is explained.
    obtain ⟨excerpts, hexplain⟩ := hshown.1
    exact @Analysis.isShown_of_explain _ excerpts hexplain

/-! The whole program. -/

section Program

open CommandLine

def Runs (r : Except Fault α) : Prop := ∃ result, r = .ok result

theorem lex_yields (preferences : LexingPreferences) (elapsed : Nat) {source : String}
    (h : source.length + 1 < lineBound) : (lex preferences elapsed source).Yields Runs := by
  intro j
  obtain ⟨ts, htokens⟩ := tokenize_succeeds h
  rw [lex_result, Lexed.ofText, htokens]
  exact ⟨_, rfl⟩

theorem checkTokenizing_yields (preferences : LexingPreferences) (elapsed : Nat) :
    (Startup.checkTokenizing preferences elapsed).Yields Runs := by
  have hsample : Startup.sample.length + 1 < lineBound := by decide +kernel
  unfold Startup.checkTokenizing
  cases Startup.checkThresholds with
  | error e => exact yields_pure ⟨_, rfl⟩
  | ok u =>
    refine (lex_yields preferences elapsed hsample).bind fun r hr => ?_
    obtain ⟨lexed, rfl⟩ := hr
    simp only
    cases checkOrder lexed.tokens with
    | error e => exact yields_pure ⟨_, rfl⟩
    | ok u => exact yields_pure ⟨_, rfl⟩

theorem checkPipeline_yields (preferences : LexingPreferences) (elapsed : Nat) :
    (Startup.checkPipeline preferences elapsed).Yields Runs := by
  unfold Startup.checkPipeline
  refine .after _ fun _ => .after _ fun loading => ?_
  cases loading with
  | error e => exact yields_pure ⟨_, rfl⟩
  | ok u =>
    refine .after _ fun lexing => ?_
    cases lexing with
    | error e => exact yields_pure ⟨_, rfl⟩
    | ok u =>
      refine (checkTokenizing_yields preferences elapsed).bind fun r hr => ?_
      obtain ⟨checked, rfl⟩ := hr
      cases checked with
      | error e => exact yields_pure ⟨_, rfl⟩
      | ok u =>
        simp only
        cases Startup.checkParsing with
        | error e => exact yields_pure ⟨_, rfl⟩
        | ok u =>
          simp only
          cases Startup.requireCodes "Pipeline code" Startup.pipelineCodes with
          | error e => exact yields_pure ⟨_, rfl⟩
          | ok u => exact .after _ fun _ => yields_pure ⟨_, rfl⟩

variable {w : World}

/-- What is read from the standard input is not too long. -/
def World.InputFits (w : World) : Prop :=
  ∀ source, String.fromUTF8? w.standardInput = some source → source.length + 1 < lineBound

theorem analyseInput_yields (h : w.InputFits) (a : Arguments) (p : Preferences) :
    (analyseInput w a p).Yields AllShown := by
  unfold analyseInput
  cases a.source with
  | file path => exact analyseFile_yields p w.files.sized_host w.elapsed path
  | standard =>
    simp only
    cases hinput : String.fromUTF8? w.standardInput with
    | none => exact yields_pure ⟨_, rfl, nofun⟩
    | some source =>
      intro j
      obtain ⟨found, hfound, hshown⟩ := analyse_yields p w.elapsed inlineName (h source hinput) j
      refine ⟨_, hfound, fun other hother => ?_⟩
      cases hother
      exact hshown

/-- The status of a program that has not broken down. -/
def Printed (r : Except Fault (String × Nat)) : Prop :=
  ∃ text status, r = .ok (text, status) ∧ status ≤ 1

theorem finish_yields (a : Arguments) {result : Except Failure Analysis}
    (h : ∀ found, result = .ok found → found.IsShown) : (finish a result).Yields Printed := by
  cases result with
  | error e => exact .after _ fun _ => yields_pure ⟨_, _, rfl, Nat.le_refl _⟩
  | ok found =>
    obtain ⟨text, htext⟩ := (h found rfl).2 a
    simp only [finish, htext]
    refine yields_pure ⟨_, _, rfl, ?_⟩
    split <;> decide

theorem process_yields {α : Type} {P : α → Prop} {body : Gate → Logging (α × Gate)}
    (h : ∀ inside, (body inside).Yields fun r => P r.1) (g : Gate) :
    (g.process body).Yields fun r => ∀ a, r.1 = some a → P a := by
  unfold Gate.process
  cases g.enter? with
  | none => exact .after _ fun _ => yields_pure nofun
  | some inside =>
    refine (h inside).bind fun r hr => yields_pure fun a ha => ?_
    cases ha
    exact hr

def Ended (r : Except Fault (Except String (String × Nat))) : Prop :=
  ∃ result, r = .ok result ∧ ∀ printed, result = .ok printed → printed.2 ≤ 1

theorem start_yields (h : w.InputFits) (a : Arguments) (p : Preferences) :
    (start w a p).Yields Ended := by
  unfold start
  refine .after _ fun opened => ?_
  cases opened with
  | error e => exact yields_pure ⟨_, rfl, nofun⟩
  | ok u =>
    refine (checkPipeline_yields _ _).bind fun r hr => ?_
    obtain ⟨checked, rfl⟩ := hr
    cases checked with
    | error e => exact yields_pure ⟨_, rfl, nofun⟩
    | ok u =>
      refine (process_yields (P := Printed) (fun inside => ?_) Gate.new).bind fun r hr => ?_
      · refine (analyseInput_yields h a p).bind fun r hr => ?_
        obtain ⟨result, rfl, hshown⟩ := hr
        exact (finish_yields a hshown).bind fun printed hprinted => yields_pure hprinted
      obtain ⟨result, g⟩ := r
      cases result with
      | none => exact yields_pure ⟨_, rfl, fun printed hprinted => by cases hprinted; decide⟩
      | some printed =>
        obtain ⟨text, status, rfl, hstatus⟩ := hr printed rfl
        refine yields_pure ⟨_, rfl, fun other hother => ?_⟩
        cases hother
        exact hstatus

/-- Status 101 is that of a program that has broken down. -/
theorem run_status_le (h : w.InputFits) (arguments : List String) :
    (run w arguments).status ≤ 2 := by
  unfold run
  cases Request.ofArguments arguments with
  | version => exact Nat.zero_le _
  | help => exact Nat.zero_le _
  | unreadable => exact Nat.le_refl _
  | run a =>
    simp only
    cases preferences w a with
    | error e => exact Nat.le_succ _
    | ok p =>
      obtain ⟨result, hresult, hstatus⟩ := start_yields h a p (.empty p.logging.marksFile)
      rcases hrun : (start w a p).run (.empty p.logging.marksFile) with ⟨r, journal⟩
      rw [hrun] at hresult
      obtain rfl : r = .ok result := hresult
      simp only [hrun]
      cases result with
      | error e => exact Nat.le_succ _
      | ok printed => exact Nat.le_succ_of_le (hstatus printed rfl)

end Program

/-- A source that is not longer than the column behind it fits is lexed, parsed and shown without a
fault, with any preferences and any arguments, and no step of the lexer over any part of it is a
fault. Every file that is loaded is short enough. So the program breaks down on no file, and on the
standard input only if that is too long. -/
theorem no_fault_within_bounds :
    (∀ source : String, source.length + 1 < lineBound →
      (∀ before text behind, source.toList = before ++ (text ++ behind) → StepsFit before text) ∧
      ∀ (p : Preferences) (elapsed : Nat) (j : Journal),
        ∃ found, ((analyseSource p elapsed source).run j).1 = .ok (.ok found) ∧ found.IsShown ∧
          ∀ t ∈ found.tokens, (∃ bytes, t.span.length = .ok bytes) ∧
            ∀ message, ∃ excerpt, (LineIndex.ofText source).excerpt t.span message = .ok excerpt) ∧
    (∀ (p : Preferences) (system : FileSystem) (elapsed : Nat) (path : String) (j : Journal),
      (∀ loaded, ((load p.loading system elapsed path).run j).1 = .ok loaded →
        loaded.source.length ≤ Limits.fileSize ∧ loaded.source.length + 1 < lineBound) ∧
      ∃ result, ((analyseFile p system elapsed path).run j).1 = .ok result ∧
        ∀ found, result = .ok found → found.IsShown) ∧
    (∀ (w : World) (arguments : List String), w.InputFits →
      (CommandLine.run w arguments).status ≤ 2) := by
  refine ⟨fun source h => ?_, fun p system elapsed path j => ⟨fun loaded hloaded => ?_, ?_⟩,
    fun w arguments h => ?_⟩
  · have hlength : source.toList.length + 1 < lineBound := by rwa [String.length_toList]
    refine ⟨fun before text behind hsource => stepsFit hlength hsource, fun p elapsed j => ?_⟩
    obtain ⟨ts, htokens⟩ := tokenize_succeeds h
    obtain ⟨parsed, hparsed⟩ := parse_succeeds ts
    refine ⟨_, analyse_result p elapsed inlineName htokens hparsed j,
      isShown_found p elapsed htokens hparsed, fun t ht => ⟨?_, fun message => ?_⟩⟩
    · obtain ⟨before, behind, hsource, hspan⟩ := tokenize_standsIn htokens t ht
      rw [hspan]
      exact (stepsFit hlength hsource).measures
    · exact excerpt_of_token htokens ht message
  · have hlength := load_fits p.loading path system.sized_host elapsed j loaded hloaded
    have hbound := fileSize_lt_lineBound
    exact ⟨hlength, by omega⟩
  · exact analyseFile_yields p system.sized_host elapsed path j
  · exact run_status_le h arguments

theorem no_fault_within_bounds_semicolon :
    let p : Preferences :=
      ⟨⟨false, false⟩, ⟨true, false⟩, ⟨false, false⟩, ⟨false, true, .info, true⟩⟩
    let system : FileSystem := ⟨[""], [(["", "a"], .file ";".toByteArray)]⟩
    let w : World := ⟨[], system, ";".toByteArray, 0, 0⟩
    ";".length + 1 < lineBound ∧ ";".toList = [] ++ ([';'] ++ []) ∧ StepsFit [] [';'] ∧
      (∃ found, ((analyseSource p 0 ";").run (.empty true)).1 = .ok (.ok found) ∧ found.IsShown) ∧
      (∃ loaded, ((load p.loading system 0 "a").run (.empty true)).1 = .ok loaded ∧
        loaded.source.length ≤ Limits.fileSize) ∧
      w.InputFits ∧ (CommandLine.run w ["--stdin"]).status ≤ 2 := by
  intro p system w
  obtain ⟨hsource, hfile, hprogram⟩ := no_fault_within_bounds
  have hlength : ";".length + 1 < lineBound := by decide +kernel
  obtain ⟨hsteps, hanalyse⟩ := hsource ";" hlength
  obtain ⟨found, hfound, hshown, -⟩ := hanalyse p 0 (.empty true)
  have htext : String.fromUTF8? ";".toByteArray = some ";" := by decide +kernel
  have hpath : Text.isBlankText "a" = false := by decide +kernel
  have hresolve : system.resolve "a" = .ok (["", "a"], .file ";".toByteArray) :=
    FileSystem.isName_a.resolve rfl
  have hway : system.WayFits "a" := FileSystem.isName_a.wayFits (by decide +kernel)
  have hload := load_result p.loading 0 hpath hresolve hway (by decide +kernel) (by decide) htext
    (by decide +kernel) (.empty true)
  have hinput : w.InputFits := by
    intro source h
    cases htext.symm.trans h
    exact hlength
  exact ⟨hlength, rfl, hsteps [] [';'] [] rfl, ⟨found, hfound, hshown⟩,
    ⟨_, hload, ((hfile p system 0 "a" (.empty true)).1 _ hload).1⟩, hinput,
    hprogram w ["--stdin"] hinput⟩

end YupFront
