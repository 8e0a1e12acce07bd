import YupFront.Proofs.FileScope
import YupFront.Proofs.OrderCheck
import YupFront.Proofs.Reporting

/-! The verdict of the program: its status and what it prints. The checks at the start do not fail
and a new gate lets the run in, so the verdict is that of the run. -/

namespace YupFront

open CommandLine Startup

/-! The start. -/

theorem checkTokenizing_passes (preferences : LexingPreferences) (elapsed : Nat) :
    (checkTokenizing preferences elapsed).Yields (· = .ok (.ok ())) := by
  have hthresholds : checkThresholds = .ok () := by rfl
  have hlength : sample.length + 1 < lineBound := by decide +kernel
  obtain ⟨ts, htokens⟩ := tokenize_succeeds hlength
  have hlex : (lex preferences elapsed sample).Yields
      fun r => ∃ lexed, r = .ok lexed ∧ lexed.tokens = ts := by
    intro j
    rw [lex_result, Lexed.ofText, htokens]
    exact ⟨_, rfl, rfl⟩
  unfold checkTokenizing
  rw [hthresholds]
  refine hlex.bind fun r hr => ?_
  obtain ⟨lexed, rfl, rfl⟩ := hr
  simp only [checkOrder_of_tokenize htokens]
  exact yields_pure rfl

theorem checkPipeline_passes (preferences : LexingPreferences) (elapsed : Nat) :
    (checkPipeline preferences elapsed).Yields (· = .ok (.ok ())) := by
  have hloading : checkLoading.Yields (· = .ok ()) := fun _ => rfl
  have hlexing : checkLexing.Yields (· = .ok ()) := fun _ => rfl
  have hparsing : checkParsing = .ok () := by rfl
  have hcodes : requireCodes "Pipeline code" pipelineCodes = .ok () := by rfl
  unfold checkPipeline
  refine .after _ fun _ => hloading.bind fun r hr => ?_
  obtain rfl := hr
  refine hlexing.bind fun r hr => ?_
  obtain rfl := hr
  refine (checkTokenizing_passes preferences elapsed).bind fun r hr => ?_
  obtain rfl := hr
  simp only [hparsing, hcodes]
  exact .after _ fun _ => yields_pure rfl

theorem openLog_passes : (openLog false).Yields (· = .ok ()) := fun _ => rfl

theorem process_new_yields {α : Type} {P : α → Prop} {body : Gate → Logging (α × Gate)}
    (h : ∀ inside, (body inside).Yields fun r => P r.1) :
    (Gate.new.process body).Yields fun r => ∃ a, r.1 = some a ∧ P a := by
  have henter : Gate.new.enter? = some ⟨true⟩ := rfl
  unfold Gate.process
  rw [henter]
  exact (h ⟨true⟩).bind fun r hr => yields_pure ⟨_, rfl, hr⟩

/-! The run. -/

section Run

variable {w : World} {a : Arguments} {p : Preferences} {r : Analysis}

theorem analyseInput_result_eq (w : World) (a : Arguments) (p : Preferences) (j k : Journal) :
    ((analyseInput w a p).run j).1 = ((analyseInput w a p).run k).1 := by
  unfold analyseInput
  cases a.source with
  | file path =>
    obtain ⟨body, hbody, htells⟩ := exists_analyseFile_eq p w.files w.elapsed path
    simp only [hbody, run_withFile]
    exact htells.result_eq _ _
  | standard =>
    cases String.fromUTF8? w.standardInput with
    | none => rfl
    | some source => exact (onlyTells_analyse p w.elapsed inlineName source).result_eq j k

theorem comesOf_of_analyseInput {j : Journal} (h : ((analyseInput w a p).run j).1 = .ok (.ok r)) :
    ∃ parsed, r.ComesOf p parsed := by
  unfold analyseInput at h
  cases hsource : a.source with
  | file path =>
    rw [hsource] at h
    exact comesOf_of_analyseFile h
  | standard =>
    cases hinput : String.fromUTF8? w.standardInput with
    | none =>
      simp only [hsource, hinput] at h
      cases h
    | some source =>
      simp only [hsource, hinput] at h
      exact (comesOf_of_analyse h).2

theorem Analysis.ComesOf.exists_explain {parsed : Parsed} (h : r.ComesOf p parsed) :
    ∃ excerpts, r.explain = .ok excerpts := by
  obtain ⟨excerpts, hmap, -⟩ := exists_excerpts p.mode h.tokens h.parses
  rw [← h.diagnostics] at hmap
  exact ⟨String.intercalate "\n" excerpts, by simp only [explain, hmap]⟩

/-- What the program ends with after a run that has a result. -/
structure Outcome.Shows (a : Arguments) (r : Analysis) (o : Outcome) : Prop where
  status : o.status = if r.diagnostics = [] then 0 else 1
  json : a.has .json = true →
    o.output = (Document.ofAnalysis r).toJson.indented ++ "\n" ∧
    Json.read? o.output = some (Document.ofAnalysis r).toJson
  text : a.has .json = false → ∃ excerpts, r.explain = .ok excerpts ∧
    o.output = (if a.has .tokens then Token.renderAll r.tokens ++ "\n\n" else "") ++
      r.report a.showTree ++ if a.has .explain ∧ r.diagnostics ≠ [] then "\n" ++ excerpts else ""

theorem Analysis.ComesOf.exists_shows {parsed : Parsed} (h : r.ComesOf p parsed) (a : Arguments) :
    ∃ text, renderAnalysis a r = .ok text ∧
      ∀ errors, Outcome.Shows a r ⟨text, errors, if r.isValid then 0 else 1⟩ := by
  obtain ⟨excerpts, hexplain⟩ := h.exists_explain
  have hvalid : r.isValid = true ↔ r.diagnostics = [] := List.isEmpty_iff
  have hexplained : (a.has .explain && !r.isValid) = true ↔
      a.has .explain ∧ r.diagnostics ≠ [] := by
    simp [← hvalid]
  unfold renderAnalysis
  by_cases hjson : a.has .json = true
  · rw [if_pos hjson]
    have hread := (Document.ofAnalysis r).read?_line
    exact ⟨_, rfl, fun errors => ⟨by simp [hvalid], fun _ => ⟨rfl, hread⟩, by simp [hjson]⟩⟩
  · rw [if_neg hjson]
    simp only [hexplain, hexplained]
    by_cases hasked : a.has .explain ∧ r.diagnostics ≠ []
    · rw [if_pos hasked]
      refine ⟨_, rfl, fun errors => ⟨by simp [hvalid], by simp [hjson], fun _ => ⟨_, hexplain, ?_⟩⟩⟩
      rw [if_pos hasked, String.append_assoc]
    · rw [if_neg hasked]
      refine ⟨_, rfl, fun errors => ⟨by simp [hvalid], by simp [hjson], fun _ => ⟨_, hexplain, ?_⟩⟩⟩
      rw [if_neg hasked, String.append_empty]

theorem start_yields_rendered (hrun : (analyseInput w a p).Yields (· = .ok (.ok r))) {text : String}
    (htext : renderAnalysis a r = .ok text) :
    (start w a p).Yields (· = .ok (.ok (text, if r.isValid then 0 else 1))) := by
  have hfinish : (finish a (.ok r)).Yields (· = .ok (text, if r.isValid then 0 else 1)) := by
    simp only [finish, htext]
    exact yields_pure rfl
  unfold start
  refine openLog_passes.bind fun opened hopened => ?_
  obtain rfl := hopened
  refine (checkPipeline_passes _ _).bind fun checked hchecked => ?_
  obtain rfl := hchecked
  refine (process_new_yields (P := (· = .ok (text, if r.isValid then 0 else 1)))
    fun inside => ?_).bind fun result hresult => ?_
  · refine hrun.bind fun result hresult => ?_
    obtain rfl := hresult
    exact hfinish.bind fun printed hprinted => yields_pure hprinted
  · obtain ⟨result, g⟩ := result
    obtain ⟨printed, rfl, rfl⟩ := hresult
    exact yields_pure rfl

theorem run_shows {arguments : List String} (hrequest : Request.ofArguments arguments = .run a)
    (hpreferences : preferences w a = .ok p) {j : Journal}
    (hresult : ((analyseInput w a p).run j).1 = .ok (.ok r)) : (run w arguments).Shows a r := by
  obtain ⟨parsed, hr⟩ := comesOf_of_analyseInput hresult
  obtain ⟨text, htext, hshows⟩ := hr.exists_shows a
  have hyields : (analyseInput w a p).Yields (· = .ok (.ok r)) :=
    fun k => (analyseInput_result_eq w a p k j).trans hresult
  have hstart := start_yields_rendered hyields htext (.empty p.logging.marksFile)
  unfold run
  simp only [hrequest, hpreferences]
  rcases hrun : (start w a p).run (.empty p.logging.marksFile) with ⟨result, journal⟩
  rw [hrun] at hstart
  obtain rfl := hstart
  exact hshows _

end Run

/-- Whatever the preferences and the arguments, the report, the document and the status of a result
tell the same. If there are diagnostics the report has, below its heading, one line for each of them
in the order of the parse, the document has the same messages and no tree, and the program fails. If
there are none the report and the document both tell so and show the same tree, which there is
unless there are no tokens. What the program prints is the report or a text that is read back as the
document. -/
theorem renderings_agree :
    (∀ (p : Preferences) (elapsed : Nat) (name source : String) (j : Journal),
      (source.length + 1 < lineBound →
        ∃ r, ((analyse p elapsed name source).run j).1 = .ok (.ok r)) ∧
      ∀ r, ((analyse p elapsed name source).run j).1 = .ok (.ok r) →
        r.source = source ∧ (∃ parsed, r.ComesOf p parsed) ∧ r.ToldAlike) ∧
    (∀ (p : Preferences) (host : Host) (elapsed : Nat) (path : String) (j : Journal)
      (r : Analysis), ((analyseFile p host elapsed path).run j).1 = .ok (.ok r) →
        (∃ parsed, r.ComesOf p parsed) ∧ r.ToldAlike) ∧
    (∀ (w : World) (arguments : List String) (a : Arguments) (p : Preferences) (j : Journal)
      (r : Analysis), Request.ofArguments arguments = .run a → preferences w a = .ok p →
      ((analyseInput w a p).run j).1 = .ok (.ok r) →
        (∃ parsed, r.ComesOf p parsed) ∧ r.ToldAlike ∧ (run w arguments).Shows a r) := by
  refine ⟨fun p elapsed name source j => ⟨fun h => ?_, fun r h => ?_⟩,
    fun p host elapsed path j r h => ?_, fun w arguments a p j r hrequest hpreferences h => ?_⟩
  · obtain ⟨r, hr, -⟩ := analyse_yields p elapsed name h j
    exact ⟨r, hr⟩
  · obtain ⟨hsource, parsed, hr⟩ := comesOf_of_analyse h
    exact ⟨hsource, ⟨parsed, hr⟩, toldAlike_of_comesOf hr⟩
  · obtain ⟨parsed, hr⟩ := comesOf_of_analyseFile h
    exact ⟨⟨parsed, hr⟩, toldAlike_of_comesOf hr⟩
  · obtain ⟨parsed, hr⟩ := comesOf_of_analyseInput h
    exact ⟨⟨parsed, hr⟩, toldAlike_of_comesOf hr, run_shows hrequest hpreferences h⟩

theorem renderings_agree_semicolon :
    let p : Preferences :=
      ⟨⟨false, false⟩, ⟨true, false⟩, ⟨false, false⟩, ⟨false, true, .info, true⟩⟩
    let system : FileSystem := ⟨[""], [(["", "a"], .file ";".toByteArray)]⟩
    let w : World := ⟨[], system, ";".toByteArray, 0, 0⟩
    let a : Arguments := ⟨none, [.stdin], none, none⟩
    let b : Arguments := ⟨none, [.stdin, .json], none, none⟩
    let message := "Line 0, Column 0: Unexpected token: ;"
    let lines := ["Parsing Errors:", "", "• " ++ message, ""]
    ";".length + 1 < lineBound ∧
      (∃ r, ((analyse p 0 inlineName ";").run (.empty true)).1 = .ok (.ok r) ∧ r.ToldAlike) ∧
      (∃ r, ((analyseFile p system 0 "a").run (.empty true)).1 = .ok (.ok r) ∧ r.ToldAlike) ∧
      Request.ofArguments ["--stdin"] = .run a ∧
      preferences w a = .ok (override a (.ofEnvironment [])) ∧
      (run w ["--stdin"]).status = 1 ∧
      (run w ["--stdin"]).output.toList.splitOn '\n' = lines.map String.toList ∧
      Request.ofArguments ["--json", "--stdin"] = .run b ∧
      (run w ["--json", "--stdin"]).status = 1 ∧
      ∃ v, Json.read? (run w ["--json", "--stdin"]).output = some v ∧
        v.fields? ["success", "diagnostics", "tree", "token_count", "processing_time_ms"] =
          some [some (.bool false), some (.array [.text message]), none, some (.nat 1),
            some (.real (Float.ofNat 0 / 1000.0))] := by
  intro p system w a b message lines
  obtain ⟨hsource, hfile, hprogram⟩ := renderings_agree
  let t : Token := ⟨.semicolon, ";", 0, 0, ⟨.start, ⟨1, 1, 2⟩⟩⟩
  have hlength : ";".length + 1 < lineBound := by decide +kernel
  have hchunks : Chunk.ofText ";".toList = [.symbol [';']] := by
    simp [Chunk.ofText_cons, Chunk.cut, isSeparator, isPunctuation]
  have htokens : tokenize ";" = .ok [t] := by
    rw [tokenize, hchunks]
    rfl
  have hparsed := parse_semicolon_cons (t := t) rfl .nil
  have htext : String.fromUTF8? ";".toByteArray = some ";" := by decide +kernel
  have hfound : ∃ r, ((analyseFile p system 0 "a").run (.empty true)).1 = .ok (.ok r) := by
    have hresolve : system.resolve "a" = .ok (["", "a"], .file ";".toByteArray) :=
      FileSystem.isName_a.resolve rfl
    have hway : system.WayFits "a" := FileSystem.isName_a.wayFits (by decide +kernel)
    have hload := load_result p.loading 0 (by decide +kernel) hresolve hway (by decide +kernel)
      (by decide) htext (by decide +kernel)
    have hanalyse := analyse_result p 0 "a" htokens hparsed
    rw [analyseFile, run_withFile]
    simp only [bind_result, hload, hanalyse]
    exact ⟨_, rfl⟩
  have hrequest : Request.ofArguments ["--stdin"] = .run a := by decide +kernel
  have hdocument : Request.ofArguments ["--json", "--stdin"] = .run b := by decide +kernel
  have hpreferences : preferences w a = .ok (override a (.ofEnvironment [])) := rfl
  -- Neither of the two changes the preferences.
  let found : Analysis :=
    .found (override a (.ofEnvironment [])) 0 ";" [t] ⟨.root [], [⟨.strayToken, 0, t⟩]⟩
  have hresult : ∀ given ∈ [a, b],
      ((analyseInput w given (override a (.ofEnvironment []))).run (.empty true)).1 =
        .ok (.ok found) := by
    intro given hgiven
    have hstandard : given.source = .standard := by
      revert given
      decide
    simp only [analyseInput, hstandard, w, htext]
    exact analyse_result _ 0 inlineName htokens hparsed (.empty true)
  obtain ⟨hok, htold⟩ := hsource p 0 inlineName ";" (.empty true)
  obtain ⟨r, hr⟩ := hok hlength
  obtain ⟨s, hs⟩ := hfound
  obtain ⟨-, halike, hshows⟩ :=
    hprogram w ["--stdin"] a _ (.empty true) _ hrequest hpreferences (hresult a (by simp))
  obtain ⟨-, -, hprints⟩ :=
    hprogram w ["--json", "--stdin"] b _ (.empty true) _ hdocument rfl (hresult b (by simp))
  have hne : found.diagnostics ≠ [] := List.cons_ne_nil _ _
  have hmessages : (Document.ofAnalysis found).diagnostics = [message] := by
    rw [halike.messages]
    decide +kernel
  obtain ⟨hsuccess, htree, hlines⟩ := halike.refused hne
  refine ⟨hlength, ⟨r, hr, (htold r hr).2.2⟩, ⟨s, hs, (hfile p system 0 "a" _ s hs).2⟩, hrequest,
    hpreferences, hshows.status.trans (if_neg hne), ?_, hdocument,
    hprints.status.trans (if_neg hne), _, (hprints.json (by decide)).2, ?_⟩
  · obtain ⟨excerpts, -, houtput⟩ := hshows.text (by decide)
    have hplain : ¬(a.has .tokens = true) ∧ ¬(a.has .explain = true) := by decide
    rw [houtput, if_neg hplain.1, if_neg fun h => hplain.2 h.1, String.empty_append,
      String.append_empty, hlines, hmessages]
    rfl
  · have hfields := halike.fields
    rw [hsuccess, htree, hmessages] at hfields
    exact hfields

end YupFront
