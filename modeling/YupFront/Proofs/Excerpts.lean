import Mathlib.Data.List.Forall2
import YupFront.Proofs.Completeness
import YupFront.Proofs.LineLookup
import YupFront.Proofs.Results
import YupFront.Proofs.SourceOrder
import YupFront.Proofs.Tiling

/-! What a user is shown of a source below a diagnostic. The position that the lexer has counted finds its
token again in the line that is looked up, and the carets stand below the token. -/

namespace YupFront

/-- The token is found in the text where its span says. -/
def Token.StandsIn (source : List Char) (t : Token) : Prop :=
  ∃ before behind, source = before ++ (t.text.toList ++ behind) ∧
    t.span = ⟨Position.start.after before, Position.start.after (before ++ t.text.toList)⟩

section Placement

variable {source : List Char}

/-- The position moves over all characters, whether a token is made of them or not. -/
theorem placeAll_standsIn {done ts : List Token} {index : Nat} {before : List Char}
    {chunks : List Chunk} (hsource : source = before ++ chunks.flatMap Chunk.text)
    (hdone : ∀ t ∈ done, t.StandsIn source)
    (h : placeAll done index (Position.start.after before) chunks = .ok ts) :
    ∀ t ∈ ts, t.StandsIn source := by
  induction chunks generalizing done index before with
  | nil =>
    cases h
    intro t ht
    exact hdone t (List.mem_reverse.mp ht)
  | cons chunk rest ih =>
    rw [List.flatMap_cons] at hsource
    have hnext : source = (before ++ chunk.text) ++ rest.flatMap Chunk.text := by
      rw [hsource, List.append_assoc]
    obtain ⟨-, hrest⟩ := placeAll_cons h
    have htokens : ∀ t ∈ chunk.tokens index (Position.start.after before), t.StandsIn source := by
      intro t ht
      by_cases hb : chunk.isBlank = true
      · simp [Chunk.tokens, hb] at ht
      · obtain rfl : t = _ := by simpa [Chunk.tokens, hb] using ht
        refine ⟨before, rest.flatMap Chunk.text, ?_, ?_⟩
        · rw [String.toList_ofList, hsource]
        · rw [String.toList_ofList, Position.after_append]
    rw [← Position.after_append] at hrest
    exact ih hnext (List.forall_mem_append.mpr ⟨htokens, hdone⟩) hrest

theorem tokenize_standsIn {source : String} {ts : List Token} (h : tokenize source = .ok ts) :
    ∀ t ∈ ts, t.StandsIn source.toList := by
  have hchunks : source.toList = [] ++ (Chunk.ofText source.toList).flatMap Chunk.text := by
    rw [Chunk.flatMap_text_ofText, List.nil_append]
  exact placeAll_standsIn hchunks (by simp) h

theorem tokenize_lexeme {source : String} {ts : List Token} (h : tokenize source = .ok ts) :
    ∀ t ∈ ts, Lexeme t.text.toList :=
  ((tilesFrom_iff rfl).mpr (tokenize_place h)).lexeme

theorem Lexeme.isSeparator_eq_false {text : List Char} (h : Lexeme text) :
    ∀ c ∈ text, isSeparator c = false := by
  cases h with
  | punctuation hd => simpa using isSeparator_of_punctuation _ hd
  | pair hd =>
    have hlead := mem_operatorLeads_of_pairLeads _ hd
    simpa [isSeparator_of_operatorLead '=' (by decide)] using isSeparator_of_operatorLead _ hlead
  | operator hd => simpa using isSeparator_of_operatorLead _ hd
  | run hrun =>
    intro c hc
    have hplain := hrun.plain c hc
    simpa [← isSeparator_iff] using hplain.1

theorem Lexeme.not_mem {text : List Char} {c : Char} (h : Lexeme text) (hc : isSeparator c = true) :
    c ∉ text := by
  intro hm
  simp [h.isSeparator_eq_false c hm] at hc

end Placement

/-- An excerpt from the line, with some carets below the place where the diagnostic begins. -/
def Diagnostic.marked (d : Diagnostic) (line : List Char) (carets : Nat) : String :=
  let number := d.span.start.line.repr
  let margin := LineIndex.blanks number.length
  "error: " ++ d.message ++ "\n  --> " ++ d.span.start.render ++ "\n" ++ margin ++ " |\n" ++ number ++
    " | " ++ String.ofList line ++ "\n" ++ margin ++ " | " ++
    LineIndex.blanks (d.span.start.column - 1) ++ LineIndex.carets carets ++ "\n"

/-- The excerpt for the diagnostic is from the line of the token, and as many carets as the token has
characters stand below it. -/
def LineIndex.PointsAt (index : LineIndex) (d : Diagnostic) (t : Token) (excerpt : String) : Prop :=
  ∃ line, index.line? d.span.start.line = some line ∧
    (line.drop (d.span.start.column - 1)).take t.text.length = t.text.toList ∧
    d.span.start.line = d.span.finish.line ∧
    index.excerpt d.span d.message = .ok excerpt ∧ excerpt = d.marked line t.text.length

theorem exists_pointsAt {source : String} {d : Diagnostic} {t : Token}
    (hlexeme : Lexeme t.text.toList) (hstands : t.StandsIn source.toList) (hd : d.span = t.span) :
    ∃ excerpt, (LineIndex.ofText source).PointsAt d t excerpt := by
  obtain ⟨before, behind, hsource, hspan⟩ := hstands
  have hnewline : '\n' ∉ t.text.toList := hlexeme.not_mem (by decide)
  have hreturn : '\r' ∉ t.text.toList := hlexeme.not_mem (by decide)
  have hpos := List.length_pos_iff.mpr hlexeme.ne_nil
  have hline := line?_after_start hsource
  rw [firstLine_append hnewline, trimReturns_append hlexeme.ne_nil hreturn] at hline
  obtain ⟨hsame, hcolumn⟩ := Position.after_of_no_newline hnewline (Position.start.after before)
  rw [← Position.after_append] at hsame hcolumn
  have hstart := Position.column_after_start before
  have hlength : t.text.length = t.text.toList.length := String.length_toList.symm
  generalize Position.start.after before = start,
    Position.start.after (before ++ t.text.toList) = finish at hspan hline hsame hcolumn hstart
  obtain ⟨line, column, message, code, span⟩ := d
  obtain rfl : span = ⟨start, finish⟩ := hd.trans hspan
  refine ⟨_, _, hline, ?_, hsame.symm, ?_, rfl⟩
  · have hdrop : start.column - 1 = (lastLine before).length := by omega
    rw [hdrop, List.drop_left, hlength, List.take_left]
  · have hwidth : finish.column - start.column = t.text.length := by omega
    have hmax : max t.text.length 1 = t.text.length := by omega
    have hfind := LineIndex.line?_eq_some_iff.mp hline
    simp only [LineIndex.excerpt, hfind, LineIndex.caretCount, hsame, if_true, hwidth, hmax]
    rfl

theorem exists_mapM_ok {f : α → Except ε β} {r : α → β → Prop} {as : List α}
    (h : ∀ a ∈ as, ∃ b, f a = .ok b ∧ r a b) :
    ∃ bs, as.mapM f = .ok bs ∧ List.Forall₂ r as bs := by
  induction as with
  | nil => exact ⟨[], rfl, .nil⟩
  | cons a as ih =>
    obtain ⟨hhead, htail⟩ := List.forall_mem_cons.mp h
    obtain ⟨b, hb, hab⟩ := hhead
    obtain ⟨bs, hbs, hall⟩ := ih htail
    refine ⟨b :: bs, ?_, .cons hab hall⟩
    rw [List.mapM_cons, hb, hbs]
    rfl

/-- The excerpt is about the token that the finding is anchored at. -/
def Finding.ShownBy (mode : PositionMode) (source : String) (ts : List Token) (x : Finding)
    (excerpt : String) : Prop :=
  ts[x.anchor.index]? = some x.anchor.token ∧
    (LineIndex.ofText source).PointsAt (x.diagnostic mode) x.anchor.token excerpt

theorem exists_excerpts (mode : PositionMode) {source : String} {ts : List Token} {parsed : Parsed}
    (htokens : tokenize source = .ok ts) (hparsed : parse ts = .ok parsed) :
    ∃ excerpts, (parsed.diagnostics mode).mapM
        (fun d => (LineIndex.ofText source).excerpt d.span d.message) = .ok excerpts ∧
      List.Forall₂ (Finding.ShownBy mode source ts) parsed.findings excerpts := by
  rw [Parsed.diagnostics, List.mapM_map]
  refine exists_mapM_ok fun x hx => ?_
  have hanchor := anchored_of_parse hparsed x hx
  have hmem := List.mem_of_getElem? hanchor
  have hd : (x.diagnostic mode).span = x.anchor.token.span := rfl
  obtain ⟨excerpt, hpoints⟩ :=
    exists_pointsAt (tokenize_lexeme htokens _ hmem) (tokenize_standsIn htokens _ hmem) hd
  have hshown : x.ShownBy mode source ts excerpt := ⟨hanchor, hpoints⟩
  obtain ⟨line, -, -, -, hexcerpt, -⟩ := hpoints
  exact ⟨excerpt, hexcerpt, hshown⟩

/-- A run over a source that is not too long has a result, and every diagnostic can be explained: the
excerpt is from the line of the token that the diagnostic is anchored at, and the carets stand
below the token. -/
theorem excerpts_point_at_anchors (p : Preferences) (elapsed : Nat) (source : String) (j : Journal)
    (h : source.length + 1 < lineBound) :
    let mode := PositionMode.ofLegacy p.parsing.legacyPositions
    ∃ found parsed excerpts, ((analyseSource p elapsed source).run j).1 = .ok (.ok found) ∧
      tokenize source = .ok found.tokens ∧ parse found.tokens = .ok parsed ∧
      found.diagnostics = parsed.diagnostics mode ∧
      found.explain = .ok (String.intercalate "\n" excerpts) ∧
      List.Forall₂ (Finding.ShownBy mode source found.tokens) parsed.findings excerpts := by
  intro mode
  obtain ⟨ts, htokens⟩ := tokenize_succeeds h
  obtain ⟨parsed, hparsed⟩ := parse_succeeds ts
  obtain ⟨excerpts, hmap, hshown⟩ := exists_excerpts mode htokens hparsed
  have hrun := analyse_result p elapsed inlineName htokens hparsed j
  have hexplain : (Analysis.found p elapsed source ts parsed).explain =
      .ok (String.intercalate "\n" excerpts) := by
    simp only [Analysis.explain, Analysis.found, mode] at hmap ⊢
    rw [hmap]
  exact ⟨_, parsed, excerpts, hrun, htokens, hparsed, rfl, hexplain, hshown⟩

theorem excerpts_point_at_anchors_semicolon :
    let p : Preferences :=
      ⟨⟨true, false⟩, ⟨true, false⟩, ⟨false, false⟩, ⟨false, true, .info, true⟩⟩
    "\r\n ;".length + 1 < lineBound ∧
      ∃ found, ((analyseSource p 0 "\r\n ;").run (.empty true)).1 = .ok (.ok found) ∧
        found.explain = .ok "error: Unexpected token: ;\n  --> 2:2\n  |\n2 |  ;\n  |  ^\n" := by
  intro p
  have hlength : "\r\n ;".length + 1 < lineBound := by decide +kernel
  have hchunks : Chunk.ofText "\r\n ;".toList =
      [.blank '\r', .blank '\n', .blank ' ', .symbol [';']] := by
    simp [Chunk.ofText_cons, Chunk.cut, isSeparator, isPunctuation]
  have hsource : tokenize "\r\n ;" = .ok [⟨.semicolon, ";", 3, 3, ⟨⟨3, 2, 2⟩, ⟨4, 2, 3⟩⟩⟩] := by
    rw [tokenize, hchunks]
    rfl
  obtain ⟨found, parsed, excerpts, hrun, htokens, hparsed, -, hexplain, hshown⟩ :=
    excerpts_point_at_anchors p 0 "\r\n ;" (.empty true) hlength
  rw [← Except.ok.inj (hsource.symm.trans htokens), parse_semicolon_cons rfl .nil] at hparsed
  cases hparsed
  refine ⟨hlength, found, hrun, ?_⟩
  cases hshown with
  | cons hpoints hnil =>
    cases hnil
    obtain ⟨-, line, hline, -, -, -, rfl⟩ := hpoints
    have hfound : (LineIndex.ofText "\r\n ;").line? 2 = some [' ', ';'] := by decide +kernel
    obtain rfl : line = [' ', ';'] := Option.some.inj (hline.symm.trans hfound)
    rw [hexplain]
    decide +kernel

end YupFront
