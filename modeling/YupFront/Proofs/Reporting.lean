import YupFront.Pipeline.Report
import YupFront.Proofs.Bounds
import YupFront.Proofs.IndentedForm
import YupFront.Proofs.Independence
import YupFront.Proofs.Numerals
import YupFront.Proofs.Outline
import YupFront.Proofs.TreeJson

/-! What is told of a result, in a text and in a document. Neither is made from the other; that they
agree rests on a message being one line, which it is because no token has a newline in it. -/

namespace YupFront

/-- The result is what the source is lexed and parsed to. The diagnostics are in the order of the
parse. -/
structure Analysis.ComesOf (p : Preferences) (parsed : Parsed) (r : Analysis) : Prop where
  tokens : tokenize r.source = .ok r.tokens
  parses : parse r.tokens = .ok parsed
  tree : r.tree = if r.tokens.isEmpty then none else some parsed.tree
  diagnostics : r.diagnostics = parsed.diagnostics p.mode

section Runs

variable {p : Preferences} {elapsed : Nat} {r : Analysis} {j : Journal}

theorem comesOf_of_analyse {name source : String}
    (h : ((analyse p elapsed name source).run j).1 = .ok (.ok r)) :
    r.source = source ∧ ∃ parsed, r.ComesOf p parsed := by
  cases htokens : tokenize source with
  | error f =>
    rw [analyse_fault p elapsed name htokens] at h
    cases h
  | ok ts =>
    obtain ⟨parsed, hparsed⟩ := parse_succeeds ts
    rw [analyse_result p elapsed name htokens hparsed] at h
    cases h
    exact ⟨rfl, parsed, htokens, hparsed, rfl, rfl⟩

theorem comesOf_of_analyseFile {host : Host} {path : String}
    (h : ((analyseFile p host elapsed path).run j).1 = .ok (.ok r)) :
    ∃ parsed, r.ComesOf p parsed := by
  have hyields : (analyseFile p host elapsed path).Yields fun result =>
      ∀ r, result = .ok (.ok r) → ∃ parsed, r.ComesOf p parsed := by
    refine withFile_yields _ (.after _ fun _ => .after _ fun loaded => ?_)
    cases loaded with
    | error e => exact yields_pure nofun
    | ok loaded =>
      have hanalyse : (analyse p elapsed path loaded.source).Yields fun result =>
          ∀ r, result = .ok (.ok r) → ∃ parsed, r.ComesOf p parsed :=
        fun _ _ h => (comesOf_of_analyse h).2
      refine hanalyse.bind fun result hresult => ?_
      rcases result with f | e | found
      · exact yields_pure nofun
      · exact yields_pure nofun
      · obtain ⟨parsed, hfound⟩ := hresult found rfl
        refine yields_pure fun withMetadata h => ?_
        cases h
        exact ⟨parsed, hfound.tokens, hfound.parses, hfound.tree, hfound.diagnostics⟩
  exact hyields j r h

end Runs

/-! Messages. -/

theorem newline_not_mem_message {text : String} (h : '\n' ∉ text.toList) (problem : Problem) :
    '\n' ∉ (problem.message text).toList := by
  rcases message_cases problem with ⟨-, lead, hlead, hmessage⟩ | hmessage
  · have hleads : ∀ lead ∈ quotingLeads, '\n' ∉ lead.toList := by decide +kernel
    rw [hmessage, String.toList_append]
    exact fun hmem => (List.mem_append.mp hmem).elim (hleads lead hlead) h
  · rw [hmessage]
    clear hmessage
    cases problem with
    | blockUnclosed block | blockWithoutParen block | blockWithoutBrace block =>
      cases block <;> decide +kernel
    | _ => decide +kernel

theorem newline_not_mem_repr (n : Nat) : '\n' ∉ n.repr.toList := by
  intro hmem
  have hdigit := Json.isDigit_of_mem_repr hmem
  revert hdigit
  decide

theorem Diagnostic.newline_not_mem_render {d : Diagnostic} (h : '\n' ∉ d.message.toList) :
    '\n' ∉ d.render.toList := by
  have hleads : '\n' ∉ "Line ".toList ∧ '\n' ∉ ", Column ".toList ∧ '\n' ∉ ": ".toList := by decide
  simp only [render, String.toList_append, List.mem_append, hleads, newline_not_mem_repr, h,
    or_self, not_false_eq_true]

/-- No message about a source that is lexed goes on in another line. -/
theorem Analysis.ComesOf.newline_not_mem {p : Preferences} {parsed : Parsed} {r : Analysis}
    (h : r.ComesOf p parsed) : ∀ m ∈ r.messages, '\n' ∉ m.toList := by
  intro m hm
  obtain ⟨d, hd, rfl⟩ := List.mem_map.mp hm
  rw [h.diagnostics] at hd
  obtain ⟨x, hx, rfl⟩ := List.mem_map.mp hd
  have htoken := List.mem_of_getElem? (anchored_of_parse h.parses x hx)
  have htext := (tokenize_lexeme h.tokens _ htoken).not_mem (by decide : isSeparator '\n' = true)
  exact Diagnostic.newline_not_mem_render (newline_not_mem_message htext x.problem)

/-- The report of some messages has a heading, an empty line and one line for each message. -/
theorem splitOn_errorReport {messages : List String} (hne : messages ≠ [])
    (h : ∀ m ∈ messages, '\n' ∉ m.toList) :
    (errorReport messages).toList.splitOn '\n' =
      ("Parsing Errors:" :: "" :: messages.map ("• " ++ ·) ++ [""]).map String.toList := by
  have hreport : errorReport messages =
      String.join (("Parsing Errors:" :: "" :: messages.map ("• " ++ ·)).map (· ++ "\n")) := by
    rw [errorReport, if_neg (by simpa using hne), List.map_cons, List.map_cons, List.map_map,
      String.join_cons, String.join_cons, ← String.append_assoc]
    rfl
  have hlines : ∀ line ∈ "Parsing Errors:" :: "" :: messages.map ("• " ++ ·),
      '\n' ∉ line.toList := by
    refine List.forall_mem_cons.mpr ⟨by decide, List.forall_mem_cons.mpr ⟨by decide, ?_⟩⟩
    refine List.forall_mem_map.mpr fun m hm => ?_
    simp [h m hm]
  rw [hreport, ← splitLines_eq_splitOn, splitLines_join hlines, List.map_append]
  rfl

theorem Analysis.report_of_isValid {r : Analysis} (h : r.isValid = true) (showTree : Bool) :
    r.report showTree = "No errors - code is valid\n" ++
      if showTree then r.treeText.elim "" ("\n" ++ ·) else "" := by
  unfold report
  rw [if_pos h]
  cases showTree <;> cases r.treeText <;> rfl

/-! The document. -/

namespace Document

theorem spelled_toJson (d : Document) : d.toJson.Spelled := by
  refine .record fun f hf => ?_
  rcases List.mem_append.mp hf with hf | hf
  · rcases List.mem_append.mp hf with hf | hf
    · rcases List.mem_pair.mp hf with rfl | rfl
      · exact .bool d.success
      · refine .array fun v hv => ?_
        obtain ⟨text, -, rfl⟩ := List.mem_map.mp hv
        exact .string (some text)
    · cases htree : d.tree with
      | none =>
        rw [htree] at hf
        cases hf
      | some tree =>
        rw [htree] at hf
        obtain rfl := List.mem_singleton.mp hf
        exact tree.spelled_toJson
  · rcases List.mem_pair.mp hf with rfl | rfl
    · exact Json.spelled_nat d.tokenCount
    · exact Json.spelled_real d.duration

/-- The printed document is read as the value that it was made from. -/
theorem read?_line (d : Document) : Json.read? (d.render ++ "\n") = some d.toJson :=
  Json.read?_indented d.spelled_toJson (by simp [Json.isSpace])

/-- The fields of a document. The tree is left out if there is none. -/
theorem fields?_toJson (d : Document) :
    d.toJson.fields? ["success", "diagnostics", "tree", "token_count", "processing_time_ms"] =
      some [some (.bool d.success), some (.array (d.diagnostics.map .text)), d.tree.map Node.toJson,
        some (.nat d.tokenCount), some (.real d.duration)] := by
  obtain ⟨success, diagnostics, tree, tokenCount, duration⟩ := d
  cases tree <;> simp [toJson, Json.fields?, Json.field?, Json.record]

end Document

/-- Of a result that has diagnostics, both tell these and nothing else; of any other, both tell that
nothing is wrong, and the tree. -/
structure Analysis.ToldAlike (r : Analysis) : Prop where
  messages : (Document.ofAnalysis r).diagnostics = r.diagnostics.map Diagnostic.render
  one_line : ∀ m ∈ (Document.ofAnalysis r).diagnostics, '\n' ∉ m.toList
  refused : r.diagnostics ≠ [] →
    (Document.ofAnalysis r).success = false ∧ (Document.ofAnalysis r).tree = none ∧
    ∀ showTree, (r.report showTree).toList.splitOn '\n' =
      ("Parsing Errors:" :: "" :: (Document.ofAnalysis r).diagnostics.map ("• " ++ ·) ++ [""]).map
        String.toList
  accepted : r.diagnostics = [] →
    (Document.ofAnalysis r).success = true ∧ (Document.ofAnalysis r).diagnostics = [] ∧
    ((Document.ofAnalysis r).tree = none ↔ r.tokens = []) ∧
    r.report false = "No errors - code is valid\n" ∧
    r.report true = "No errors - code is valid\n" ++
      (Document.ofAnalysis r).tree.elim "" fun tree => "\n" ++ tree.render 0
  /-- The JSON value has these, and the tree among them only if there is one. -/
  fields : (Document.ofAnalysis r).toJson.fields?
      ["success", "diagnostics", "tree", "token_count", "processing_time_ms"] =
    some [some (.bool (Document.ofAnalysis r).success),
      some (.array ((Document.ofAnalysis r).diagnostics.map .text)),
      (Document.ofAnalysis r).tree.map Node.toJson, some (.nat r.tokens.length),
      some (.real (Document.ofAnalysis r).duration)]

theorem toldAlike_of_comesOf {p : Preferences} {parsed : Parsed} {r : Analysis}
    (h : r.ComesOf p parsed) : r.ToldAlike where
  messages := rfl
  one_line := h.newline_not_mem
  refused hne := by
    have hvalid : r.isValid = false := by simpa [Analysis.isValid] using hne
    have hmessages : r.messages ≠ [] := by simpa [Analysis.messages] using hne
    refine ⟨hvalid, by simp [Document.ofAnalysis, hvalid], fun showTree => ?_⟩
    have hreport : r.report showTree = errorReport r.messages := by simp [Analysis.report, hvalid]
    rw [hreport]
    exact splitOn_errorReport hmessages h.newline_not_mem
  accepted hnil := by
    have hvalid : r.isValid = true := by simp [Analysis.isValid, hnil]
    have htree : (Document.ofAnalysis r).tree = r.tree := by simp [Document.ofAnalysis, hvalid]
    refine ⟨hvalid, by simp [Document.ofAnalysis, Analysis.messages, hnil], ?_, ?_, ?_⟩
    · rw [htree, h.tree]
      cases r.tokens <;> simp
    · exact Analysis.report_of_isValid hvalid false
    · rw [htree, Analysis.report_of_isValid hvalid, Analysis.treeText]
      cases r.tree <;> rfl
  fields := Document.fields?_toJson _

end YupFront
