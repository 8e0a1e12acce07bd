import Mathlib.Data.List.Forall2
import YupFront.Proofs.Journal
import YupFront.Proofs.Progress
import YupFront.Proofs.Trail

/-! What is logged of a parse. The log tells the same as the result: an event for each diagnostic, an
error in front of each refusal, and counts at the end. -/

namespace YupFront

theorem head?_append {text : String} {c : Char} (h : text.toList.head? = some c) (more : String) :
    (text ++ more).toList.head? = some c := by
  rw [String.toList_append, List.head?_append, h]
  rfl

theorem ParseError.head?_message_tooDeep (depth : Nat) (span : Span) :
    (ParseError.tooDeep depth span).message.toList.head? = some 'M' := by
  have hfirst : "Maximum recursion depth ".toList.head? = some 'M' := by decide
  exact head?_append (head?_append (head?_append hfirst _) _) _

namespace Event

def tellsDiagnostic (e : Event) : Bool := e.message == "Syntax diagnostic recorded"

def tellsRefusal (e : Event) : Bool := e.level == .error && e.code == .nestingTooDeep

/-- The event gives the code of the diagnostic and its text. -/
def Shows (e : Event) (d : Diagnostic) : Prop :=
  e.value? "code" = some d.code.text ∧ e.value? "diagnostic" = some d.render

end Event

/-- Events each with the next one. -/
def successions (es : List Event) : List (Event × Event) := es.zip es.tail

/-- An error about a refusal, and right behind it the event for its diagnostic. -/
structure Event.ShowsRefusal (p : Event × Event) (d : Diagnostic) : Prop where
  span : p.1.span = some d.span
  next : p.2.tellsDiagnostic = true
  shows : p.2.Shows d

def Diagnostic.isRefusal (d : Diagnostic) : Bool := d.code == .nestingTooDeep

/-- The events of a parse tell the same as its result. -/
structure Parsed.ToldBy (mode : PositionMode) (parsed : Parsed) (es : List Event) : Prop where
  diagnostics : List.Forall₂ Event.Shows (es.filter Event.tellsDiagnostic) (parsed.diagnostics mode)
  refusals : List.Forall₂ (fun e d => e.span = some d.span) (es.filter Event.tellsRefusal)
    ((parsed.diagnostics mode).filter Diagnostic.isRefusal)
  next : List.Forall₂ Event.ShowsRefusal ((successions es).filter fun p => p.1.tellsRefusal)
    ((parsed.diagnostics mode).filter Diagnostic.isRefusal)
  completed : ∃ e, es.filter (fun e => e.code == .treeComplete) = [e] ∧
    e.value? "statements" = some parsed.tree.children.length.repr ∧
    e.value? "nodes" = some parsed.tree.count.repr ∧
    e.value? "diagnostics" = some (parsed.diagnostics mode).length.repr
  validated : (∃ e ∈ es, e.code = .validationPassed) ↔ parsed.diagnostics mode = []

/-- An event that is logged on the way and is about no finding. -/
structure Event.IsAside (e : Event) : Prop where
  notDiagnostic : e.tellsDiagnostic = false
  notRefusal : e.tellsRefusal = false

section Told

variable (mode : PositionMode) (traceRules : Bool) (j : Journal)

/-- What is logged of some steps. -/
def Journal.told (steps : List Step) : List Event :=
  (steps.filterMap (Step.event? mode traceRules)).map j.mark

theorem told_append (steps more : List Step) : j.told mode traceRules (steps ++ more) =
    j.told mode traceRules steps ++ j.told mode traceRules more := by
  simp [Journal.told]

theorem isAside_mark {e : Event} (hlevel : e.level ≠ .error)
    (hshort : e.message.utf8ByteSize ≤ Limits.messageBytes)
    (hmessage : e.message ≠ "Syntax diagnostic recorded") : (j.mark e).IsAside where
  notDiagnostic := by
    rw [Event.tellsDiagnostic, Journal.message_mark, truncate_of_short hshort]
    exact beq_eq_false_iff_ne.mpr hmessage
  notRefusal := by simp [Event.tellsRefusal, hlevel]

theorem told_entered (rule : NodeKind) (position : Nat) (rules : RuleStack) :
    ∀ e ∈ j.told mode traceRules [.entered rule position rules],
      e.IsAside ∧ e.code = .genericDebug := by
  have hshort : "Entering rule".utf8ByteSize ≤ Limits.messageBytes := by decide
  have hmessage : "Entering rule" ≠ "Syntax diagnostic recorded" := by decide
  intro e he
  cases traceRules with
  | false => simp [Journal.told, Step.event?] at he
  | true =>
    obtain rfl : e = j.mark _ := by simpa [Journal.told, Step.event?] using he
    exact ⟨isAside_mark j nofun hshort hmessage, rfl⟩

theorem told_tooDeep (depth : Nat) (span : Span) (rules : RuleStack) :
    ∃ e, j.told mode traceRules [.tooDeep depth span rules] = [e] ∧
      e.tellsDiagnostic = false ∧ e.tellsRefusal = true ∧ e.span = some span ∧
      e.code = .nestingTooDeep := by
  let refusal : ParseError := .tooDeep depth span
  let e := ((Event.error refusal.code refusal.message).located span).withKeys
    [("context", rules.render)]
  have hmessage : (j.mark e).message ≠ "Syntax diagnostic recorded" := by
    -- The message has a number in it, but its first letter is another one.
    have hhead : (truncate refusal.message).toList.head? = some 'M' :=
      (head?_truncate _).trans (ParseError.head?_message_tooDeep depth span)
    intro h
    have hsame : truncate refusal.message = "Syntax diagnostic recorded" := h
    rw [hsame] at hhead
    exact absurd hhead (by decide)
  have hrefusal : (j.mark e).tellsRefusal = true := by
    simp [e, refusal, Event.tellsRefusal, Event.located, Event.error, ParseError.code]
  have hspan : (j.mark e).span = some span := by simp [e, Event.located]
  have hcode : (j.mark e).code = .nestingTooDeep := by
    simp [e, refusal, Event.located, Event.error, ParseError.code]
  have htold : j.told mode traceRules [.tooDeep depth span rules] = [j.mark e] := rfl
  exact ⟨j.mark e, htold, beq_eq_false_iff_ne.mpr hmessage, hrefusal, hspan, hcode⟩

theorem told_recorded (finding : Finding) (rules : RuleStack) :
    ∃ e, j.told mode traceRules [.recorded finding rules] = [e] ∧
      e.tellsDiagnostic = true ∧ e.tellsRefusal = false ∧ e.Shows (finding.diagnostic mode) ∧
      e.code = .genericDebug := by
  let d := finding.diagnostic mode
  let e := (Event.debug "Syntax diagnostic recorded").withKeys
    [("code", d.code.text), ("diagnostic", d.render), ("context", rules.render)]
  have hmessage : truncate "Syntax diagnostic recorded" = "Syntax diagnostic recorded" :=
    truncate_of_short (by decide)
  have hcode : (j.mark e).value? "code" = some d.code.text := by
    rw [Journal.value?_mark j e (by decide) (by decide), Event.value?_withKeys]
    simp [lookup_pair]
  have hdiagnostic : (j.mark e).value? "diagnostic" = some d.render := by
    rw [Journal.value?_mark j e (by decide) (by decide), Event.value?_withKeys]
    simp [lookup_pair]
  exact ⟨j.mark e, rfl, beq_iff_eq.mpr hmessage, rfl, ⟨hcode, hdiagnostic⟩, rfl⟩

theorem told_cons (step : Step) (steps : List Step) : j.told mode traceRules (step :: steps) =
    j.told mode traceRules [step] ++ j.told mode traceRules steps :=
  told_append mode traceRules j [step] steps

theorem filter_told_entered {p : Event → Bool} (hp : ∀ e : Event, e.IsAside → p e = false)
    (rule : NodeKind) (position : Nat) (rules : RuleStack) :
    (j.told mode traceRules [.entered rule position rules]).filter p = [] := by
  rw [List.filter_eq_nil_iff]
  intro e he
  have haside := (told_entered mode traceRules j rule position rules e he).1
  simp [hp e haside]

theorem isRefusal_diagnostic (finding : Finding) :
    (finding.diagnostic mode).isRefusal = true ↔ finding.problem = .nestingTooDeep := by
  obtain ⟨problem, anchor⟩ := finding
  cases problem <;> simp [Diagnostic.isRefusal, Finding.diagnostic, Problem.code] <;> decide

/-- The diagnostics that some steps note. -/
def Step.noted (steps : List Step) : List Diagnostic :=
  (steps.filterMap Step.finding?).map (Finding.diagnostic mode)

theorem told_diagnostics (steps : List Step) :
    List.Forall₂ Event.Shows ((j.told mode traceRules steps).filter Event.tellsDiagnostic)
      (Step.noted mode steps) := by
  induction steps with
  | nil => exact .nil
  | cons step steps ih =>
    rw [told_cons, List.filter_append]
    cases step with
    | entered rule position rules =>
      have hnone := filter_told_entered mode traceRules j (fun _ h => h.notDiagnostic) rule position
        rules
      rw [hnone]
      exact ih
    | tooDeep depth span rules =>
      obtain ⟨e, he, hd, -⟩ := told_tooDeep mode traceRules j depth span rules
      rw [he, List.filter_cons_of_neg (by simp [hd])]
      exact ih
    | recorded finding rules =>
      obtain ⟨e, he, hd, -, hshows, -⟩ := told_recorded mode traceRules j finding rules
      rw [he, List.filter_cons_of_pos hd]
      exact .cons hshows ih

theorem noted_recorded {finding : Finding} (h : finding.problem ≠ .nestingTooDeep) (rules : RuleStack)
    (steps : List Step) : (Step.noted mode (.recorded finding rules :: steps)).filter
      Diagnostic.isRefusal = (Step.noted mode steps).filter Diagnostic.isRefusal := by
  have hd : ¬(finding.diagnostic mode).isRefusal = true := by rwa [isRefusal_diagnostic]
  exact List.filter_cons_of_neg hd

theorem noted_refused (depth : Nat) (a : Anchor) (rules : RuleStack) (steps : List Step) :
    (Step.noted mode (.tooDeep depth a.token.span rules ::
      .recorded ⟨.nestingTooDeep, a⟩ rules :: steps)).filter Diagnostic.isRefusal =
    (⟨.nestingTooDeep, a⟩ : Finding).diagnostic mode ::
      (Step.noted mode steps).filter Diagnostic.isRefusal :=
  List.filter_cons_of_pos ((isRefusal_diagnostic mode ⟨.nestingTooDeep, a⟩).mpr rfl)

theorem told_refusals {steps : List Step} (h : Step.Paired steps) :
    List.Forall₂ (fun e d => e.span = some d.span)
      ((j.told mode traceRules steps).filter Event.tellsRefusal)
      ((Step.noted mode steps).filter Diagnostic.isRefusal) := by
  induction h with
  | nil => exact .nil
  | entered rule position rules _ ih =>
    have hnone := filter_told_entered mode traceRules j (fun _ h => h.notRefusal) rule position rules
    rw [told_cons, List.filter_append, hnone]
    exact ih
  | @recorded steps finding rules hp _ ih =>
    obtain ⟨e, he, -, hr, -⟩ := told_recorded mode traceRules j finding rules
    rw [told_cons, List.filter_append, he, List.filter_cons_of_neg (by simp [hr]),
      noted_recorded mode hp]
    exact ih
  | @refused steps depth a rules _ ih =>
    obtain ⟨e, he, -, hr, hspan, -⟩ := told_tooDeep mode traceRules j depth a.token.span rules
    obtain ⟨e', he', -, hr', -⟩ := told_recorded mode traceRules j ⟨.nestingTooDeep, a⟩ rules
    rw [told_cons, told_cons mode traceRules j (.recorded _ _), he, he', noted_refused]
    rw [List.filter_append, List.filter_append, List.filter_cons_of_pos hr,
      List.filter_cons_of_neg (by simp [hr'])]
    exact .cons hspan ih

theorem filter_successions_append {es : List Event} (h : ∀ e ∈ es, e.tellsRefusal = false)
    (more : List Event) :
    (successions (es ++ more)).filter (fun p => p.1.tellsRefusal) =
      (successions more).filter fun p => p.1.tellsRefusal := by
  induction es with
  | nil => rfl
  | cons e es ih =>
    have he : e.tellsRefusal = false := h e List.mem_cons_self
    rw [← ih fun e he => h e (List.mem_cons_of_mem _ he), List.cons_append]
    cases es ++ more with
    | nil => rfl
    | cons next rest => exact List.filter_cons_of_neg (by simp [he])

/-- Whatever is logged after the steps, it does not part a refusal from its diagnostic. -/
theorem told_successions {steps : List Step} (h : Step.Paired steps) {rest : List Event}
    (hrest : ∀ e ∈ rest, e.tellsRefusal = false) :
    List.Forall₂ Event.ShowsRefusal
      ((successions (j.told mode traceRules steps ++ rest)).filter fun p => p.1.tellsRefusal)
      ((Step.noted mode steps).filter Diagnostic.isRefusal) := by
  induction h with
  | nil =>
    have hnone := filter_successions_append hrest []
    rw [List.append_nil] at hnone
    exact hnone ▸ .nil
  | entered rule position rules _ ih =>
    have haside := told_entered mode traceRules j rule position rules
    rw [told_cons, List.append_assoc,
      filter_successions_append fun e he => (haside e he).1.notRefusal]
    exact ih
  | @recorded steps finding rules hp _ ih =>
    obtain ⟨e, he, -, hr, -⟩ := told_recorded mode traceRules j finding rules
    rw [told_cons, he, List.append_assoc,
      filter_successions_append (by simpa using hr), noted_recorded mode hp]
    exact ih
  | @refused steps depth a rules _ ih =>
    obtain ⟨e, he, -, hr, hspan, -⟩ := told_tooDeep mode traceRules j depth a.token.span rules
    obtain ⟨e', he', hd, hr', hshows, -⟩ :=
      told_recorded mode traceRules j ⟨.nestingTooDeep, a⟩ rules
    rw [told_cons, told_cons mode traceRules j (.recorded _ _), he, he', noted_refused]
    -- The event for the diagnostic is the second of one pair and the first of the next.
    have hquiet : ∀ x ∈ [e'], x.tellsRefusal = false := by simpa using hr'
    have hfirst : (successions (e :: e' :: (j.told mode traceRules steps ++ rest))).filter
        (fun p => p.1.tellsRefusal) = (e, e') ::
          (successions (e' :: (j.told mode traceRules steps ++ rest))).filter
            fun p => p.1.tellsRefusal :=
      List.filter_cons_of_pos hr
    have hpair : Event.ShowsRefusal (e, e') ((⟨.nestingTooDeep, a⟩ : Finding).diagnostic mode) :=
      ⟨hspan, hd, hshows⟩
    rw [← filter_successions_append hquiet] at ih
    rw [List.append_assoc, List.append_assoc, List.singleton_append, List.singleton_append, hfirst]
    exact .cons hpair ih

theorem code_of_told {steps : List Step} {e : Event} (h : e ∈ j.told mode traceRules steps) :
    e.code = .genericDebug ∨ e.code = .nestingTooDeep := by
  induction steps with
  | nil => simp [Journal.told] at h
  | cons step steps ih =>
    rw [told_cons, List.mem_append] at h
    rcases h with h | h
    · cases step with
      | entered rule position rules =>
        exact .inl (told_entered mode traceRules j rule position rules e h).2
      | tooDeep depth span rules =>
        obtain ⟨e', he, -, -, -, hcode⟩ := told_tooDeep mode traceRules j depth span rules
        obtain rfl : e = e' := by simpa [he] using h
        exact .inr hcode
      | recorded finding rules =>
        obtain ⟨e', he, -, -, -, hcode⟩ := told_recorded mode traceRules j finding rules
        obtain rfl : e = e' := by simpa [he] using h
        exact .inl hcode
    · exact ih h

end Told

/-- What is logged of a parse, from its start to its end. -/
def Journal.account (mode : PositionMode) (traceRules : Bool) (j : Journal) (tokenCount : Nat)
    (steps : List Step) (parsed : Parsed) : List Event :=
  [j.mark ((Event.debug "Token stream created").withKeys [("tokens", tokenCount.repr)])] ++
    (j.told mode traceRules steps ++ (parsed.events tokenCount).map j.mark)

section Account

variable (mode : PositionMode) (traceRules : Bool) (j : Journal) (tokenCount : Nat)

theorem isAside_events (parsed : Parsed) : ∀ e ∈ (parsed.events tokenCount).map j.mark, e.IsAside := by
  have hshort : "AST construction completed".utf8ByteSize ≤ Limits.messageBytes := by decide
  have hmessage : "AST construction completed" ≠ "Syntax diagnostic recorded" := by decide
  have hshort' : "Syntax validation passed".utf8ByteSize ≤ Limits.messageBytes := by decide
  have hmessage' : "Syntax validation passed" ≠ "Syntax diagnostic recorded" := by decide
  intro e he
  obtain ⟨plain, hplain, rfl⟩ := List.mem_map.mp he
  rcases List.mem_append.mp hplain with h | h
  · obtain rfl := List.mem_singleton.mp h
    exact isAside_mark j nofun hshort hmessage
  · split at h
    · obtain rfl := List.mem_singleton.mp h
      exact isAside_mark j nofun hshort' hmessage'
    · simp at h

theorem isAside_start :
    (j.mark ((Event.debug "Token stream created").withKeys [("tokens", tokenCount.repr)])).IsAside := by
  have hshort : "Token stream created".utf8ByteSize ≤ Limits.messageBytes := by decide
  have hmessage : "Token stream created" ≠ "Syntax diagnostic recorded" := by decide
  exact isAside_mark j nofun hshort hmessage

theorem account_filter (p : Event → Bool) (hp : ∀ e : Event, e.IsAside → p e = false)
    (steps : List Step) (parsed : Parsed) :
    (j.account mode traceRules tokenCount steps parsed).filter p =
      (j.told mode traceRules steps).filter p := by
  have hstart := hp _ (isAside_start j tokenCount)
  have hend : ((parsed.events tokenCount).map j.mark).filter p = [] := by
    rw [List.filter_eq_nil_iff]
    intro e he
    simp [hp e (isAside_events j tokenCount parsed e he)]
  rw [Journal.account, List.filter_append, List.filter_append, hend, List.append_nil,
    List.filter_cons_of_neg (by simp [hstart])]
  rfl

/-- The codes of the end of a parse are not used before it. -/
theorem account_code {code : Code} (hdebug : code ≠ .genericDebug) (hdeep : code ≠ .nestingTooDeep)
    (steps : List Step) (parsed : Parsed) :
    (j.account mode traceRules tokenCount steps parsed).filter (fun e => e.code == code) =
      ((parsed.events tokenCount).filter fun e => e.code == code).map j.mark := by
  have htold : (j.told mode traceRules steps).filter (fun e => e.code == code) = [] := by
    rw [List.filter_eq_nil_iff]
    intro e he hcode
    rcases code_of_told mode traceRules j he with h | h
    · exact hdebug ((eq_of_beq hcode).symm.trans h)
    · exact hdeep ((eq_of_beq hcode).symm.trans h)
  have hstart : [j.mark ((Event.debug "Token stream created").withKeys
      [("tokens", tokenCount.repr)])].filter (fun e => e.code == code) = [] :=
    List.filter_cons_of_neg fun h => hdebug (eq_of_beq h).symm
  rw [Journal.account, List.filter_append, List.filter_append, htold, hstart, List.filter_map]
  rfl

theorem account_completed (steps : List Step) (parsed : Parsed) :
    ∃ e, (j.account mode traceRules tokenCount steps parsed).filter
        (fun e => e.code == .treeComplete) = [e] ∧
      e.value? "statements" = some parsed.tree.children.length.repr ∧
      e.value? "nodes" = some parsed.tree.count.repr ∧
      e.value? "diagnostics" = some (parsed.diagnostics mode).length.repr := by
  let e := (Event.success .treeComplete "AST construction completed").withKeys
    [("statements", parsed.tree.children.length.repr), ("nodes", parsed.tree.count.repr),
      ("diagnostics", parsed.findings.length.repr)]
  have hone : (parsed.events tokenCount).filter (fun e => e.code == .treeComplete) = [e] := by
    have hlast : Code.validationPassed ≠ .treeComplete := by decide
    rw [Parsed.events, List.filter_append, List.filter_cons_of_pos (by simp [Event.success])]
    cases parsed.findings.isEmpty <;> simp [Event.success, hlast, e]
  have hvalue : ∀ key : String, key ≠ "file" → key ≠ "file_id" →
      (j.mark e).value? key =
        ([("diagnostics", parsed.findings.length.repr), ("nodes", parsed.tree.count.repr),
          ("statements", parsed.tree.children.length.repr)].lookup key).or none := by
    intro key hfile hid
    rw [Journal.value?_mark j e hfile hid, Event.value?_withKeys]
    rfl
  refine ⟨j.mark e, ?_, ?_, ?_, ?_⟩
  · rw [account_code mode traceRules j tokenCount (by decide) (by decide), hone]
    rfl
  · rw [hvalue _ (by decide) (by decide)]
    simp [lookup_pair]
  · rw [hvalue _ (by decide) (by decide)]
    simp [lookup_pair]
  · rw [hvalue _ (by decide) (by decide), Parsed.diagnostics, List.length_map]
    simp

theorem account_validated (steps : List Step) (parsed : Parsed) :
    (∃ e ∈ j.account mode traceRules tokenCount steps parsed, e.code = .validationPassed) ↔
      parsed.diagnostics mode = [] := by
  let es := j.account mode traceRules tokenCount steps parsed
  have hdebug : Code.validationPassed ≠ .genericDebug := by decide
  have hdeep : Code.validationPassed ≠ .nestingTooDeep := by decide
  have hone : es.filter (fun e => e.code == .validationPassed) = _ :=
    account_code mode traceRules j tokenCount hdebug hdeep steps parsed
  have hfirst : Code.treeComplete ≠ .validationPassed := by decide
  have hsome : (∃ e ∈ es, e.code = .validationPassed) ↔
      es.filter (fun e => e.code == .validationPassed) ≠ [] := by
    simp [List.filter_eq_nil_iff]
  rw [hsome, hone, Parsed.events, List.filter_append,
    List.filter_cons_of_neg (by simp [Event.success, hfirst])]
  cases hf : parsed.findings with
  | nil => simp [Parsed.diagnostics, hf, Event.success]
  | cons finding findings => simp [Parsed.diagnostics, hf]

theorem account_toldBy {steps : List Step} {parsed : Parsed} (h : Step.Paired steps)
    (hf : parsed.findings = steps.filterMap Step.finding?) :
    parsed.ToldBy mode (j.account mode traceRules tokenCount steps parsed) := by
  have hnoted : parsed.diagnostics mode = Step.noted mode steps := by
    rw [Parsed.diagnostics, hf]
    rfl
  have hstart := (isAside_start j tokenCount).notRefusal
  have hend : ∀ e ∈ (parsed.events tokenCount).map j.mark, e.tellsRefusal = false :=
    fun e he => (isAside_events j tokenCount parsed e he).notRefusal
  constructor
  case diagnostics =>
    rw [account_filter mode traceRules j tokenCount _ fun _ h => h.notDiagnostic, hnoted]
    exact told_diagnostics mode traceRules j steps
  case refusals =>
    rw [account_filter mode traceRules j tokenCount _ fun _ h => h.notRefusal, hnoted]
    exact told_refusals mode traceRules j h
  case next =>
    rw [Journal.account, filter_successions_append (by simpa using hstart), hnoted]
    exact told_successions mode traceRules j h hend
  case completed => exact account_completed mode traceRules j tokenCount steps parsed
  case validated => exact account_validated mode traceRules j tokenCount steps parsed

end Account

theorem parseLogged_of_ok {mode : PositionMode} {traceRules : Bool} {ts : List Token} {tree : Node}
    {s : ParseState} (h : runParser ts = (.ok tree, s)) (j : Journal) :
    (parseLogged mode traceRules ts).run j = (.ok ⟨tree, s.findings.reverse⟩,
      j.tell ([(Event.debug "Token stream created").withKeys [("tokens", ts.length.repr)]] ++
        (s.trail.reverse.filterMap (Step.event? mode traceRules) ++
          Parsed.events s.cursor.length ⟨tree, s.findings.reverse⟩))) := by
  simp only [parseLogged, h, StateT.run_bind, run_log, run_logAll, Journal.tell_append]
  rfl

/-- Every parse has a result, and the journal grows by events that tell the same. -/
theorem log_tells_diagnostics (mode : PositionMode) (traceRules : Bool) (ts : List Token)
    (j : Journal) : ∃ parsed es, parse ts = .ok parsed ∧
      (parseLogged mode traceRules ts).run j =
        (.ok parsed, { j with events := es.reverse ++ j.events }) ∧
      parsed.ToldBy mode es := by
  obtain ⟨steps, htrail, hfindings, hp⟩ := runParser_trails ts
  obtain ⟨statements, htree, hrest⟩ := program_ends (.start ts)
  have hcount : (runParser ts).2.cursor.length = ts.length :=
    (program.reaches (.start ts)).length_eq.symm.trans (Nat.zero_add _)
  have hrun : runParser ts = (.ok (.root statements), (runParser ts).2) := Prod.ext htree rfl
  refine ⟨_, j.account mode traceRules ts.length steps _, parse_of_runParser htree, ?_,
    account_toldBy mode traceRules j ts.length hp hfindings⟩
  rw [parseLogged_of_ok hrun j, htrail, hcount]
  simp [Journal.tell, Journal.account, Journal.told]

end YupFront
