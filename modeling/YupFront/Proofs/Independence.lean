import YupFront.Proofs.Excerpts

/-! Preferences have no part in what a run finds. They decide how places are told, whether tokens
are counted by kind and what is logged. -/

namespace YupFront

namespace Metrics

def withoutKinds (m : Metrics) : Metrics := { m with kinds := [] }

theorem withoutKinds_addClass (m : Metrics) (c : TokenClass) :
    (m.addClass c).withoutKinds = m.withoutKinds.addClass c := by
  cases c <;> rfl

/-- Apart from the kinds, a token is counted in one way. -/
theorem withoutKinds_add (countKinds : Bool) (m : Metrics) (t : Token) :
    (m.add countKinds t).withoutKinds = m.withoutKinds.add false t := by
  have hclass := withoutKinds_addClass { m with total := m.total + 1 } t.kind.tokenClass
  unfold add
  generalize { m with total := m.total + 1 }.addClass t.kind.tokenClass = counted at hclass ⊢
  have hstart : { m.withoutKinds with total := m.withoutKinds.total + 1 } =
    { m with total := m.total + 1 }.withoutKinds := rfl
  rw [hstart, ← hclass]
  by_cases hrun : t.isRun = true <;> cases countKinds <;> simp [hrun, withoutKinds, addRun]

theorem withoutKinds_foldl (countKinds : Bool) (m : Metrics) (ts : List Token) :
    (ts.foldl (add countKinds) m).withoutKinds = ts.foldl (add false) m.withoutKinds := by
  induction ts generalizing m with
  | nil => rfl
  | cons t ts ih => rw [List.foldl_cons, List.foldl_cons, ih, withoutKinds_add]

theorem withoutKinds_ofTokens (countKinds : Bool) (characters : Nat) (ts : List Token) :
    (ofTokens countKinds characters ts).withoutKinds = ofTokens false characters ts :=
  withoutKinds_foldl countKinds _ ts

theorem kinds_ofTokens (characters : Nat) (ts : List Token) :
    (ofTokens false characters ts).kinds = [] := by
  rw [← withoutKinds_ofTokens false]
  rfl

end Metrics

theorem analyse_fault (p : Preferences) (elapsed : Nat) (name : String) {source : String}
    {f : Fault} (h : tokenize source = .error f) (j : Journal) :
    ((analyse p elapsed name source).run j).1 = .error f := by
  have hsource : source.isEmpty = false := by
    refine Bool.eq_false_iff.mpr fun hempty => ?_
    obtain rfl := String.isEmpty_iff.mp hempty
    rw [tokenize_empty] at h
    cases h
  have hlexed : Lexed.ofText p.lexing source = .error f := by
    simp only [Lexed.ofText, h]
  unfold analyse
  simp only [hsource, Bool.false_eq_true, if_false, bind_result, lex_result, hlexed]
  rfl

/-- The two say the same of one token, each of its place in its mode. -/
structure Diagnostic.Alike (mode mode' : PositionMode) (ts : List Token) (d e : Diagnostic) :
    Prop where
  code : d.code = e.code
  message : d.message = e.message
  span : d.span = e.span
  anchored : ∃ t ∈ ts, d.AnchoredAt mode t ∧ e.AnchoredAt mode' t

theorem forall₂_alike (mode mode' : PositionMode) {ts : List Token} {parsed : Parsed}
    (h : parse ts = .ok parsed) : List.Forall₂ (Diagnostic.Alike mode mode' ts)
      (parsed.diagnostics mode) (parsed.diagnostics mode') := by
  rw [Parsed.diagnostics, Parsed.diagnostics, List.forall₂_map_left_iff, List.forall₂_map_right_iff,
    List.forall₂_same]
  intro x hx
  have hanchor := List.mem_of_getElem? (anchored_of_parse h x hx)
  exact ⟨rfl, rfl, rfl, x.anchor.token, hanchor, ⟨rfl, rfl⟩, rfl, rfl⟩

def Preferences.mode (p : Preferences) : PositionMode := .ofLegacy p.parsing.legacyPositions

/-- What runs with the preferences `p` and `q` have in common. -/
structure Analysis.Agrees (p q : Preferences) (a b : Analysis) : Prop where
  source : a.source = b.source
  tokens : a.tokens = b.tokens
  tree : a.tree = b.tree
  file : a.file = b.file
  diagnostics : List.Forall₂ (Diagnostic.Alike p.mode q.mode a.tokens) a.diagnostics b.diagnostics
  places : p.parsing.legacyPositions = q.parsing.legacyPositions → a.diagnostics = b.diagnostics
  metrics : a.metrics.withoutKinds = b.metrics.withoutKinds
  counted : p.lexing.countKinds = q.lexing.countKinds → a.metrics = b.metrics
  uncounted : (p.lexing.countKinds = false → a.metrics.kinds = []) ∧
    (q.lexing.countKinds = false → b.metrics.kinds = [])

theorem found_agrees (p q : Preferences) (elapsed elapsed' : Nat) (source : String)
    {ts : List Token} {parsed : Parsed} (h : parse ts = .ok parsed) : Analysis.Agrees p q
      (.found p elapsed source ts parsed) (.found q elapsed' source ts parsed) where
  source := rfl
  tokens := rfl
  tree := rfl
  file := rfl
  diagnostics := forall₂_alike p.mode q.mode h
  places hlegacy := by simp only [Analysis.found, hlegacy]
  metrics := by
    have hp := Metrics.withoutKinds_ofTokens p.lexing.countKinds source.length ts
    have hq := Metrics.withoutKinds_ofTokens q.lexing.countKinds source.length ts
    exact hp.trans hq.symm
  counted hcount := by simp only [Analysis.found, hcount]
  uncounted := by
    refine ⟨fun hp => ?_, fun hq => ?_⟩
    · rw [Analysis.found, hp]
      exact Metrics.kinds_ofTokens source.length ts
    · rw [Analysis.found, hq]
      exact Metrics.kinds_ofTokens source.length ts

/-- Two runs over one source, with any preferences and any journals, come to the same: to a fault,
if the source is too long, or to results that differ only in how places are told, in the counts of
kinds and in their durations. -/
theorem preferences_do_not_leak (p q : Preferences) (elapsed elapsed' : Nat) (source : String)
    (j k : Journal) :
    (∃ f, lineBound ≤ source.length + 1 ∧
      ((analyseSource p elapsed source).run j).1 = .error f ∧
      ((analyseSource q elapsed' source).run k).1 = .error f) ∨
    ∃ a b, ((analyseSource p elapsed source).run j).1 = .ok (.ok a) ∧
      ((analyseSource q elapsed' source).run k).1 = .ok (.ok b) ∧ Analysis.Agrees p q a b := by
  cases htokens : tokenize source with
  | error f =>
    refine .inl ⟨f, ?_, analyse_fault p elapsed inlineName htokens j,
      analyse_fault q elapsed' inlineName htokens k⟩
    refine Nat.le_of_not_lt fun hlength => ?_
    obtain ⟨ts, hts⟩ := tokenize_succeeds hlength
    rw [hts] at htokens
    cases htokens
  | ok ts =>
    obtain ⟨parsed, hparsed⟩ := parse_succeeds ts
    exact .inr ⟨_, _, analyse_result p elapsed inlineName htokens hparsed j,
      analyse_result q elapsed' inlineName htokens hparsed k,
      found_agrees p q elapsed elapsed' source hparsed⟩

end YupFront
