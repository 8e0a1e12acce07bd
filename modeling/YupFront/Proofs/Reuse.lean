import YupFront.Proofs.Classification
import YupFront.Proofs.Composition
import YupFront.Proofs.Independence
import YupFront.Proofs.Scanning

/-! An analyzer that is used again. Between calls it holds nothing but its preferences and the
counts of its last text, so that it finds in a text what a new one finds; and what it counts is what
there is in the tokens. -/

namespace YupFront

/-! Counting, field by field. -/

namespace KindCounts

theorem mem_map_fst_add {j k : TokenKind} {counts : KindCounts} :
    j ∈ (counts.add k).map Prod.fst ↔ j = k ∨ j ∈ counts.map Prod.fst := by
  induction counts with
  | nil => simp [add]
  | cons entry rest ih =>
    obtain ⟨i, n⟩ := entry
    rw [add]
    by_cases hi : i = k
    · simp [hi]
    · rw [if_neg hi, List.map_cons, List.mem_cons, ih, List.map_cons, List.mem_cons]
      exact or_left_comm

theorem nodup_map_fst_add {k : TokenKind} {counts : KindCounts}
    (h : (counts.map Prod.fst).Nodup) : ((counts.add k).map Prod.fst).Nodup := by
  induction counts with
  | nil => simp [add]
  | cons entry rest ih =>
    obtain ⟨i, n⟩ := entry
    obtain ⟨hi, hrest⟩ := List.nodup_cons.mp h
    rw [add]
    by_cases hk : i = k
    · rw [if_pos hk]
      exact h
    · rw [if_neg hk, List.map_cons, List.nodup_cons, mem_map_fst_add]
      exact ⟨not_or.mpr ⟨hk, hi⟩, ih hrest⟩

end KindCounts

namespace Metrics

/-- The number of tokens of a class. -/
def ofClass (m : Metrics) : TokenClass → Nat
  | .keyword => m.keywords
  | .identifier => m.identifiers
  | .literal => m.numbers
  | .operator => m.operators
  | .punctuation => m.punctuation
  | .special => 0

section Add

variable (countKinds : Bool) (m : Metrics) (t : Token)

theorem total_add : (m.add countKinds t).total = m.total + 1 := by
  unfold add addClass addRun
  cases t.kind.tokenClass <;> cases t.isRun <;> cases countKinds <;> rfl

theorem ofClass_add {c : TokenClass} (hc : c ≠ .special) : (m.add countKinds t).ofClass c =
    m.ofClass c + if t.kind.tokenClass = c then 1 else 0 := by
  unfold add addClass addRun
  cases t.isRun <;> cases countKinds <;> cases t.kind.tokenClass <;> cases c <;>
    first | rfl | exact absurd rfl hc

theorem longestRun_add : (m.add countKinds t).longestRun =
    if t.isRun = true then max m.longestRun t.width else m.longestRun := by
  unfold add addClass addRun
  cases t.kind.tokenClass <;> cases t.isRun <;> cases countKinds <;> rfl

theorem longRuns_add : (m.add countKinds t).longRuns =
    m.longRuns + if t.isRun = true ∧ Limits.longRun < t.width then 1 else 0 := by
  unfold add addClass addRun
  by_cases hw : Limits.longRun < t.width
  · cases t.kind.tokenClass <;> cases t.isRun <;> cases countKinds <;> simp [hw]
  · cases t.kind.tokenClass <;> cases t.isRun <;> cases countKinds <;> simp [hw]

theorem kinds_add : (m.add countKinds t).kinds =
    if countKinds = true then m.kinds.add t.kind else m.kinds := by
  unfold add addClass addRun
  cases t.kind.tokenClass <;> cases t.isRun <;> cases countKinds <;> rfl

end Add

/-- The numbers count what there is in the tokens of a text with so many characters. -/
structure Exact (m : Metrics) (countKinds : Bool) (characters : Nat) (ts : List Token) : Prop where
  total : m.total = ts.length
  classes : m.total = m.keywords + m.identifiers + m.numbers + m.operators + m.punctuation
  keywords : m.keywords = ts.countP (·.kind.tokenClass = .keyword)
  identifiers : m.identifiers = ts.countP (·.kind.tokenClass = .identifier)
  numbers : m.numbers = ts.countP (·.kind.tokenClass = .literal)
  operators : m.operators = ts.countP (·.kind.tokenClass = .operator)
  punctuation : m.punctuation = ts.countP (·.kind.tokenClass = .punctuation)
  characters : m.characters = characters
  longestRun : m.longestRun =
    ((ts.filter fun t => IsRun t.text.toList).map fun t => t.text.length).max?.getD 0
  longRuns : m.longRuns =
    ts.countP fun t => IsRun t.text.toList ∧ Limits.longRun < t.text.length
  kinds : countKinds = true → ∀ k, m.kinds.lookup k =
    if ∃ t ∈ ts, t.kind = k then some (ts.countP (·.kind = k)) else none
  kinds_nodup : (m.kinds.map Prod.fst).Nodup
  kinds_off : countKinds = false → m.kinds = []

section OfTokens

variable (countKinds : Bool) (n : Nat) (ts : List Token)

theorem total_ofTokens : (ofTokens countKinds n ts).total = ts.length := by
  induction ts using List.reverseRecOn with
  | nil => rfl
  | append_singleton ts t ih =>
    rw [ofTokens_concat, total_add, ih, List.length_append, List.length_singleton]

theorem ofClass_ofTokens {c : TokenClass} (hc : c ≠ .special) :
    (ofTokens countKinds n ts).ofClass c = ts.countP (·.kind.tokenClass = c) := by
  induction ts using List.reverseRecOn with
  | nil => cases c <;> rfl
  | append_singleton ts t ih =>
    rw [ofTokens_concat, ofClass_add _ _ _ hc, ih, List.countP_append, List.countP_singleton]
    simp

/-- No class of tokens is left out, but for the mark of the end. -/
theorem length_eq_countP (h : ∀ t ∈ ts, t.kind.tokenClass ≠ .special) : ts.length =
    ts.countP (·.kind.tokenClass = .keyword) + ts.countP (·.kind.tokenClass = .identifier) +
      ts.countP (·.kind.tokenClass = .literal) + ts.countP (·.kind.tokenClass = .operator) +
      ts.countP (·.kind.tokenClass = .punctuation) := by
  induction ts with
  | nil => rfl
  | cons t ts ih =>
    obtain ⟨ht, hts⟩ := List.forall_mem_cons.mp h
    have hrest := ih hts
    simp only [List.length_cons, List.countP_cons]
    cases hclass : t.kind.tokenClass with
    | special => exact absurd hclass ht
    | keyword | identifier | literal | operator | punctuation =>
      simp
      omega

theorem longestRun_ofTokens : (ofTokens countKinds n ts).longestRun =
    ((ts.filter fun t => t.isRun).map Token.width).max?.getD 0 := by
  have hfold : (ofTokens countKinds n ts).longestRun =
      ((ts.filter fun t => t.isRun).map Token.width).foldl max 0 := by
    induction ts using List.reverseRecOn with
    | nil => rfl
    | append_singleton ts t ih =>
      rw [ofTokens_concat, longestRun_add, ih, List.filter_append, List.map_append,
        List.foldl_append]
      by_cases ht : t.isRun = true <;> simp [ht]
  rw [hfold, List.foldl_max, Nat.zero_max]

theorem longRuns_ofTokens : (ofTokens countKinds n ts).longRuns =
    ts.countP fun t => t.isRun = true ∧ Limits.longRun < t.width := by
  induction ts using List.reverseRecOn with
  | nil => rfl
  | append_singleton ts t ih =>
    rw [ofTokens_concat, longRuns_add, ih, List.countP_append, List.countP_singleton]
    simp

theorem lookup_kinds_ofTokens (k : TokenKind) : (ofTokens true n ts).kinds.lookup k =
    if ∃ t ∈ ts, t.kind = k then some (ts.countP (·.kind = k)) else none := by
  induction ts using List.reverseRecOn with
  | nil => rfl
  | append_singleton ts t ih =>
    rw [ofTokens_concat, kinds_add, if_pos rfl, KindCounts.lookup_add]
    by_cases hk : k = t.kind
    · subst hk
      have hmem : ∃ u ∈ ts ++ [t], u.kind = t.kind := ⟨t, by simp, rfl⟩
      rw [if_pos rfl, if_pos hmem, ih, List.countP_append, List.countP_singleton]
      by_cases hts : ∃ u ∈ ts, u.kind = t.kind
      · simp [hts]
      · have hzero : ts.countP (·.kind = t.kind) = 0 := by
          simpa [List.countP_eq_zero] using hts
        simp [hts, hzero]
    · rw [if_neg hk, ih, List.countP_append, List.countP_singleton]
      simp [Ne.symm hk]

theorem nodup_kinds_ofTokens : ((ofTokens countKinds n ts).kinds.map Prod.fst).Nodup := by
  induction ts using List.reverseRecOn with
  | nil => exact List.nodup_nil
  | append_singleton ts t ih =>
    rw [ofTokens_concat, kinds_add]
    by_cases hc : countKinds = true
    · rw [if_pos hc]
      exact KindCounts.nodup_map_fst_add ih
    · rwa [if_neg hc]

end OfTokens

end Metrics

/-! What the numbers of a token say of its text, if it has been lexed. -/

theorem exists_lexed_of_mem {index : Nat} {p : Position} {chunks : List Chunk} {t : Token}
    (h : t ∈ tokensFrom index p chunks) : ∃ text i q, t = .lexed text i q := by
  induction chunks generalizing index p with
  | nil => simp [tokensFrom] at h
  | cons chunk rest ih =>
    rw [tokensFrom, List.mem_append] at h
    rcases h with h | h
    · by_cases hb : chunk.isBlank = true
      · simp [Chunk.tokens, hb] at h
      · rw [tokens_of_not_blank (Bool.eq_false_iff.mpr hb)] at h
        exact ⟨_, _, _, List.mem_singleton.mp h⟩
    · exact ih h

section OfTokenize

variable {source : String} {ts : List Token} (h : tokenize source = .ok ts)
include h

theorem width_of_tokenize : ∀ t ∈ ts, t.width = t.text.length := by
  intro t ht
  have hmem : t ∈ tokensFrom 0 .start (Chunk.ofText source.toList) := by
    have hts := eq_of_placeAll h
    rwa [List.reverse_nil, List.nil_append] at hts ▸ ht
  obtain ⟨text, i, q, rfl⟩ := exists_lexed_of_mem hmem
  have hne := (tokenize_lexeme h _ ht).ne_nil
  rw [Token.lexed, String.toList_ofList] at hne
  rw [width_lexed hne, Token.lexed, String.length_ofList]

theorem isRun_iff_of_tokenize : ∀ t ∈ ts, t.isRun = true ↔ IsRun t.text.toList := by
  intro t ht
  have hlexeme := tokenize_lexeme h t ht
  rw [Token.isRun]
  constructor
  · intro hrun
    obtain ⟨c, hc, hplain⟩ := (Option.any_eq_true ..).mp hrun
    exact hlexeme.isRun_of_head hc (isPlain_iff.mp hplain)
  · intro hrun
    obtain ⟨c, cs, hcs⟩ := List.exists_cons_of_ne_nil hrun.ne_nil
    have hplain := hrun.plain c (by rw [hcs]; exact .head cs)
    rw [hcs]
    exact isPlain_iff.mpr hplain

theorem tokenClass_of_tokenize : ∀ t ∈ ts, t.kind.tokenClass ≠ .special := by
  have honly (k : TokenKind) (hk : k.tokenClass = .special) : k = .endOfFile := by
    cases k <;> first | rfl | cases hk
  intro t ht hclass
  have hclassified := classified_of_lexeme (tokenize_spelled h t ht) (tokenize_lexeme h t ht)
  exact hclassified.not_end (honly _ hclass)

variable (countKinds : Bool) (n : Nat)

theorem longestRun_of_tokenize : (Metrics.ofTokens countKinds n ts).longestRun =
    ((ts.filter fun t => IsRun t.text.toList).map fun t => t.text.length).max?.getD 0 := by
  have hruns : (ts.filter fun t => t.isRun) = ts.filter fun t => IsRun t.text.toList := by
    apply List.filter_congr
    intro t ht
    rw [Bool.eq_iff_iff, isRun_iff_of_tokenize h t ht, decide_eq_true_iff]
  rw [Metrics.longestRun_ofTokens, hruns]
  congr 2
  apply List.map_congr_left
  intro t ht
  exact width_of_tokenize h t (List.mem_of_mem_filter ht)

theorem longRuns_of_tokenize : (Metrics.ofTokens countKinds n ts).longRuns =
    ts.countP fun t => IsRun t.text.toList ∧ Limits.longRun < t.text.length := by
  rw [Metrics.longRuns_ofTokens]
  apply List.countP_congr
  intro t ht
  rw [width_of_tokenize h t ht, decide_eq_true_iff, decide_eq_true_iff,
    isRun_iff_of_tokenize h t ht]

theorem exact_of_tokenize :
    (Metrics.ofTokens countKinds source.length ts).Exact countKinds source.length ts := by
  have hclass {c : TokenClass} (hc : c ≠ .special) :=
    Metrics.ofClass_ofTokens countKinds source.length ts hc
  have htotal := Metrics.total_ofTokens countKinds source.length ts
  have hkeywords := hclass (c := .keyword) nofun
  have hidentifiers := hclass (c := .identifier) nofun
  have hnumbers := hclass (c := .literal) nofun
  have hoperators := hclass (c := .operator) nofun
  have hpunctuation := hclass (c := .punctuation) nofun
  simp only [Metrics.ofClass] at hkeywords hidentifiers hnumbers hoperators hpunctuation
  constructor
  · exact htotal
  · rw [htotal, hkeywords, hidentifiers, hnumbers, hoperators, hpunctuation]
    exact Metrics.length_eq_countP ts (tokenClass_of_tokenize h)
  · exact hkeywords
  · exact hidentifiers
  · exact hnumbers
  · exact hoperators
  · exact hpunctuation
  · exact Metrics.characters_foldl_add ..
  · exact longestRun_of_tokenize h countKinds source.length
  · exact longRuns_of_tokenize h countKinds source.length
  · rintro rfl k
    exact Metrics.lookup_kinds_ofTokens source.length ts k
  · exact Metrics.nodup_kinds_ofTokens countKinds source.length ts
  · rintro rfl
    exact Metrics.kinds_ofTokens source.length ts

end OfTokenize

/-! Calls. -/

inductive Call where
  | tokenize (elapsed : Nat) (source : String)
  | setPreferences (preferences : LexingPreferences)
deriving DecidableEq, Repr

/-- The preferences behind a call. -/
def Call.after (preferences : LexingPreferences) : Call → LexingPreferences
  | tokenize .. => preferences
  | setPreferences chosen => chosen

namespace Analyzer

def call (a : Analyzer) : Call → Logging (Except Fault Analyzer)
  | .tokenize elapsed source => do
    match ← a.run elapsed source with
    | .ok (_, next) => return .ok next
    | .error f => return .error f
  | .setPreferences preferences => return .ok (a.setPreferences preferences)

def callAll (a : Analyzer) : List Call → Logging (Except Fault Analyzer)
  | [] => return .ok a
  | c :: cs => do
    match ← a.call c with
    | .ok next => next.callAll cs
    | .error f => return .error f

theorem run_result (a : Analyzer) (elapsed : Nat) (source : String) (j : Journal) :
    ((a.run elapsed source).run j).1 = (tokenize source).map fun ts =>
      (ts, idle a.preferences (.ofTokens a.preferences.countKinds source.length ts)) := by
  rw [run_eq, bind_result, lex_result, Lexed.ofText]
  cases tokenize source <;> rfl

/-- Between calls an analyzer holds nothing of the texts but counts. -/
theorem call_idle {preferences : LexingPreferences} {metrics : Metrics} {c : Call} {j : Journal}
    {b : Analyzer} (h : (((idle preferences metrics).call c).run j).1 = .ok b) :
    ∃ counted, b = idle (c.after preferences) counted := by
  cases c with
  | setPreferences chosen =>
    cases h
    exact ⟨metrics, rfl⟩
  | tokenize elapsed source =>
    rw [call, bind_result, run_result] at h
    cases htokens : tokenize source with
    | error f =>
      rw [htokens] at h
      cases h
    | ok ts =>
      rw [htokens] at h
      cases h
      exact ⟨_, rfl⟩

theorem callAll_idle {preferences : LexingPreferences} {metrics : Metrics} {calls : List Call}
    {j : Journal} {b : Analyzer}
    (h : (((idle preferences metrics).callAll calls).run j).1 = .ok b) :
    ∃ counted, b = idle (calls.foldl Call.after preferences) counted := by
  induction calls generalizing preferences metrics j with
  | nil =>
    cases h
    exact ⟨metrics, rfl⟩
  | cons c calls ih =>
    rw [callAll, bind_result] at h
    cases hcall : (((idle preferences metrics).call c).run j).1 with
    | error f =>
      rw [hcall] at h
      cases h
    | ok next =>
      obtain ⟨counted, rfl⟩ := call_idle hcall
      rw [hcall] at h
      exact ih h

end Analyzer

/-- After any calls an analyzer lexes a text as a new one does that has its preferences, and what it
has counted is what there is. -/
theorem reused_analyzer_is_fresh (first : LexingPreferences) (calls : List Call) (a : Analyzer)
    (before : Journal) (h : (((Analyzer.new first).callAll calls).run before).1 = .ok a) :
    let preferences := calls.foldl Call.after first
    a.preferences = preferences ∧ ∀ source elapsed elapsed' j j',
      ((a.run elapsed source).run j).1 =
        (((Analyzer.new preferences).run elapsed' source).run j').1 ∧
      (source.length + 1 < lineBound → ∃ ts b, ((a.run elapsed source).run j).1 = .ok (ts, b)) ∧
      ∀ ts b, ((a.run elapsed source).run j).1 = .ok (ts, b) → tokenize source = .ok ts ∧
        b.preferences = preferences ∧
        b.metrics.Exact preferences.countKinds source.length ts := by
  intro preferences
  have hnew : Analyzer.new first = .idle first .zero := rfl
  rw [hnew] at h
  obtain ⟨counted, rfl⟩ := Analyzer.callAll_idle h
  refine ⟨rfl, fun source elapsed elapsed' j j' => ?_⟩
  rw [Analyzer.run_result, Analyzer.run_result]
  refine ⟨rfl, fun hlength => ?_, fun ts b hrun => ?_⟩
  · obtain ⟨ts, hts⟩ := tokenize_succeeds hlength
    rw [hts]
    exact ⟨ts, _, rfl⟩
  · cases htokens : tokenize source with
    | error f =>
      rw [htokens] at hrun
      cases hrun
    | ok us =>
      rw [htokens] at hrun
      cases hrun
      exact ⟨rfl, rfl, exact_of_tokenize htokens _⟩

theorem reused_analyzer_is_fresh_mark :
    let first : LexingPreferences := ⟨true, false⟩
    let calls : List Call := [.tokenize 3 "print x", .setPreferences ⟨false, false⟩]
    let journal := Journal.empty true
    let used : Analyzer := .idle ⟨false, false⟩
      ⟨2, 1, 1, 0, 0, 0, 5, 0, 7, [(.keyword .printKw, 1), (.identifier, 1)]⟩
    let ts : List Token := [⟨.identifier, "ab", 0, 1, ⟨⟨0, 1, 1⟩, ⟨2, 1, 3⟩⟩⟩,
      ⟨.identifier, "!", 3, 3, ⟨⟨3, 1, 4⟩, ⟨4, 1, 5⟩⟩⟩]
    let next : Analyzer := .idle ⟨false, false⟩ ⟨2, 0, 2, 0, 0, 0, 2, 0, 4, []⟩
    (((Analyzer.new first).callAll calls).run journal).1 = .ok used ∧
      "ab !".length + 1 < lineBound ∧ ((used.run 0 "ab !").run journal).1 = .ok (ts, next) ∧
      (((Analyzer.new ⟨false, false⟩).run 8 "ab !").run journal).1 = .ok (ts, next) ∧
      tokenize "ab !" = .ok ts ∧ next.metrics.Exact false 4 ts := by
  intro first calls journal used ts next
  have hcalls : (((Analyzer.new first).callAll calls).run journal).1 = .ok used := by
    decide +kernel
  have hlength : "ab !".length + 1 < lineBound := by decide +kernel
  have hrun : ((used.run 0 "ab !").run journal).1 = .ok (ts, next) := by decide +kernel
  obtain ⟨-, hall⟩ := reused_analyzer_is_fresh first calls used journal hcalls
  obtain ⟨hfresh, -, hexact⟩ := hall "ab !" 0 8 journal journal
  obtain ⟨htokens, -, hmetrics⟩ := hexact ts next hrun
  exact ⟨hcalls, hlength, hrun, hfresh.symm.trans hrun, htokens, hmetrics⟩

end YupFront
