import YupFront.Lexer.Analyzer
import YupFront.Proofs.Placement

/-! Reading a text character by character. What an analyzer holds while it reads is told from the
tokens behind it and the run that has begun, and in the end it has the tokens that are found by
cutting the text into chunks. -/

namespace YupFront

/-! The texts whose characters, bytes, lines and columns can be counted. -/

/-- A text fits behind character `index` and the position `p`. -/
def Room (index : Nat) (p : Position) (cs : List Char) : Prop :=
  p.advanceBy cs = .ok (p.after cs) ∧ index + cs.length < offsetBound

instance (index : Nat) (p : Position) (cs : List Char) : Decidable (Room index p cs) :=
  inferInstanceAs (Decidable (_ ∧ _))

section Room

variable {index : Nat} {p : Position} {cs ds : List Char}

theorem Position.advanceBy_append (p : Position) (cs ds : List Char) :
    p.advanceBy (cs ++ ds) = (p.advanceBy cs).bind fun q => q.advanceBy ds := by
  induction cs generalizing p with
  | nil => rfl
  | cons c cs ih =>
    rw [List.cons_append, advanceBy, advanceBy]
    cases p.advance c with
    | error f => rfl
    | ok q => exact ih q

theorem Position.advanceBy_fault {f : Fault} (h : p.advanceBy cs = .error f) :
    f = .sumTooLarge := by
  induction cs generalizing p with
  | nil => cases h
  | cons c cs ih =>
    rw [advanceBy, advance] at h
    by_cases hfits : (p.next c).Fits
    · rw [if_pos hfits] at h
      exact ih h
    · rw [if_neg hfits] at h
      cases h
      rfl

theorem Position.advanceBy_cases (p : Position) (cs : List Char) :
    p.advanceBy cs = .ok (p.after cs) ∨ p.advanceBy cs = .error .sumTooLarge := by
  cases h : p.advanceBy cs with
  | ok q => exact .inl (by rw [eq_after_of_advanceBy h])
  | error f => exact .inr (by rw [advanceBy_fault h])

theorem room_append : Room index p (cs ++ ds) ↔
    Room index p cs ∧ Room (index + cs.length) (p.after cs) ds := by
  unfold Room
  rw [Position.advanceBy_append, List.length_append, Position.after_append, ← Nat.add_assoc]
  rcases p.advanceBy_cases cs with h | h
  · rw [h]
    constructor
    · rintro ⟨hrest, hlength⟩
      exact ⟨⟨rfl, by omega⟩, hrest, hlength⟩
    · rintro ⟨-, hrest⟩
      exact hrest
  · rw [h]
    constructor
    · rintro ⟨hrest, -⟩
      cases hrest
    · rintro ⟨⟨hfirst, -⟩, -⟩
      cases hfirst

theorem Span.covering_eq (p : Position) (cs : List Char) :
    covering p cs = (p.advanceBy cs).map fun q => ⟨p, q⟩ := by
  have hle : p.offset ≤ (p.after cs).offset := by
    rw [Position.offset_after]
    exact Nat.le_add_right ..
  unfold covering
  rcases p.advanceBy_cases cs with h | h
  · rw [h]
    exact if_pos hle
  · rw [h]
    rfl

/-- The place behind a text is found, or a number on the way is too large. -/
theorem past_eq (index : Nat) (p : Position) (cs : List Char) : Analyzer.past index p cs =
    if Room index p cs then .ok (index + cs.length, p.after cs) else .error .sumTooLarge := by
  unfold Analyzer.past Room addOffset
  by_cases hlength : index + cs.length < offsetBound
  · rcases p.advanceBy_cases cs with h | h
    · simp [hlength, h, bind, Except.bind, pure, Except.pure]
    · simp [hlength, h, bind, Except.bind]
  · simp [hlength, bind, Except.bind]

theorem room_append_of_room (h : Room index p cs) :
    Room index p (cs ++ ds) ↔ Room (index + cs.length) (p.after cs) ds :=
  room_append.trans (and_iff_right h)

theorem room_nil_of_room (h : Room index p cs) : Room (index + cs.length) (p.after cs) [] :=
  ⟨rfl, h.2⟩

/-- A text that does not fit does not fit either with more behind it. -/
theorem not_room_append (h : ¬ Room index p cs) (ds : List Char) : ¬ Room index p (cs ++ ds) :=
  fun hall => h (room_append.mp hall).1

theorem not_room_cons {c : Char} (h : ¬ Room index p [c]) (cs : List Char) :
    ¬ Room index p (c :: cs) :=
  not_room_append h cs

end Room

/-! Tokens of texts. -/

/-- The token that a text makes at character `index` and at `p`. -/
def Token.lexed (text : List Char) (index : Nat) (p : Position) : Token :=
  ⟨classify (String.ofList text), String.ofList text, index, index + (text.length - 1),
    ⟨p, p.after text⟩⟩

def Analyzer.counted (a : Analyzer) (t : Token) : Analyzer :=
  { a with
    tokens := t :: a.tokens
    metrics := a.metrics.addToken a.preferences.countKinds t }

section Lexed

variable {index : Nat} {p : Position} {text : List Char}

theorem tokens_of_not_blank {chunk : Chunk} (h : chunk.isBlank = false) :
    chunk.tokens index p = [.lexed chunk.text index p] := by
  simp [Chunk.tokens, h, Token.lexed]

theorem emit_eq (a : Analyzer) : a.emit text index p =
    if p.advanceBy text = .ok (p.after text) ∧ index + (text.length - 1) < offsetBound then
      .ok (a.counted (.lexed text index p))
    else .error .sumTooLarge := by
  rcases p.advanceBy_cases text with hp | hp
  · by_cases hlast : index + (text.length - 1) < offsetBound <;>
      simp [Analyzer.emit, Span.covering_eq, hp, Token.make, addOffset, hlast, Except.map, bind,
        Except.bind, pure, Except.pure, Token.lexed, Analyzer.counted]
  · simp [Analyzer.emit, Span.covering_eq, hp, Except.map, bind, Except.bind]

theorem emit_of_room (h : Room index p text) (a : Analyzer) :
    a.emit text index p = .ok (a.counted (.lexed text index p)) := by
  obtain ⟨hp, hlength⟩ := h
  have hlast : index + (text.length - 1) < offsetBound := by omega
  rw [emit_eq, if_pos ⟨hp, hlast⟩]

/-- A token is put out, and the place behind it is found, if the text fits. -/
theorem emit_past {result : Type} (a : Analyzer)
    (next : Analyzer → Nat → Position → Except Fault result) :
    (do
      let b ← a.emit text index p
      let (i, q) ← Analyzer.past index p text
      next b i q) =
    if Room index p text then
      next (a.counted (.lexed text index p)) (index + text.length) (p.after text)
    else .error .sumTooLarge := by
  rw [past_eq]
  by_cases hroom : Room index p text
  · rw [emit_of_room hroom, if_pos hroom, if_pos hroom]
    rfl
  · rw [if_neg hroom, if_neg hroom, emit_eq]
    split <;> rfl

theorem isRun_lexed : (Token.lexed text index p).isRun = text.head?.any isPlain := by
  rw [Token.isRun, Token.lexed, String.toList_ofList]

theorem width_lexed (h : text ≠ []) : (Token.lexed text index p).width = text.length := by
  have hpos := List.length_pos_iff.mpr h
  show index + (text.length - 1) + 1 - index = text.length
  omega

end Lexed

/-! What is counted while a text is read. -/

namespace Metrics

theorem add_eq (countKinds : Bool) (m : Metrics) (t : Token) :
    m.add countKinds t =
      (if t.isRun = true then m.addRun t.width else m).addToken countKinds t := by
  by_cases hrun : t.isRun = true
  · simp only [add, addToken, hrun, if_true, addRun]
    cases t.kind.tokenClass <;> rfl
  · simp only [add, addToken, hrun, Bool.false_eq_true, if_false]

theorem ofTokens_concat (countKinds : Bool) (n : Nat) (ts : List Token) (t : Token) :
    ofTokens countKinds n (ts ++ [t]) = (ofTokens countKinds n ts).add countKinds t :=
  List.foldl_append

theorem withCharacters_ofTokens (countKinds : Bool) (m n : Nat) (ts : List Token) :
    { ofTokens countKinds m ts with characters := n } = ofTokens countKinds n ts := by
  induction ts using List.reverseRecOn with
  | nil => rfl
  | append_singleton ts t ih =>
    rw [ofTokens_concat, ofTokens_concat, ← ih, add_eq, add_eq]
    simp only [addToken, addRun]
    cases t.isRun <;> cases t.kind.tokenClass <;> cases countKinds <;> rfl

end Metrics

namespace Analyzer

/-- The analyzer behind the tokens `ts`, when it has read `run` of a run that begins at character
`index` and at `p`. -/
def reading (preferences : LexingPreferences) (ts : List Token) (index : Nat) (p : Position)
    (run : List Char) : Analyzer where
  preferences := preferences
  metrics := .ofTokens preferences.countKinds 0 ts
  pending := run.reverse
  pendingLength := run.length
  runStart := if run = [] then none else some ⟨index, p⟩
  tokens := ts.reverse

/-- The analyzer behind a text of `characters` characters. -/
def finished (preferences : LexingPreferences) (ts : List Token) (characters : Nat) : Analyzer where
  preferences := preferences
  metrics := .ofTokens preferences.countKinds characters ts
  pending := []
  pendingLength := 0
  runStart := none
  tokens := ts.reverse

section Reading

variable {preferences : LexingPreferences} {ts : List Token} {index : Nat} {p : Position}
  {run cs : List Char} {c d : Char}

theorem reset_eq (a : Analyzer) : a.reset = reading a.preferences [] 0 .start [] := rfl

theorem push_reading :
    (reading preferences ts index p run).push c (index + run.length) (p.after run) =
      reading preferences ts index p (run ++ [c]) := by
  cases run with
  | nil => rfl
  | cons d ds => simp [push, reading]

/-- A token that is no run is only counted. -/
theorem counted_reading {text : List Char} (h : text.head?.any isPlain = false) :
    (reading preferences ts index p []).counted (.lexed text index p) =
      reading preferences (ts ++ [.lexed text index p]) index p [] := by
  have hrun : (Token.lexed text index p).isRun = false := isRun_lexed.trans h
  simp [counted, reading, Metrics.ofTokens_concat, Metrics.add_eq, hrun]

theorem ofText_of_isRun (h : IsRun run) : Chunk.ofText run = [.run run] := by
  obtain ⟨d, ds, rfl⟩ := List.exists_cons_of_ne_nil h.ne_nil
  have hcut : Chunk.cut d (ds ++ []) = (.run (d :: ds), []) := cut_run h (by simp)
  rw [List.append_nil] at hcut
  rw [Chunk.ofText_cons, hcut, Chunk.ofText_nil]

theorem ofText_run_append (hrun : ∀ c ∈ run, Plain c) (hc : ∀ c ∈ cs.head?, ¬ Plain c) :
    Chunk.ofText (run ++ cs) = Chunk.ofText run ++ Chunk.ofText cs := by
  cases run with
  | nil => rw [List.nil_append, Chunk.ofText_nil, List.nil_append]
  | cons d ds =>
    have h : IsRun (d :: ds) := ⟨List.cons_ne_nil d ds, hrun⟩
    rw [ofText_of_isRun h, List.cons_append, Chunk.ofText_cons, cut_run h hc]
    rfl

theorem tokensFrom_run (h : IsRun run) :
    tokensFrom index p (Chunk.ofText run) = [.lexed run index p] := by
  rw [ofText_of_isRun h, tokensFrom, tokensFrom, List.append_nil]
  exact tokens_of_not_blank rfl

/-- At its end a run becomes a token. -/
theorem flush_reading (preferences : LexingPreferences) (ts : List Token)
    (hrun : ∀ c ∈ run, Plain c) (hroom : Room index p run) (i : Nat) (q : Position) :
    (reading preferences ts index p run).flush =
      .ok (reading preferences (ts ++ tokensFrom index p (Chunk.ofText run)) i q []) := by
  by_cases hne : run = []
  · subst hne
    rw [Chunk.ofText_nil, tokensFrom, List.append_nil]
    rfl
  · have hhead : (Token.lexed run index p).isRun = true := by
      obtain ⟨d, ds, rfl⟩ := List.exists_cons_of_ne_nil hne
      exact isRun_lexed.trans (isPlain_iff.mpr (hrun d (.head ds)))
    rw [tokensFrom_run ⟨hne, hrun⟩]
    simp only [flush, reading, if_neg hne, List.reverse_reverse]
    rw [emit_of_room hroom]
    simp [counted, Metrics.ofTokens_concat, Metrics.add_eq, hhead, width_lexed hne]

/-- The chunk that a character is by itself, if it is no part of a run. -/
def single (c : Char) : Chunk := if isSeparator c = true then .blank c else .symbol [c]

theorem cut_single (hc : ¬ Plain c) (hnext : ∀ d ∈ cs.head?, combines c d = false) :
    Chunk.cut c cs = (single c, cs) := by
  have hplain : isPlain c = false := by simpa [← isPlain_iff] using hc
  unfold Chunk.cut single
  by_cases hs : isSeparator c = true
  · rw [if_pos hs, if_pos hs]
  · rw [if_neg hs, if_neg hs]
    by_cases hp : isPunctuation c = true
    · rw [if_pos hp]
    · have hlead : isOperatorLead c = true := by simpa [isPlain, hs, hp] using hplain
      rw [if_neg hp, if_pos hlead]
      apply operator_single
      intro hpair heq
      have hcombines := combines_iff.mpr ⟨hpair, rfl⟩
      rw [hnext '=' heq] at hcombines
      cases hcombines

theorem ofText_run_single (hrun : ∀ c ∈ run, Plain c) (hc : ¬ Plain c)
    (hnext : ∀ d ∈ cs.head?, combines c d = false) :
    Chunk.ofText (run ++ ([c] ++ cs)) = Chunk.ofText run ++ single c :: Chunk.ofText cs := by
  rw [List.singleton_append, ofText_run_append hrun (by simpa using hc), Chunk.ofText_cons,
    cut_single hc hnext]

theorem text_single (c : Char) : (single c).text = [c] := by
  unfold single
  by_cases hs : isSeparator c = true
  · rw [if_pos hs, Chunk.text]
  · rw [if_neg hs, Chunk.text]

/-- The analyzer reads the rest of a text as the chunks are cut, whatever run has begun. -/
def Scans (preferences : LexingPreferences) (cs : List Char) : Prop :=
  ∀ ts index p run, (∀ c ∈ run, Plain c) → Room index p run →
    (reading preferences ts index p run).scan (index + run.length) (p.after run) cs =
      if Room (index + run.length) (p.after run) cs then
        .ok (finished preferences (ts ++ tokensFrom index p (Chunk.ofText (run ++ cs)))
          (index + run.length + cs.length))
      else .error .sumTooLarge

theorem scans_nil (preferences : LexingPreferences) : Scans preferences [] := by
  intro ts index p run hrun hroom
  rw [if_pos (room_nil_of_room hroom), scan, flush_reading preferences ts hrun hroom index p, List.append_nil]
  have hcount := Metrics.withCharacters_ofTokens preferences.countKinds 0 (index + run.length)
    (ts ++ tokensFrom index p (Chunk.ofText run))
  show Except.ok _ = Except.ok _
  simp only [finished, reading, hcount]
  rfl

/-- A chunk that is read behind a run, and then the rest. -/
theorem Scans.chunk (h : Scans preferences cs) (ts : List Token) {chunk : Chunk}
    {text : List Char} (htext : chunk.text = text)
    (hcut : Chunk.ofText (run ++ (text ++ cs)) = Chunk.ofText run ++ chunk :: Chunk.ofText cs)
    (hroom : Room (index + run.length) (p.after run) text) (i : Nat) (q : Position) :
    (reading preferences (ts ++ tokensFrom index p (Chunk.ofText run) ++
        chunk.tokens (index + run.length) (p.after run)) i q []).scan
      (index + run.length + text.length) ((p.after run).after text) cs =
    if Room (index + run.length) (p.after run) (text ++ cs) then
      .ok (finished preferences (ts ++ tokensFrom index p (Chunk.ofText (run ++ (text ++ cs))))
        (index + run.length + (text ++ cs).length))
    else .error .sumTooLarge := by
  have hrest := h (ts ++ tokensFrom index p (Chunk.ofText run) ++
    chunk.tokens (index + run.length) (p.after run)) _ _ [] (by simp)
    (room_nil_of_room hroom)
  have htokens : ts ++ tokensFrom index p (Chunk.ofText run) ++
      chunk.tokens (index + run.length) (p.after run) ++
      tokensFrom (index + run.length + text.length) ((p.after run).after text) (Chunk.ofText cs) =
      ts ++ tokensFrom index p (Chunk.ofText (run ++ (text ++ cs))) := by
    rw [hcut, tokensFrom_append, tokensFrom, Chunk.flatMap_text_ofText, htext]
    simp only [List.append_assoc]
  rw [List.nil_append, htokens] at hrest
  simp only [room_append_of_room hroom, List.length_append, ← Nat.add_assoc]
  exact hrest

theorem scan_cons (hnext : ∀ d ∈ cs.head?, combines c d = false) (a : Analyzer) :
    a.scan index p (c :: cs) = (do
      let b ← a.read c index p
      let (i, q) ← past index p [c]
      b.scan i q cs) := by
  cases cs with
  | nil => rfl
  | cons d ds =>
    have hd : ¬ combines c d = true := by simp [hnext d rfl]
    rw [scan, if_neg hd]

theorem combines_of_not_lead (hc : c ∉ operatorLeads) (d : Char) : combines c d = false := by
  apply Bool.eq_false_iff.mpr
  intro hcombines
  exact hc (mem_operatorLeads_of_pairLeads c (combines_iff.mp hcombines).1)

theorem Scans.plain (h : Scans preferences cs) (hc : Plain c) : Scans preferences (c :: cs) := by
  intro ts index p run hrun hroom
  have hread : (reading preferences ts index p run).read c (index + run.length) (p.after run) =
      .ok (reading preferences ts index p (run ++ [c])) := by
    have hplain := isPlain_iff.mpr hc
    simp only [isPlain, Bool.and_eq_true, Bool.not_eq_true'] at hplain
    obtain ⟨⟨hs, hp⟩, hlead⟩ := hplain
    rw [← push_reading]
    simp [read, hs, hp, hlead]
    rfl
  rw [scan_cons (fun d _ => combines_of_not_lead hc.2.2 d), hread, past_eq]
  by_cases hone : Room (index + run.length) (p.after run) [c]
  · have hlonger : ∀ d ∈ run ++ [c], Plain d := by
      simpa [or_imp, forall_and] using ⟨hrun, hc⟩
    have hrest := h ts index p (run ++ [c]) hlonger (room_append.mpr ⟨hroom, hone⟩)
    have hiff : Room (index + run.length) (p.after run) (c :: cs) ↔
        Room (index + (run ++ [c]).length) (p.after (run ++ [c])) cs := by
      rw [← List.singleton_append, room_append_of_room hone, Position.after_append,
        List.length_append, ← Nat.add_assoc]
    have hlength : index + (run ++ [c]).length + cs.length =
        index + run.length + (c :: cs).length := by
      rw [List.length_append, List.length_singleton, List.length_cons]
      omega
    rw [List.append_assoc, List.singleton_append, hlength] at hrest
    simp only [if_pos hone, hiff]
    rw [← hrest, List.length_append, Position.after_append, Nat.add_assoc]
    rfl
  · rw [if_neg hone, if_neg (not_room_cons hone cs)]
    rfl

theorem Scans.separator (h : Scans preferences cs) (hc : isSeparator c = true) :
    Scans preferences (c :: cs) := by
  intro ts index p run hrun hroom
  have hplain : ¬ Plain c := fun hp => hp.1 (isSeparator_iff.mp hc)
  have hlead : c ∉ operatorLeads := by
    intro hlead
    rw [isSeparator_of_operatorLead c hlead] at hc
    cases hc
  have hnext : ∀ d ∈ cs.head?, combines c d = false := fun d _ => combines_of_not_lead hlead d
  have hread : (reading preferences ts index p run).read c (index + run.length) (p.after run) =
      .ok (reading preferences (ts ++ tokensFrom index p (Chunk.ofText run)) index p []) := by
    rw [read, if_pos hc, flush_reading preferences ts hrun hroom]
  rw [scan_cons hnext, hread, past_eq]
  by_cases hone : Room (index + run.length) (p.after run) [c]
  · have hrest :=
      h.chunk ts (text_single c) (ofText_run_single hrun hplain hnext) hone index p
    have hblank : (single c).tokens (index + run.length) (p.after run) = [] := by
      rw [single, if_pos hc]
      rfl
    rw [hblank, List.append_nil] at hrest
    rw [if_pos hone]
    exact hrest
  · rw [if_neg hone, if_neg (not_room_cons hone cs)]
    rfl

/-- A symbol ends the run, becomes a token and is passed. -/
theorem Scans.symbol (h : Scans preferences cs) (ts : List Token) {text : List Char}
    (hcut : Chunk.ofText (run ++ (text ++ cs)) =
      Chunk.ofText run ++ .symbol text :: Chunk.ofText cs)
    (htext : text.head?.any isPlain = false) (hrun : ∀ c ∈ run, Plain c)
    (hroom : Room index p run) :
    (do
      let a ← (reading preferences ts index p run).flush
      let b ← a.emit text (index + run.length) (p.after run)
      let (i, q) ← past (index + run.length) (p.after run) text
      b.scan i q cs) =
    if Room (index + run.length) (p.after run) (text ++ cs) then
      .ok (finished preferences (ts ++ tokensFrom index p (Chunk.ofText (run ++ (text ++ cs))))
        (index + run.length + (text ++ cs).length))
    else .error .sumTooLarge := by
  have hsymbol : (Chunk.symbol text).tokens (index + run.length) (p.after run) =
      [.lexed text (index + run.length) (p.after run)] := tokens_of_not_blank rfl
  rw [flush_reading preferences ts hrun hroom (index + run.length) (p.after run)]
  show (do
    let b ← (reading preferences (ts ++ tokensFrom index p (Chunk.ofText run)) (index + run.length)
      (p.after run) []).emit text (index + run.length) (p.after run)
    let (i, q) ← past (index + run.length) (p.after run) text
    b.scan i q cs) = _
  rw [emit_past _ fun b i q => b.scan i q cs, counted_reading htext]
  by_cases hone : Room (index + run.length) (p.after run) text
  · have hrest := h.chunk ts (Eq.refl (Chunk.symbol text).text) hcut hone (index + run.length)
      (p.after run)
    rw [hsymbol] at hrest
    rw [if_pos hone]
    exact hrest
  · rw [if_neg hone, if_neg (not_room_append hone cs)]

theorem Scans.mark (h : Scans preferences cs) (hplain : ¬ Plain c) (hs : ¬ isSeparator c = true)
    (hnext : ∀ d ∈ cs.head?, combines c d = false) : Scans preferences (c :: cs) := by
  intro ts index p run hrun hroom
  have hcut : Chunk.ofText (run ++ ([c] ++ cs)) =
      Chunk.ofText run ++ .symbol [c] :: Chunk.ofText cs := by
    rw [ofText_run_single hrun hplain hnext, single, if_neg hs]
  have htext : isPlain c = false := by simpa [← isPlain_iff] using hplain
  have hmark : (isPunctuation c || isOperatorLead c) = true := by
    by_cases hp : isPunctuation c = true
    · rw [hp, Bool.true_or]
    · simpa [isPlain, hs, hp] using htext
  rw [scan_cons hnext]
  simp only [read, if_neg hs, if_pos hmark, bind_assoc]
  exact h.symbol ts hcut htext hrun hroom

theorem Scans.pair (h : Scans preferences cs) (hcd : combines c d = true) :
    Scans preferences (c :: d :: cs) := by
  intro ts index p run hrun hroom
  obtain ⟨hpair, rfl⟩ := combines_iff.mp hcd
  have hlead := mem_operatorLeads_of_pairLeads c hpair
  have hplain := not_plain_of_operatorLead hlead
  have hcut : Chunk.ofText (run ++ ([c, '='] ++ cs)) =
      Chunk.ofText run ++ .symbol [c, '='] :: Chunk.ofText cs := by
    show Chunk.ofText (run ++ c :: '=' :: cs) = _
    rw [ofText_run_append hrun (by simpa using hplain), Chunk.ofText_cons, cut_operator hlead,
      Chunk.operator, if_pos hcd]
  have htext : [c, '='].head?.any isPlain = false := by
    simpa [← isPlain_iff] using hplain
  rw [scan, if_pos hcd]
  exact h.symbol ts hcut htext hrun hroom

theorem scans (preferences : LexingPreferences) (cs : List Char) : Scans preferences cs := by
  have hstep (c : Char) (cs : List Char) (hnext : ∀ d ∈ cs.head?, combines c d = false)
      (h : Scans preferences cs) : Scans preferences (c :: cs) := by
    by_cases hc : Plain c
    · exact h.plain hc
    · by_cases hs : isSeparator c = true
      · exact h.separator hs
      · exact h.mark hc hs hnext
  induction cs using List.twoStepInduction with
  | nil => exact scans_nil preferences
  | singleton c => exact hstep c [] (by simp) (scans_nil preferences)
  | cons_cons c d cs hrest hnext =>
    by_cases hcd : combines c d = true
    · exact hrest.pair hcd
    · exact hstep c (d :: cs) (by simpa using hcd) (hnext d)

end Reading

end Analyzer

/-! Both ways from a text to its tokens. -/

section Tokenize

variable {index : Nat} {p : Position}

theorem placeAll_eq (done : List Token) (h : index < offsetBound) (chunks : List Chunk) :
    placeAll done index p chunks =
      if Room index p (chunks.flatMap Chunk.text) then
        .ok (done.reverse ++ tokensFrom index p chunks)
      else .error .sumTooLarge := by
  induction chunks generalizing done index p with
  | nil =>
    have hroom : Room index p [] := ⟨rfl, h⟩
    rw [List.flatMap_nil, if_pos hroom, placeAll, tokensFrom, List.append_nil]
  | cons chunk rest ih =>
    rw [List.flatMap_cons, placeAll, Span.covering_eq]
    rcases p.advanceBy_cases chunk.text with hp | hp
    · by_cases hlength : index + chunk.text.length < offsetBound
      · have hfirst : Room index p chunk.text := ⟨hp, hlength⟩
        have hlast : index + (chunk.text.length - 1) < offsetBound := by omega
        simp only [hp, Except.map, addOffset_eq_ok hlength, Token.make, String.length_ofList,
          addOffset_eq_ok hlast, room_append_of_room hfirst, ih _ hlength, tokensFrom]
        by_cases hb : chunk.isBlank = true
        · simp [hb, Chunk.tokens]
        · simp [hb, Chunk.tokens]
      · have hroom : ¬ Room index p (chunk.text ++ rest.flatMap Chunk.text) :=
          not_room_append (fun hfirst => hlength hfirst.2) _
        simp [hp, Except.map, addOffset, hlength, hroom]
    · have hfirst : ¬ Room index p chunk.text := by
        rintro ⟨hadvance, -⟩
        rw [hp] at hadvance
        cases hadvance
      rw [hp, if_neg (not_room_append hfirst _)]
      rfl

theorem tokenize_eq_ite (source : String) : tokenize source =
    if Room 0 .start source.toList then .ok (tokensFrom 0 .start (Chunk.ofText source.toList))
    else .error .sumTooLarge := by
  have hzero : 0 < offsetBound := by decide
  have h := placeAll_eq [] hzero (Chunk.ofText source.toList) (p := .start)
  rwa [Chunk.flatMap_text_ofText] at h

/-- Only a text that has more characters than lines and columns have numbers is not lexed. -/
theorem of_tokenize_error {source : String} {f : Fault} (h : tokenize source = .error f) :
    f = .sumTooLarge ∧ lineBound ≤ source.length + 1 := by
  constructor
  · rw [tokenize_eq_ite] at h
    split at h <;> cases h
    rfl
  · apply Nat.le_of_not_lt
    intro hshort
    obtain ⟨ts, hts⟩ := tokenize_succeeds hshort
    rw [h] at hts
    cases hts

end Tokenize

namespace Analyzer

theorem scan_reset (a : Analyzer) (cs : List Char) : a.reset.scan 0 .start cs =
    if Room 0 .start cs then
      .ok (finished a.preferences (tokensFrom 0 .start (Chunk.ofText cs)) cs.length)
    else .error .sumTooLarge := by
  have hempty : Room 0 .start [] := ⟨rfl, by decide⟩
  have h := scans a.preferences cs [] 0 .start [] (by simp) hempty
  rw [List.length_nil, Nat.add_zero, Nat.zero_add] at h
  rw [reset_eq]
  exact h

/-- An analyzer that reads nothing, with the counts of its last text. -/
def idle (preferences : LexingPreferences) (metrics : Metrics) : Analyzer :=
  ⟨preferences, metrics, [], 0, none, []⟩

/-- Whatever an analyzer holds, it comes to what is found by cutting the text first. -/
theorem run_eq (a : Analyzer) (elapsed : Nat) (source : String) :
    a.run elapsed source = do
      match ← lex a.preferences elapsed source with
      | .ok r => return .ok (r.tokens, idle a.preferences r.metrics)
      | .error f => return .error f := by
  have hscan := scan_reset a source.toList
  have htokens := tokenize_eq_ite source
  unfold run lex Lexed.ofText
  rw [hscan, htokens]
  by_cases hroom : Room 0 .start source.toList
  · simp [hroom, finished, idle, String.length_toList]
  · simp [hroom]

end Analyzer

end YupFront
