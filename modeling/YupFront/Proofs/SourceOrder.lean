import YupFront.Proofs.Postcondition

/-! The order of findings. A finding is anchored at the token in front of the cursor, or at the token
behind it, which is then passed; so findings come in the order of their tokens. The exception are blocks
that are not closed: they are told at the end of the tokens, the innermost first. -/

namespace YupFront

/-- The problem is told at a token that is passed because of it. -/
def Problem.skips : Problem → Bool
  | strayToken | strayOperand | nestingTooDeep => true
  | _ => false

def Problem.isUnclosed : Problem → Bool
  | blockUnclosed _ => true
  | _ => false

/-- The problem is told at the token that was passed last. -/
def Problem.LooksBack (p : Problem) : Prop := p.skips = false ∧ p.isUnclosed = false

/-- `f` is told before `g`. -/
def Finding.Precedes (f g : Finding) : Prop :=
  f.anchor.index ≤ g.anchor.index ∧
    (f.problem.skips = true → g.problem.skips = true → f.anchor.index < g.anchor.index)

/-- Findings, the oldest first, that are told on the way from `c` to `d`. -/
structure Inline (c d : Cursor) (fs : List Finding) : Prop where
  anchored : ∀ f ∈ fs, c.tokens[f.anchor.index]? = some f.anchor.token
  within : ∀ f ∈ fs, c.position ≤ f.anchor.index + 1 ∧ f.anchor.index ≤ d.position - 1
  skipped : ∀ f ∈ fs, f.problem.skips = true →
    c.position ≤ f.anchor.index ∧ f.anchor.index < d.position
  closed : ∀ f ∈ fs, f.problem.isUnclosed = false
  ordered : fs.Pairwise Finding.Precedes

/-- The blocks that are open at `d` and not at `c`, the innermost first, if `d` is at the end. -/
structure Closing (c d : Cursor) (fs : List Finding) : Prop where
  anchored : ∀ f ∈ fs, c.tokens[f.anchor.index]? = some f.anchor.token
  within : ∀ f ∈ fs, c.position ≤ f.anchor.index ∧ f.anchor.index < d.position
  unclosed : ∀ f ∈ fs, ∃ block : Block,
    f.problem = .blockUnclosed block ∧ f.anchor.token.kind = .keyword block.keyword
  ordered : fs.Pairwise fun f g => g.anchor.index < f.anchor.index
  atEnd : fs ≠ [] → d.rest = []

namespace Inline

variable {c d e : Cursor} {fs gs : List Finding}

theorem nil (c d : Cursor) : Inline c d [] :=
  ⟨by simp, by simp, by simp, by simp, .nil⟩

theorem append (hcd : c.Reaches d) (hde : d.Reaches e) (hf : Inline c d fs) (hg : Inline d e gs) :
    Inline c e (fs ++ gs) where
  anchored := by
    have htokens := hcd.tokens_eq
    intro f hm
    rcases List.mem_append.mp hm with hm | hm
    · exact hf.anchored f hm
    · rw [htokens]
      exact hg.anchored f hm
  within := by
    have hc := hcd.position_le
    have hd := hde.position_le
    intro f hm
    rcases List.mem_append.mp hm with hm | hm
    · have := hf.within f hm
      omega
    · have := hg.within f hm
      omega
  skipped := by
    have hc := hcd.position_le
    have hd := hde.position_le
    intro f hm hs
    rcases List.mem_append.mp hm with hm | hm
    · have := hf.skipped f hm hs
      omega
    · have := hg.skipped f hm hs
      omega
  closed := by
    intro f hm
    rcases List.mem_append.mp hm with hm | hm
    · exact hf.closed f hm
    · exact hg.closed f hm
  ordered := by
    refine List.pairwise_append.mpr ⟨hf.ordered, hg.ordered, fun f hm g hn => ⟨?_, fun hs ht => ?_⟩⟩
    · have := hf.within f hm
      have := hg.within g hn
      omega
    · have := hf.skipped f hm hs
      have := hg.skipped g hn ht
      omega

end Inline

namespace Closing

variable {c d e : Cursor} {fs : List Finding}

theorem nil (c d : Cursor) : Closing c d [] :=
  ⟨by simp, by simp, by simp, .nil, by simp⟩

theorem of_reaches (hcd : c.Reaches d) (h : Closing d e fs) : Closing c e fs where
  anchored f hf := by
    rw [hcd.tokens_eq]
    exact h.anchored f hf
  within f hf := by
    have hc := hcd.position_le
    have := h.within f hf
    omega
  unclosed := h.unclosed
  ordered := h.ordered
  atEnd := h.atEnd

end Closing

namespace ParseState

/-- Between `s` and `t` findings are noted in the order of their tokens, none of them about an
unclosed block. -/
def Notes (s t : ParseState) : Prop :=
  s.cursor.Reaches t.cursor ∧
    ∃ fs, t.findings = fs.reverse ++ s.findings ∧ Inline s.cursor t.cursor fs

/-- Between `s` and `t` findings are noted in the order of their tokens, and behind them those about
unclosed blocks. -/
def NotesBlocks (s t : ParseState) : Prop :=
  s.cursor.Reaches t.cursor ∧
    ∃ fs gs, t.findings = (fs ++ gs).reverse ++ s.findings ∧
      Inline s.cursor t.cursor fs ∧ Closing s.cursor t.cursor gs

section Notes

variable {s t u : ParseState} {a : Anchor} {problem : Problem}

theorem Notes.of_findings_eq (h : s.cursor.Reaches t.cursor) (hf : t.findings = s.findings) :
    s.Notes t :=
  ⟨h, [], by simp [hf], .nil _ _⟩

theorem Notes.refl (s : ParseState) : s.Notes s := .of_findings_eq (.refl _) rfl

theorem Notes.trans (hst : s.Notes t) (htu : t.Notes u) : s.Notes u := by
  obtain ⟨hr, fs, hf, hi⟩ := hst
  obtain ⟨hr', gs, hg, hi'⟩ := htu
  exact ⟨hr.trans hr', fs ++ gs, by simp [hg, hf], hi.append hr hr' hi'⟩

theorem Notes.passed (h : s.Notes t) : s.Notes t.passed :=
  h.trans (.of_findings_eq t.cursor.reaches_advance rfl)

theorem Notes.of_one (hr : s.cursor.Reaches t.cursor) {f : Finding}
    (hf : t.findings = f :: s.findings) (hi : Inline s.cursor t.cursor [f]) : s.Notes t :=
  ⟨hr, [f], by simp [hf], hi⟩

theorem Notes.record (h : s.Notes t) (hp : problem.LooksBack)
    (ha : t.cursor.previous?.or t.cursor.current? = some a) : s.Notes (t.record problem a) := by
  obtain ⟨hskips, hunclosed⟩ := hp
  have hindex : t.cursor.tokens[a.index]? = some a.token ∧
      t.cursor.position ≤ a.index + 1 ∧ a.index ≤ t.cursor.position - 1 := by
    rcases Option.or_eq_some_iff.mp ha with hb | ⟨hb, hc⟩
    · have := Cursor.index_of_previous? hb
      exact ⟨Cursor.tokens_previous? hb, by omega, by omega⟩
    -- Only at the beginning no token is in front, and the first one stands in for it.
    · have hi := (Cursor.current?_eq_some hc).1
      have hzero : t.cursor.position = 0 := by
        refine Nat.eq_zero_of_not_pos fun hpos => ?_
        obtain ⟨b, hb'⟩ := Cursor.exists_previous? hpos
        simp [hb] at hb'
      exact ⟨Cursor.tokens_current? hc, by omega, by omega⟩
  refine h.trans (.of_one (.refl _) rfl ⟨?_, ?_, ?_, ?_, List.pairwise_singleton _ _⟩) <;>
    simp only [List.mem_singleton, forall_eq]
  · exact hindex.1
  · exact hindex.2
  · simp [hskips]
  · exact hunclosed

theorem Notes.record_previous (h : s.Notes t) (hp : problem.LooksBack)
    (ha : t.cursor.previous? = some a) : s.Notes (t.record problem a) :=
  h.record hp (by simp [ha])

theorem Notes.record_passed (h : s.Notes t) (hp : problem.skips = true)
    (ha : t.cursor.current? = some a) : s.Notes (t.record problem a).passed := by
  have hi := (Cursor.current?_eq_some ha).1
  have hnext : (t.record problem a).passed.cursor.position = t.cursor.position + 1 :=
    Cursor.position_advance ha
  refine h.trans (.of_one t.cursor.reaches_advance rfl
    ⟨?_, ?_, ?_, ?_, List.pairwise_singleton _ _⟩) <;>
    simp only [List.mem_singleton, forall_eq, hnext]
  · exact Cursor.tokens_current? ha
  · omega
  · omega
  · cases problem <;> simp_all [Problem.skips, Problem.isUnclosed]

theorem Notes.blocks (h : s.Notes t) : s.NotesBlocks t := by
  obtain ⟨hr, fs, hf, hi⟩ := h
  exact ⟨hr, fs, [], by simpa using hf, hi, .nil _ _⟩

theorem NotesBlocks.reaches (h : s.NotesBlocks t) : s.cursor.Reaches t.cursor := h.1

theorem Notes.trans_blocks (hst : s.Notes t) (htu : t.NotesBlocks u) : s.NotesBlocks u := by
  obtain ⟨hr, fs, hf, hi⟩ := hst
  obtain ⟨hr', fs', gs, hg, hi', hc⟩ := htu
  exact ⟨hr.trans hr', fs ++ fs', gs, by simp [hg, hf], hi.append hr hr' hi', hc.of_reaches hr⟩

/-- Only at the end of the tokens blocks are left open. -/
theorem NotesBlocks.notes_of_rest (h : s.NotesBlocks t) (hr : t.cursor.rest ≠ []) : s.Notes t := by
  obtain ⟨hreach, fs, gs, hf, hi, hc⟩ := h
  have hg : gs = [] := Classical.byContradiction fun hg => hr (hc.atEnd hg)
  exact ⟨hreach, fs, by simpa [hg] using hf, hi⟩

/-- The block that began at `s` is not closed at the end of the tokens. -/
theorem NotesBlocks.record_unclosed {block : Block} (hs : s.cursor.current? = some a)
    (hk : a.token.kind = .keyword block.keyword) (hst : s.Notes t)
    (hlt : s.cursor.position < t.cursor.position) (htu : t.NotesBlocks u)
    (hend : u.cursor.rest = []) : s.NotesBlocks (u.record (.blockUnclosed block) a) := by
  have hi := (Cursor.current?_eq_some hs).1
  have hle := htu.reaches.position_le
  obtain ⟨hr, fs, hf, hin⟩ := hst
  obtain ⟨hr', fs', gs, hg, hin', hc⟩ := htu
  have hc' := hc.of_reaches hr
  refine ⟨hr.trans hr', fs ++ fs', gs ++ [⟨.blockUnclosed block, a⟩],
    by simp [ParseState.record, hg, hf], hin.append hr hr' hin', ?_, ?_, ?_, ?_, fun _ => hend⟩
  · refine List.forall_mem_append.mpr ⟨hc'.anchored, ?_⟩
    simpa using Cursor.tokens_current? hs
  · refine List.forall_mem_append.mpr ⟨hc'.within, ?_⟩
    simp only [List.mem_singleton, forall_eq]
    exact ⟨by omega, by simp only [ParseState.record]; omega⟩
  · refine List.forall_mem_append.mpr ⟨hc'.unclosed, ?_⟩
    simpa using hk
  · refine List.pairwise_append.mpr ⟨hc'.ordered, List.pairwise_singleton _ _, fun f hf g hg => ?_⟩
    have := hc.within f hf
    rw [List.mem_singleton.mp hg]
    simp only
    omega

end Notes

end ParseState

namespace Rule

/-- The rule notes findings in the order of their tokens, none of them about an unclosed block. -/
def Orderly (r : Rule α) : Prop :=
  ∀ s₀ s : ParseState, s₀.Notes s → r.Ensures s fun _ t => s₀.Notes t

section Orderly

variable {α β : Type} {s₀ s : ParseState}

theorem Orderly.bind {r : Rule α} {f : α → Rule β} (hr : r.Orderly) (hf : ∀ a, (f a).Orderly) :
    (r >>= f).Orderly :=
  fun s₀ s h => (hr s₀ s h).bind fun a t _ ht => hf a s₀ t ht

theorem orderly_pure (a : α) : (pure a : Rule α).Orderly := fun _ _ h => h

theorem Orderly.within {r : Rule α} (h : r.Orderly) (name : NodeKind) : (within name r).Orderly :=
  fun s₀ s hs => h s₀ (s.enter name) hs

theorem orderly_skip : skip.Orderly := fun _ _ h => h.passed

theorem orderly_accept (wanted : TokenKind → Bool) : (accept wanted).Orderly := by
  intro s₀ s h
  refine (ensures_accept wanted s).mono fun o t ht => ?_
  cases ht with
  | taken => exact h.passed
  | refused => exact h

theorem orderly_reportPrevious {problem : Problem} (hp : problem.LooksBack) :
    (reportPrevious problem).Orderly := by
  intro s₀ s h
  unfold reportPrevious
  refine (ensures_look _ s).bind fun o t _ ho => ?_
  obtain ⟨rfl, rfl⟩ := ho
  split
  · next a ha => exact h.record hp ha
  · exact h

/-- A token is missing that has to be there, and the problem is told at the one in front. -/
theorem Ensures.require {kind : TokenKind} {problem : Problem} {anchor : Rule Anchor}
    (h : s₀.Notes s) (hp : problem.LooksBack) (hs : (anchor.run s).2 = s)
    (ha : s.cursor.previous? = some (anchor.run s).1) :
    (require kind problem anchor).Ensures s fun _ t => s₀.Notes t := by
  refine (ensures_require kind problem anchor s).mono fun found t ht => ?_
  cases ht with
  | taken => exact h.passed
  | missing =>
    rw [hs]
    exact h.record_previous hp ha

end Orderly

end Rule

open Rule

section Expression

variable {expression : Rule (Option Node)} {s₀ s : ParseState} {a opening : Anchor}

theorem orderly_chained {operand : Rule (Option Node)} (h : operand.Orderly) (kind : NodeKind)
    (joins : TokenKind → Bool) : (chained kind joins operand).Orderly := by
  refine h.bind fun left s₀ s hs => ?_
  refine ensures_chainOnto (fun left t a ht hc _ => ?_) hs
  exact h s₀ t.passed ht.passed

theorem previous?_of_reaches {t : ParseState} (hc : s.cursor.current? = some a)
    (h : s.passed.cursor.Reaches t.cursor) : ∃ b, t.cursor.previous? = some b := by
  have hp := Cursor.position_advance hc
  have hle : s.passed.cursor.position ≤ t.cursor.position := h.position_le
  exact Cursor.exists_previous? (by change s.cursor.advance.position ≤ _ at hle; omega)

theorem ensures_previousOr {b : Anchor} (h : s.cursor.previous? = some b) (opening : Anchor) :
    (previousOr opening).Ensures s fun o t => o = b ∧ t = s := by
  have ho : s.cursor.previous?.getD opening = b := by simp [h]
  exact ⟨ho, rfl⟩

theorem notes_require_previous {t : ParseState} {kind : TokenKind} {problem : Problem}
    (h : s₀.Notes t) (hp : problem.LooksBack) (hc : s.cursor.current? = some a)
    (hr : s.passed.cursor.Reaches t.cursor) :
    (require kind problem (previousOr opening)).Ensures t fun _ u => s₀.Notes u := by
  obtain ⟨b, hb⟩ := previous?_of_reaches hc hr
  obtain ⟨ho, ht⟩ := ensures_previousOr hb opening
  exact .require h hp ht (by rw [ho]; exact hb)

theorem notes_parenthesised (h : expression.Orderly) (hs : s₀.Notes s) :
    (parenthesised expression).Ensures s fun _ t =>
      s₀.Notes t ∧ s.passed.cursor.Reaches t.cursor := by
  refine .deeper ((ensures_skip _).bind fun _ t _ ht => ?_)
  have hpassed : s₀.Notes t := by
    rw [ht]
    exact hs.passed
  have hcursor : s.passed.cursor = t.cursor := by
    rw [ht]
    rfl
  refine (h s₀ t hpassed).bind fun node u htu hu => ?_
  refine (orderly_accept _ s₀ u hu).bind fun closing v huv hv => ensures_pure ⟨hv, ?_⟩
  rw [hcursor]
  exact htu.reaches.trans huv.reaches

theorem notes_factorFrom {inner : Option (Rule (Option Node))} (h : ∀ e ∈ inner, e.Orderly)
    (hs : s₀.Notes s) (hc : s.cursor.current? = some a) :
    (factorFrom inner a).Ensures s fun _ t => s₀.Notes t := by
  unfold factorFrom
  split
  · exact (orderly_skip s₀ s hs).bind fun _ t _ ht => ensures_pure ht
  · exact (orderly_skip s₀ s hs).bind fun _ t _ ht => ensures_pure ht
  · cases inner with
    | none => exact hs.record_passed rfl hc
    | some expression =>
      have hparens := notes_parenthesised (h expression rfl) hs
      refine hparens.bind fun result t _ ht => ?_
      obtain ⟨node, closing⟩ := result
      cases closing with
      | some closing => exact ensures_pure ht.1
      | none =>
        obtain ⟨b, hb⟩ := previous?_of_reaches hc ht.2
        refine (ensures_previousOr hb a).bind fun o u _ hu => ?_
        obtain ⟨rfl, rfl⟩ := hu
        exact ht.1.record_previous ⟨rfl, rfl⟩ hb
  · refine (ensures_report _ _ s).bind fun _ t _ ht => ?_
    subst ht
    exact hs.record_passed rfl hc

theorem orderly_factor {inner : Option (Rule (Option Node))} (h : ∀ e ∈ inner, e.Orderly) :
    (factor inner).Orderly := by
  intro s₀ s hs
  refine (ensures_look _ s).bind fun o t _ ht => ?_
  obtain ⟨rfl, rfl⟩ := ht
  split
  · have hreport : (reportPrevious .operandMissing).Ensures t fun _ u => s₀.Notes u :=
      orderly_reportPrevious ⟨rfl, rfl⟩ s₀ t hs
    exact hreport.bind fun _ u _ hu => ensures_pure hu
  · next a hc => exact notes_factorFrom h hs hc

theorem orderly_sum {inner : Option (Rule (Option Node))} (h : ∀ e ∈ inner, e.Orderly) :
    (sum inner).Orderly :=
  orderly_chained (orderly_chained (orderly_factor h) _ _) _ _

theorem orderly_expressionAt (level : Nat) : (expressionAt level).Orderly :=
  expressionAt_induction (fun _ => orderly_sum) level

theorem orderly_condition (h : expression.Orderly) : (condition expression).Orderly := by
  refine .within (h.bind fun left => (orderly_accept _).bind fun operator => ?_) _
  cases operator with
  | none => exact (orderly_reportPrevious ⟨rfl, rfl⟩).bind fun _ => orderly_pure none
  | some operator => exact h.bind fun right => orderly_pure _

end Expression

section Statement

variable {expression : Rule (Option Node)} {s₀ s t : ParseState} {a : Anchor}

theorem notes_skip (hs : s₀.Notes s) (hc : s.cursor.current? = some a) :
    skip.Ensures s fun _ t =>
      s₀.Notes t ∧ t.cursor = s.cursor.advance ∧ t.cursor.previous? = some a :=
  ⟨hs.passed, rfl, Cursor.previous?_advance hc⟩

theorem notes_or_else {p : Rule Bool} {r : Rule α} {a : α}
    (hp : p.Ensures s fun _ t => s₀.Notes t)
    (hr : ∀ t, s.Leads t → s₀.Notes t → r.Ensures t fun _ u => s₀.Notes u) :
    (p >>= fun found => if found = true then r else pure a).Ensures s fun _ t => s₀.Notes t :=
  hp.ite hr fun _ ht => ensures_pure ht

theorem notes_declaration (h : expression.Orderly) (hs : s₀.Notes s)
    (hc : s.cursor.current? = some a) :
    (declaration expression a).Ensures s fun _ t => s₀.Notes t := by
  refine .within ((notes_skip (s := s.enter .declaration) hs hc).bind fun _ t _ ht => ?_)
  obtain ⟨hnotes, hcursor, hopening⟩ := ht
  refine (ensures_accept _ t).bind fun o u htu hu => ?_
  cases hu with
  | refused =>
    refine (ensures_report _ _ t).bind fun _ v _ hv => ?_
    subst hv
    exact hnotes.record_previous ⟨rfl, rfl⟩ hopening
  | taken hname =>
    have hassign := Cursor.previous?_advance hname
    refine notes_or_else (.require hnotes.passed ⟨rfl, rfl⟩ rfl hassign) fun v huv hv => ?_
    refine (h s₀ v hv).bind fun value w hvw hw => ?_
    have hreach := (htu.trans (huv.trans hvw)).reaches
    rw [hcursor] at hreach
    exact notes_or_else (notes_require_previous hw ⟨rfl, rfl⟩ hc hreach) fun x _ hx => ensures_pure hx

theorem notes_assignment (h : expression.Orderly) (hs : s₀.Notes s)
    (hc : s.cursor.current? = some a) :
    (assignment expression a).Ensures s fun _ t => s₀.Notes t := by
  refine .within ((notes_skip (s := s.enter .assignment) hs hc).bind fun _ t _ ht => ?_)
  obtain ⟨hnotes, hcursor, hname⟩ := ht
  refine notes_or_else (.require hnotes ⟨rfl, rfl⟩ rfl hname) fun u htu hu => ?_
  refine (h s₀ u hu).bind fun value v huv hv => ?_
  have hreach := (htu.trans huv).reaches
  rw [hcursor] at hreach
  exact notes_or_else (notes_require_previous hv ⟨rfl, rfl⟩ hc hreach) fun w _ hw => ensures_pure hw

theorem notes_printing (h : expression.Orderly) (hs : s₀.Notes s)
    (hc : s.cursor.current? = some a) :
    (printing expression a).Ensures s fun _ t => s₀.Notes t := by
  refine .within ((notes_skip (s := s.enter .printStatement) hs hc).bind fun _ t _ ht => ?_)
  obtain ⟨hnotes, hcursor, hopening⟩ := ht
  refine notes_or_else (.require hnotes ⟨rfl, rfl⟩ rfl hopening) fun u htu hu => ?_
  refine (h s₀ u hu).bind fun value v huv hv => ?_
  have hreach := (htu.trans huv).reaches
  rw [hcursor] at hreach
  refine notes_or_else (notes_require_previous hv ⟨rfl, rfl⟩ hc hreach) fun w hvw hw => ?_
  have hreach := hreach.trans hvw.reaches
  exact notes_or_else (notes_require_previous hw ⟨rfl, rfl⟩ hc hreach) fun x _ hx => ensures_pure hx

/-- Statements note findings in the order of their tokens, and at the end the blocks left open. -/
def Rule.OrderlyBlocks (r : Rule (Except Stall (Option Node))) : Prop :=
  ∀ s₀ s : ParseState, s₀.Notes s →
    r.Ensures s fun result t => (∃ node, result = .ok node) ∧ s₀.NotesBlocks t

theorem notes_gather {one : Rule (Except Stall (Option Node))} (hadv : one.Advances)
    (h : one.OrderlyBlocks) (closes : TokenKind → Bool) (hs : s₀.Notes s) :
    (gather one closes).Ensures s fun result t => ∃ nodes, result = .ok nodes ∧
      s₀.NotesBlocks t ∧ ∀ a, t.cursor.current? = some a → closes a.token.kind = true := by
  have hstep : ∀ (done : List Node) t a, s₀.NotesBlocks t → t.cursor.current? = some a →
      one.Ensures t fun result u => ∃ node, result = .ok node ∧ s₀.NotesBlocks u := by
    intro _ t a ht ha
    -- A token is left, so no block has been left open so far and the order can go on.
    obtain ⟨_, rest, hr⟩ := Cursor.current?_eq_some ha
    have hnotes := ht.notes_of_rest (by simp [hr])
    refine (h s₀ t hnotes).mono fun result u hu => ?_
    obtain ⟨⟨node, hnode⟩, hblocks⟩ := hu
    exact ⟨node, hnode, hblocks⟩
  refine (ensures_gatherOnto hadv hstep hs.blocks).mono fun result t ht => ?_
  obtain ⟨nodes, hnodes, hblocks, hend⟩ := ht
  exact ⟨nodes.reverse, hnodes, hblocks, hend⟩

/-- The brace that closes a block is there unless the tokens are at an end. -/
theorem notes_closing {block : Block} (hc : s.cursor.current? = some a)
    (hk : a.token.kind = .keyword block.keyword) (hs : s.Notes t)
    (hlt : s.cursor.position < t.cursor.position) {u : ParseState} (hu : t.NotesBlocks u)
    (hend : ∀ b, u.cursor.current? = some b → (b.token.kind == .rightBrace) = true) :
    (require .rightBrace (.blockUnclosed block) (pure a)).Ensures u fun _ v =>
      s.NotesBlocks v := by
  refine (ensures_require _ _ _ u).mono fun found v hv => ?_
  cases hv with
  | taken hb =>
    obtain ⟨_, rest, hr⟩ := Cursor.current?_eq_some hb
    exact (hs.trans (hu.notes_of_rest (by simp [hr])).passed).blocks
  | missing hb =>
    have hnone : u.cursor.current? = none := by
      refine Option.eq_none_iff_forall_ne_some.mpr fun b hbc => hb b hbc ?_
      simpa using hend b hbc
    exact .record_unclosed hc hk hs hlt hu (Cursor.current?_eq_none.mp hnone)

theorem notes_blockStatement {one : Rule (Except Stall (Option Node))} (block : Block)
    (he : expression.Orderly) (hadv : one.Advances) (h : one.OrderlyBlocks)
    (hc : s.cursor.current? = some a) (hk : a.token.kind = .keyword block.keyword) :
    (blockStatement block expression one a).Ensures s fun result t =>
      (∃ node, result = .ok node) ∧ s.NotesBlocks t := by
  have hskip : skip.Ensures (ParseState.enter { s with depth := s.depth + 1 } block.nodeKind)
      fun _ t => s.Notes t ∧ t.cursor = s.cursor.advance ∧ t.cursor.previous? = some a :=
    notes_skip (.refl s) hc
  refine .deeper (.within (hskip.bind fun _ t _ ht => ?_))
  obtain ⟨hnotes, hcursor, hopening⟩ := ht
  have hmissing : ∀ u, s.Notes u →
      (pure (.ok none) : Rule (Except Stall (Option Node))).Ensures u fun result v =>
        (∃ node, result = .ok node) ∧ s.NotesBlocks v :=
    fun u hu => ensures_pure ⟨⟨none, rfl⟩, hu.blocks⟩
  refine .ite (.require hnotes ⟨rfl, rfl⟩ rfl hopening) (fun u htu hu => ?_) hmissing
  refine (orderly_condition he s u hu).bind fun test v huv hv => ?_
  have hreach := (htu.trans huv).reaches
  rw [hcursor] at hreach
  refine .ite (notes_require_previous hv ⟨rfl, rfl⟩ hc hreach) (fun w hvw hw => ?_) hmissing
  have hreach := hreach.trans hvw.reaches
  refine .ite (notes_require_previous hw ⟨rfl, rfl⟩ hc hreach) (fun x hwx hx => ?_) hmissing
  have hlt : s.cursor.position < x.cursor.position := by
    have hle := (hreach.trans hwx.reaches).position_le
    have hnext := Cursor.position_advance hc
    omega
  refine (notes_gather hadv h (· == .rightBrace) (.refl x)).bind fun result y _ hy => ?_
  obtain ⟨nodes, rfl, hblocks, hend⟩ := hy
  refine (notes_closing hc hk hx hlt hblocks hend).bind fun found z _ hz => ?_
  cases found with
  | true => exact ensures_pure ⟨⟨_, rfl⟩, hz⟩
  | false => exact ensures_pure ⟨⟨none, rfl⟩, hz⟩

theorem notes_nestedStatement {inner : BlockParts} (h : ∀ parts ∈ inner, PartsHave Orderly OrderlyBlocks parts)
    (block : Block) (hs : s₀.Notes s) (hc : s.cursor.current? = some a)
    (hk : a.token.kind = .keyword block.keyword) :
    (nestedStatement inner block a).Ensures s fun result t =>
      (∃ node, result = .ok node) ∧ s₀.NotesBlocks t := by
  cases inner with
  | none => exact ⟨⟨none, rfl⟩, (hs.record_passed rfl hc).blocks⟩
  | some parts =>
    have hp := h parts rfl
    refine (notes_blockStatement block hp.expression hp.advances hp.statement hc hk).mono
      fun result t ht => ⟨ht.1, hs.trans_blocks ht.2⟩

theorem notes_statementFrom {inner : BlockParts} (he : expression.Orderly)
    (h : ∀ parts ∈ inner, PartsHave Orderly OrderlyBlocks parts) (hs : s₀.Notes s) (hc : s.cursor.current? = some a) :
    (statementFrom expression inner a).Ensures s fun result t =>
      (∃ node, result = .ok node) ∧ s₀.NotesBlocks t := by
  unfold statementFrom
  split
  · exact .map ((notes_declaration he hs hc).mono fun node t ht => ⟨⟨node, rfl⟩, ht.blocks⟩)
  · next hk => exact notes_nestedStatement h .conditional hs hc hk
  · next hk => exact notes_nestedStatement h .loop hs hc hk
  · exact .map ((notes_printing he hs hc).mono fun node t ht => ⟨⟨node, rfl⟩, ht.blocks⟩)
  · exact .map ((notes_assignment he hs hc).mono fun node t ht => ⟨⟨node, rfl⟩, ht.blocks⟩)
  · exact ⟨⟨none, rfl⟩, (hs.record_passed rfl hc).blocks⟩

theorem orderly_statement {inner : BlockParts} (he : expression.Orderly)
    (h : ∀ parts ∈ inner, PartsHave Orderly OrderlyBlocks parts) : (statement expression inner).OrderlyBlocks := by
  intro s₀ s hs
  refine (ensures_look _ s).bind fun o t _ ht => ?_
  obtain ⟨rfl, rfl⟩ := ht
  split
  · exact ensures_pure ⟨⟨none, rfl⟩, hs.blocks⟩
  · next a hc => exact notes_statementFrom he h hs hc

theorem orderly_statementAt (level : Nat) : (statementAt level).OrderlyBlocks :=
  statementAt_induction orderly_expressionAt (fun _ _ => orderly_statement) level

end Statement

/-- All findings of a parse, those about unclosed blocks apart from the others. -/
theorem notesBlocks_runParser (ts : List Token) :
    (ParseState.start ts).NotesBlocks (runParser ts).2 := by
  have hgather := notes_gather (statementAt_proceeds Limits.nesting).advances
    (orderly_statementAt Limits.nesting) (fun _ => false)
    (.refl ((ParseState.start ts).enter .program))
  have hprogram : program.Ensures (.start ts) fun _ t => (ParseState.start ts).NotesBlocks t := by
    refine .within (hgather.bind fun result t _ ht => ?_)
    obtain ⟨nodes, rfl, hblocks, _⟩ := ht
    exact ensures_pure hblocks
  exact hprogram

theorem parse_findings (ts : List Token) :
    ∃ tree fs gs, parse ts = .ok ⟨tree, fs ++ gs⟩ ∧
      Inline (.ofTokens ts) (runParser ts).2.cursor fs ∧
      Closing (.ofTokens ts) (runParser ts).2.cursor gs := by
  obtain ⟨_, fs, gs, hf, hi, hc⟩ := notesBlocks_runParser ts
  obtain ⟨statements, htree, _⟩ := program_ends (.start ts)
  have hstart : (ParseState.start ts).findings = [] := rfl
  rw [hstart, List.append_nil] at hf
  refine ⟨.root statements, fs, gs, ?_, hi, hc⟩
  rw [parse_of_runParser htree, hf, List.reverse_reverse]

theorem anchored_of_parse {ts : List Token} {parsed : Parsed} (h : parse ts = .ok parsed) :
    ∀ f ∈ parsed.findings, ts[f.anchor.index]? = some f.anchor.token := by
  obtain ⟨tree, fs, gs, hparse, hi, hc⟩ := parse_findings ts
  have htokens : (Cursor.ofTokens ts).tokens = ts := rfl
  have heq : parsed = ⟨tree, fs ++ gs⟩ := Except.ok.inj (h.symm.trans hparse)
  rw [heq]
  refine List.forall_mem_append.mpr ⟨fun f hf => ?_, fun f hf => ?_⟩
  · simpa [htokens] using hi.anchored f hf
  · simpa [htokens] using hc.anchored f hf

/-! The same of diagnostics, which are told in words. -/

def quotingLeads : List String := ["Unexpected token: ", "Unexpected token in factor: "]

/-- A message quotes the text of its token, or does not depend on it. -/
theorem message_cases (p : Problem) :
    (p.isUnclosed = false ∧ ∃ lead ∈ quotingLeads, ∀ text, p.message text = lead ++ text) ∨
      ∀ text, p.message text = p.message "" := by
  cases p with
  | strayToken => exact .inl ⟨rfl, _, .head _, fun _ => rfl⟩
  | strayOperand => exact .inl ⟨rfl, _, .tail _ (.head _), fun _ => rfl⟩
  | _ => exact .inr fun _ => rfl

/-- How a message begins that tells of an unclosed block. -/
def unclosedLead : List Char := "Expected '\x7d' to close ".toList

theorem not_unclosedLead_isPrefix {lead : String} (h : lead ∈ quotingLeads) (text : String) :
    ¬ unclosedLead <+: (lead ++ text).toList := by
  have hfirst : unclosedLead.head? = some 'E' := by decide +kernel
  have hleads : ∀ lead ∈ quotingLeads, lead.toList.head? = some 'U' := by decide +kernel
  rintro ⟨rest, hr⟩
  have heq := congrArg List.head? hr
  rw [String.toList_append, List.head?_append, List.head?_append, hfirst, hleads lead h] at heq
  simp at heq

theorem unclosedLead_isPrefix_iff (text : String) (p : Problem) :
    unclosedLead <+: (p.message text).toList ↔ p.isUnclosed = true := by
  rcases message_cases p with ⟨hp, lead, hlead, hmessage⟩ | hmessage
  · rw [hmessage text]
    exact iff_of_false (not_unclosedLead_isPrefix hlead text) (by simp [hp])
  · rw [hmessage text]
    clear hmessage
    cases p with
    | blockUnclosed block | blockWithoutParen block | blockWithoutBrace block =>
      cases block <;> decide +kernel
    | _ => decide +kernel

theorem skips_iff (p : Problem) : p.skips = true ↔ p.code.text ∈ ["E044", "E050", "E087"] := by
  cases p <;> simp [Problem.skips, Problem.code, Code.unexpectedToken, Code.missingToken,
    Code.unclosedDelimiter, Code.missingRelation, Code.invalidFactor, Code.unexpectedEnd,
    Code.nestingTooDeep]

/-- The diagnostic is about the token and tells its place. -/
def Diagnostic.AnchoredAt (mode : PositionMode) (d : Diagnostic) (t : Token) : Prop :=
  d.span = t.span ∧ (d.line, d.column) = mode.locate t

def Diagnostic.TellsUnclosed (d : Diagnostic) : Prop := unclosedLead <+: d.message.toList

/-- Its token was passed because of it. -/
def Diagnostic.tellsSkipped (d : Diagnostic) : Bool := d.code.text ∈ ["E044", "E050", "E087"]

def Finding.indexed (mode : PositionMode) (f : Finding) : Nat × Diagnostic :=
  (f.anchor.index, f.diagnostic mode)

theorem indexed_tellsSkipped (mode : PositionMode) (f : Finding) :
    (f.indexed mode).2.tellsSkipped = f.problem.skips := by
  rw [Bool.eq_iff_iff, skips_iff]
  exact decide_eq_true_iff

theorem nodup_skipped (mode : PositionMode) {c d e : Cursor} {fs gs : List Finding}
    (hi : Inline c d fs) (hc : Closing c e gs) :
    ((((fs ++ gs).map (Finding.indexed mode)).filter fun p => p.2.tellsSkipped).map
      Prod.fst).Nodup := by
  have hskips : ((fun p : Nat × Diagnostic => p.2.tellsSkipped) ∘ Finding.indexed mode) =
      fun f => f.problem.skips := funext (indexed_tellsSkipped mode)
  have hgs : gs.filter (fun f => f.problem.skips) = [] := by
    refine List.filter_eq_nil_iff.mpr fun f hf => ?_
    obtain ⟨block, hp, _⟩ := hc.unclosed f hf
    simp [hp, Problem.skips]
  have hfs : (fs.filter fun f => f.problem.skips).Pairwise
      fun f g => f.anchor.index < g.anchor.index :=
    List.pairwise_filter.mpr (hi.ordered.imp fun h hf hg => h.2 hf hg)
  rw [List.filter_map, List.map_map, hskips, List.filter_append, hgs, List.append_nil]
  exact List.pairwise_map.mpr (hfs.imp Nat.ne_of_lt)

/-- Diagnostics come in the order of the tokens they are anchored at. Those about blocks that are not
closed come last, the innermost block first, and no token is passed twice because of a problem. -/
theorem diagnostics_in_source_order (mode : PositionMode) (ts : List Token) :
    ∃ parsed, parse ts = .ok parsed ∧
      ∃ inline closing : List (Nat × Diagnostic),
        parsed.diagnostics mode = (inline ++ closing).map Prod.snd ∧
        (∀ p ∈ inline ++ closing, ∃ t, ts[p.1]? = some t ∧ p.2.AnchoredAt mode t) ∧
        (inline.map Prod.fst).Pairwise (· ≤ ·) ∧
        (∀ p ∈ inline, ¬ p.2.TellsUnclosed) ∧
        (closing.map Prod.fst).Pairwise (· > ·) ∧
        (∀ p ∈ closing, p.2.TellsUnclosed ∧ ∃ t block, ts[p.1]? = some t ∧
          t.kind = .keyword (Block.keyword block) ∧
          p.2.message = "Expected '\x7d' to close " ++ block.keyword.word ++ " statement") ∧
        (((inline ++ closing).filter fun p => p.2.tellsSkipped).map Prod.fst).Nodup := by
  obtain ⟨tree, fs, gs, hparse, hi, hc⟩ := parse_findings ts
  have hanchored := anchored_of_parse hparse
  refine ⟨_, hparse, fs.map (Finding.indexed mode), gs.map (Finding.indexed mode), ?_⟩
  rw [← List.map_append]
  refine ⟨?_, ?_, ?_, ?_, ?_, ?_, nodup_skipped mode hi hc⟩
  · rw [List.map_map]
    rfl
  · refine List.forall_mem_map.mpr fun f hf => ?_
    exact ⟨f.anchor.token, hanchored f hf, rfl, rfl⟩
  · exact List.pairwise_map.mpr (List.pairwise_map.mpr (hi.ordered.imp fun h => h.1))
  · refine List.forall_mem_map.mpr fun f hf => ?_
    have hopen := hi.closed f hf
    have hiff := unclosedLead_isPrefix_iff f.anchor.token.text f.problem
    exact fun h => by simp [hiff.mp h] at hopen
  · exact List.pairwise_map.mpr (List.pairwise_map.mpr (hc.ordered.imp fun h => h))
  · refine List.forall_mem_map.mpr fun f hf => ?_
    obtain ⟨block, hp, hk⟩ := hc.unclosed f hf
    have hiff := unclosedLead_isPrefix_iff f.anchor.token.text f.problem
    have hunclosed : f.problem.isUnclosed = true := by
      rw [hp]
      rfl
    have hmessage : (f.indexed mode).2.message = f.problem.message f.anchor.token.text := rfl
    rw [hp] at hmessage
    exact ⟨hiff.mpr hunclosed, f.anchor.token, block, hanchored f (List.mem_append_right _ hf), hk,
      hmessage⟩

end YupFront
