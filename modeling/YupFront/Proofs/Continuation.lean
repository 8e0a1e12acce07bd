import YupFront.Proofs.Completeness
import YupFront.Proofs.Excerpts
import YupFront.Proofs.Payload

/-! A parse that goes on behind other tokens. What lies in front of the statement at hand is seen
only as the token that was passed last, and that is one of the statement's own. So a program that is
found to be correct can stand in front of any tokens, and these are parsed as if it were not there. -/

namespace YupFront

/-- The anchor behind `n` more tokens. -/
def Anchor.shift (n : Nat) (a : Anchor) : Anchor := ⟨a.index + n, a.token⟩

def Finding.shift (n : Nat) (x : Finding) : Finding := ⟨x.problem, x.anchor.shift n⟩

theorem Finding.diagnostic_shift (mode : PositionMode) (n : Nat) (x : Finding) :
    (x.shift n).diagnostic mode = x.diagnostic mode := rfl

variable {front : List Token}

namespace Cursor

/-- The place `d` is `c` with the tokens `front` put before everything. -/
structure Behind (front : List Token) (c d : Cursor) : Prop where
  before : d.before = c.before ++ front.reverse
  rest : d.rest = c.rest

namespace Behind

variable {c d : Cursor}

theorem position (h : c.Behind front d) : d.position = c.position + front.length := by
  rw [d.position_eq, c.position_eq, h.before, List.length_append, List.length_reverse]

theorem current? (h : c.Behind front d) :
    d.current? = c.current?.map (Anchor.shift front.length) := by
  simp [Cursor.current?, h.rest, h.position, Anchor.shift, Function.comp_def]

/-- Behind a token that was passed, what lies further in front is not seen. -/
theorem previous? (h : c.Behind front d) (hc : c.before ≠ []) :
    d.previous? = c.previous?.map (Anchor.shift front.length) := by
  obtain ⟨t, before, hb⟩ := List.exists_cons_of_ne_nil hc
  have hp : c.position = before.length + 1 := by rw [c.position_eq, hb, List.length_cons]
  have hd : d.position - 1 = before.length + front.length := by
    rw [h.position, hp]
    omega
  simp [Cursor.previous?, h.before, hb, hd, hp, Anchor.shift]

theorem advance (h : c.Behind front d) : c.advance.Behind front d.advance := by
  cases hr : c.rest with
  | nil =>
    have hd : d.rest = [] := h.rest.trans hr
    simpa [Cursor.advance, hr, hd] using h
  | cons t rest =>
    have hd : d.rest = t :: rest := h.rest.trans hr
    constructor
    · simp [Cursor.advance, hr, hd, h.before]
    · simp [Cursor.advance, hr, hd]

end Behind

end Cursor

namespace ParseState

/-- The state `t` is `s` with the tokens `front` put before everything. What is kept for the log
only is left out. -/
structure Behind (front : List Token) (s t : ParseState) : Prop where
  cursor : s.cursor.Behind front t.cursor
  findings : t.findings = s.findings.map (Finding.shift front.length)

/-- A token has been passed. -/
def Begun (s : ParseState) : Prop := s.cursor.before ≠ []

variable {s t : ParseState}

theorem Behind.passed (h : s.Behind front t) : s.passed.Behind front t.passed :=
  ⟨h.cursor.advance, h.findings⟩

theorem Behind.record (h : s.Behind front t) (problem : Problem) (a : Anchor) :
    (s.record problem a).Behind front (t.record problem (a.shift front.length)) where
  cursor := h.cursor
  findings := by simp [ParseState.record, h.findings, Finding.shift]

theorem Begun.leads (h : s.Begun) (hst : s.Leads t) : t.Begun := by
  obtain ⟨used, -, hbefore⟩ := hst.reaches
  unfold Begun at h ⊢
  rw [hbefore]
  exact List.append_ne_nil_of_right_ne_nil _ h

theorem begun_passed {a : Anchor} (h : s.cursor.current? = some a) : s.passed.Begun := by
  obtain ⟨-, rest, hr⟩ := Cursor.current?_eq_some h
  simp [Begun, ParseState.passed, Cursor.advance, hr]

end ParseState

namespace Rule

/-- The rule `q`, behind the tokens `front`, does what `r` does from `s`, and its result is that of
`r` as it is viewed. -/
def Repeats (front : List Token) (s : ParseState) (r : Rule α) (q : Rule β) (view : α → β) : Prop :=
  ∀ t, s.Behind front t → (q.run t).1 = view (r.run s).1 ∧ (r.run s).2.Behind front (q.run t).2

def anchorBehind (front : List Token) (o : Option Anchor) : Option Anchor :=
  o.map (Anchor.shift front.length)

section Repeats

variable {α β γ δ : Type} {s : ParseState} {view : α → β} {view' : γ → δ}

theorem repeats_pure {a : α} {b : β} (h : b = view a) :
    Repeats front s (pure a) (pure b) view :=
  fun _ ht => ⟨h, ht⟩

theorem repeats_none (s : ParseState) :
    Repeats front s (pure none) (pure none) (id : Option Node → Option Node) :=
  repeats_pure rfl

theorem Repeats.of_run_eq {r r' : Rule α} {q q' : Rule β} (hr : r.run s = r'.run s)
    (hq : ∀ t, s.Behind front t → q.run t = q'.run t) (h : Repeats front s r' q' view) :
    Repeats front s r q view := by
  intro t ht
  rw [hr, hq t ht]
  exact h t ht

theorem Repeats.bind {r : Rule α} {q : Rule β} {k : α → Rule γ} {l : β → Rule δ}
    (h : Repeats front s r q view)
    (hk : ∀ a u, s.Leads u → Repeats front u (k a) (l (view a)) view') :
    Repeats front s (r >>= k) (q >>= l) view' := by
  intro t ht
  obtain ⟨hresult, hstate⟩ := h t ht
  rw [run_bind, run_bind, hresult]
  exact hk _ _ (r.leads s) _ hstate

theorem Repeats.within {r : Rule α} {q : Rule β} {name : NodeKind}
    (h : Repeats front (s.enter name) r q view) :
    Repeats front s (within name r) (within name q) view := by
  intro t ht
  obtain ⟨hresult, hstate⟩ := h (t.enter name) ⟨ht.cursor, ht.findings⟩
  exact ⟨hresult, hstate.cursor, hstate.findings⟩

theorem Repeats.deeper {r : Rule α} {q : Rule β}
    (h : Repeats front { s with depth := s.depth + 1 } r q view) :
    Repeats front s r.deeper q.deeper view := by
  intro t ht
  obtain ⟨hresult, hstate⟩ := h { t with depth := t.depth + 1 } ⟨ht.cursor, ht.findings⟩
  exact ⟨hresult, hstate.cursor, hstate.findings⟩

theorem repeats_peek_bind {k : Option Anchor → Rule α} {l : Option Anchor → Rule β}
    (hnone : Repeats front s (k none) (l none) view)
    (hsome : ∀ a, s.cursor.current? = some a →
      Repeats front s (k (some a)) (l (some (a.shift front.length))) view) :
    Repeats front s (peek >>= k) (peek >>= l) view := by
  intro t ht
  have hcurrent := ht.cursor.current?
  change ((l t.cursor.current?).run t).1 = view ((k s.cursor.current?).run s).1 ∧
    ((k s.cursor.current?).run s).2.Behind front ((l t.cursor.current?).run t).2
  rw [hcurrent]
  cases hc : s.cursor.current? with
  | none => exact hnone t ht
  | some a => exact hsome a hc t ht

theorem repeats_previousOr (hs : s.Begun) (a : Anchor) :
    Repeats front s (previousOr a) (previousOr (a.shift front.length))
      (Anchor.shift front.length) := by
  intro t ht
  refine ⟨?_, ht⟩
  have hprevious := ht.cursor.previous? hs
  change t.cursor.previous?.getD _ = Anchor.shift _ (s.cursor.previous?.getD a)
  rw [hprevious]
  cases s.cursor.previous? <;> rfl

theorem repeats_report (problem : Problem) (a : Anchor) (s : ParseState) :
    Repeats front s (report problem a) (report problem (a.shift front.length)) id :=
  fun _ ht => ⟨rfl, ht.record problem a⟩

theorem repeats_refuse (a : Anchor) (s : ParseState) :
    Repeats front s (refuse a) (refuse (a.shift front.length)) id := by
  intro t ht
  have h := (ht.record .nestingTooDeep a).passed
  exact ⟨rfl, h.cursor, h.findings⟩

theorem repeats_reportPrevious (hs : s.Begun) (problem : Problem) :
    Repeats front s (reportPrevious problem) (reportPrevious problem) id := by
  have hlook : Repeats front s previousOrFirst previousOrFirst (anchorBehind front) := by
    intro t ht
    refine ⟨?_, ht⟩
    have hprevious := ht.cursor.previous? hs
    have hcurrent := ht.cursor.current?
    change t.cursor.previous?.or t.cursor.current? =
      (s.cursor.previous?.or s.cursor.current?).map (Anchor.shift front.length)
    rw [hprevious, hcurrent]
    cases s.cursor.previous? <;> rfl
  refine hlook.bind fun o u _ => ?_
  cases o with
  | none => exact repeats_pure rfl
  | some a => exact repeats_report problem a u

theorem repeats_skip_bind {k : Unit → Rule α} {l : Unit → Rule β}
    (h : Repeats front s.passed (k ()) (l ()) view) :
    Repeats front s (skip >>= k) (skip >>= l) view :=
  fun t ht => h t.passed ht.passed

theorem run_accept_some {wanted : TokenKind → Bool} {a : Anchor} (h : s.cursor.current? = some a)
    (hw : wanted a.token.kind = true) : (accept wanted).run s = (some a, s.passed) := by
  simp [accept, Cursor.accept, h, hw, ParseState.passed]

theorem run_accept_none {wanted : TokenKind → Bool}
    (h : ∀ a, s.cursor.current? = some a → wanted a.token.kind = false) :
    (accept wanted).run s = (none, s) := by
  cases hc : s.cursor.current? with
  | none => simp [accept, Cursor.accept, hc]
  | some a => simp [accept, Cursor.accept, hc, h a hc]

theorem repeats_accept_bind {wanted : TokenKind → Bool} {k : Option Anchor → Rule α}
    {l : Option Anchor → Rule β} (hnone : Repeats front s (k none) (l none) view)
    (hsome : ∀ a, s.cursor.current? = some a → wanted a.token.kind = true →
      Repeats front s.passed (k (some a)) (l (some (a.shift front.length))) view) :
    Repeats front s (accept wanted >>= k) (accept wanted >>= l) view := by
  intro t ht
  have hcurrent := ht.cursor.current?
  rw [run_bind, run_bind]
  by_cases htaken : ∃ a, s.cursor.current? = some a ∧ wanted a.token.kind = true
  · obtain ⟨a, ha, hw⟩ := htaken
    rw [ha] at hcurrent
    rw [run_accept_some ha hw, run_accept_some hcurrent hw]
    exact hsome a ha hw _ ht.passed
  · have hrefused : ∀ a, s.cursor.current? = some a → wanted a.token.kind = false := by
      intro a ha
      exact Bool.eq_false_iff.mpr fun hw => htaken ⟨a, ha, hw⟩
    have hrefused' : ∀ b, t.cursor.current? = some b → wanted b.token.kind = false := by
      intro b hb
      rw [hcurrent] at hb
      obtain ⟨a, ha, rfl⟩ := Option.map_eq_some_iff.mp hb
      exact hrefused a ha
    rw [run_accept_none hrefused, run_accept_none hrefused']
    exact hnone t ht

theorem repeats_require {kind : TokenKind} {problem : Problem} {anchor anchor' : Rule Anchor}
    (h : Repeats front s anchor anchor' (Anchor.shift front.length)) :
    Repeats front s (require kind problem anchor) (require kind problem anchor') id := by
  refine repeats_accept_bind ?_ fun a _ _ => repeats_pure rfl
  refine h.bind fun a u _ => ?_
  exact (repeats_report problem a u).bind fun _ v _ => repeats_pure rfl

theorem repeats_require_bind {kind : TokenKind} {problem : Problem} {anchor anchor' : Rule Anchor}
    {r q : Rule α} {r' q' : Rule β} (hs : s.Begun)
    (h : Repeats front s anchor anchor' (Anchor.shift front.length))
    (hr : ∀ u, u.Begun → Repeats front u r r' view) (hq : ∀ u, Repeats front u q q' view) :
    Repeats front s (require kind problem anchor >>= fun found => if found = true then r else q)
      (require kind problem anchor' >>= fun found => if found = true then r' else q') view := by
  refine (repeats_require h).bind fun found u hu => ?_
  cases found with
  | true => exact hr u (hs.leads hu)
  | false => exact hq u

end Repeats

/-- Behind any tokens the rule does the same, once a token has been passed. -/
def Local (r : Rule (Option Node)) : Prop :=
  ∀ (front : List Token) (s : ParseState), s.Begun → Repeats front s r r id

theorem Local.bind {α β : Type} {r : Rule (Option Node)} {k : Option Node → Rule α}
    {l : Option Node → Rule β} {s : ParseState} {view : α → β} (h : r.Local) (hs : s.Begun)
    (hk : ∀ node u, u.Begun → Repeats front u (k node) (l node) view) :
    Repeats front s (r >>= k) (r >>= l) view :=
  (h front s hs).bind fun node u hu => hk node u (hs.leads hu)

end Rule

open Rule

section Expression

variable {kind : NodeKind} {joins : TokenKind → Bool} {operand expression : Rule (Option Node)}
  {s : ParseState}

theorem repeats_chainOnto (h : operand.Local) (left : Option Node) (hs : s.Begun) :
    Repeats front s (chainOnto kind joins operand left) (chainOnto kind joins operand left) id := by
  -- Each operand leaves fewer tokens, so the induction is on how many are left.
  induction hn : s.cursor.rest.length using Nat.strongRecOn generalizing s left with
  | ind n ih =>
    rw [chainOnto_eq]
    refine repeats_accept_bind (repeats_pure rfl) fun a ha _ => ?_
    have hpassed := ParseState.begun_passed ha
    refine (h front s.passed hpassed).bind fun right u hu => ?_
    have hlt : s.passed.cursor.rest.length < s.cursor.rest.length :=
      Cursor.rest_length_advance_lt ha
    have hle := hu.reaches.rest_length_le
    exact ih _ (by omega) _ (hpassed.leads hu) rfl

theorem chained_local (h : operand.Local) : (chained kind joins operand).Local :=
  fun _ _ hs => h.bind hs fun left _ hu => repeats_chainOnto h left hu

def parensBehind (front : List Token) (result : Option Node × Option Anchor) :
    Option Node × Option Anchor :=
  (result.1, anchorBehind front result.2)

theorem repeats_parenthesised (h : expression.Local) {a : Anchor}
    (ha : s.cursor.current? = some a) :
    Repeats front s (parenthesised expression) (parenthesised expression) (parensBehind front) := by
  let inside : ParseState := { s with depth := s.depth + 1 }
  have hpassed : inside.passed.Begun := ParseState.begun_passed ha
  refine .deeper (repeats_skip_bind ?_)
  refine h.bind hpassed fun node u _ => ?_
  exact repeats_accept_bind (repeats_pure rfl) fun closing _ _ => repeats_pure rfl

theorem repeats_factorFrom {inner : Option (Rule (Option Node))} (h : ∀ e ∈ inner, e.Local)
    (hs : s.Begun) {a : Anchor} (ha : s.cursor.current? = some a) :
    Repeats front s (factorFrom inner a) (factorFrom inner (a.shift front.length)) id := by
  have hother : Repeats front s (do report .strayOperand a; skip; pure none)
      (do report .strayOperand (a.shift front.length); skip; pure none)
      (id : Option Node → Option Node) := by
    refine (repeats_report _ a s).bind fun _ u _ => ?_
    exact repeats_skip_bind (repeats_pure rfl)
  have hleaf : ∀ kind, Repeats front s (do skip; pure (some (.leaf kind a.token)))
      (do skip; pure (some (.leaf kind a.token))) (id : Option Node → Option Node) :=
    fun kind => repeats_skip_bind (repeats_pure rfl)
  cases hk : a.token.kind with
  | leftParen =>
    cases inner with
    | none =>
      simp only [factorFrom, Anchor.shift, hk]
      exact (repeats_refuse a s).bind fun _ u _ => repeats_none u
    | some expression =>
      have hk' : (a.shift front.length).token.kind = .leftParen := hk
      rw [factorFrom_leftParen hk, factorFrom_leftParen hk']
      refine (repeats_parenthesised (h expression rfl) ha).bind fun result u hu => ?_
      obtain ⟨node, closing⟩ := result
      cases closing with
      | some closing => exact repeats_pure rfl
      | none =>
        refine (repeats_previousOr (hs.leads hu) a).bind fun c v _ => ?_
        exact (repeats_report _ c v).bind fun _ w _ => repeats_none w
  | number =>
    simp only [factorFrom, Anchor.shift, hk]
    exact hleaf .number
  | identifier =>
    simp only [factorFrom, Anchor.shift, hk]
    exact hleaf .identifier
  | _ =>
    simp only [factorFrom, Anchor.shift, hk]
    exact hother

theorem factor_local {inner : Option (Rule (Option Node))} (h : ∀ e ∈ inner, e.Local) :
    (factor inner).Local := by
  intro front s hs
  refine repeats_peek_bind ?_ fun a ha => repeats_factorFrom h hs ha
  exact (repeats_reportPrevious hs _).bind fun _ u _ => repeats_none u

theorem sum_local {inner : Option (Rule (Option Node))} (h : ∀ e ∈ inner, e.Local) :
    (sum inner).Local :=
  chained_local (chained_local (factor_local h))

theorem expressionAt_local (level : Nat) : (expressionAt level).Local :=
  expressionAt_induction (fun _ => sum_local) level

theorem condition_local (h : expression.Local) : (condition expression).Local := by
  intro front s hs
  have hinside : (s.enter .condition).Begun := hs
  refine .within (h.bind hinside fun left u hu => ?_)
  refine repeats_accept_bind ?_ fun operator ha _ => ?_
  · exact (repeats_reportPrevious hu _).bind fun _ v _ => repeats_none v
  · exact h.bind (ParseState.begun_passed ha) fun right v _ => repeats_pure rfl

end Expression

section Statement

variable {expression : Rule (Option Node)} {s : ParseState} {a : Anchor}

theorem repeats_anchor (a : Anchor) (s : ParseState) :
    Repeats front s (pure a) (pure (a.shift front.length)) (Anchor.shift front.length) :=
  repeats_pure rfl

theorem repeats_declaration (h : expression.Local) (s : ParseState) (a : Anchor) :
    Repeats front s (declaration expression a) (declaration expression (a.shift front.length))
      id := by
  refine .within (repeats_skip_bind (repeats_accept_bind ?_ fun name hname _ => ?_))
  · exact (repeats_report _ a _).bind fun _ u _ => repeats_none u
  · have hpassed := ParseState.begun_passed hname
    refine repeats_require_bind hpassed (repeats_anchor name _) (fun u hu => ?_) repeats_none
    refine h.bind hu fun value v hv => ?_
    refine repeats_require_bind hv (repeats_previousOr hv a) (fun w _ => ?_) repeats_none
    exact repeats_pure rfl

theorem repeats_assignment (h : expression.Local) (ha : s.cursor.current? = some a) :
    Repeats front s (assignment expression a) (assignment expression (a.shift front.length))
      id := by
  have hpassed : (s.enter .assignment).passed.Begun := ParseState.begun_passed ha
  refine .within (repeats_skip_bind ?_)
  refine repeats_require_bind hpassed (repeats_anchor a _) (fun u hu => ?_) repeats_none
  refine h.bind hu fun value v hv => ?_
  refine repeats_require_bind hv (repeats_previousOr hv a) (fun w _ => ?_) repeats_none
  exact repeats_pure rfl

theorem repeats_printing (h : expression.Local) (ha : s.cursor.current? = some a) :
    Repeats front s (printing expression a) (printing expression (a.shift front.length)) id := by
  have hpassed : (s.enter .printStatement).passed.Begun := ParseState.begun_passed ha
  refine .within (repeats_skip_bind ?_)
  refine repeats_require_bind hpassed (repeats_anchor a _) (fun u hu => ?_) repeats_none
  refine h.bind hu fun value v hv => ?_
  refine repeats_require_bind hv (repeats_previousOr hv a) (fun w hw => ?_) repeats_none
  refine repeats_require_bind hw (repeats_previousOr hw a) (fun x _ => ?_) repeats_none
  exact repeats_pure rfl

theorem repeats_ok {r q : Rule (Option Node)} (h : Repeats front s r q id) :
    Repeats front s (Except.ok <$> r) (Except.ok <$> q)
      (id : Except Stall (Option Node) → Except Stall (Option Node)) :=
  h.bind fun _ _ _ => repeats_pure rfl

theorem repeats_ok_none (s : ParseState) : Repeats front s (pure (.ok none)) (pure (.ok none))
    (id : Except Stall (Option Node) → Except Stall (Option Node)) :=
  repeats_pure rfl

/-- Behind any tokens the rule for statements does the same, since a statement passes a token before
it looks back. -/
def Rule.LocalStatement (r : Rule (Except Stall (Option Node))) : Prop :=
  ∀ (front : List Token) (s : ParseState), Repeats front s r r id

section Gather

variable {one : Rule (Except Stall (Option Node))}

/-- Statements that have been gathered before stay in front of those that are gathered now. -/
def gatheredBehind (more : List Node) (result : Except Stall (List Node)) :
    Except Stall (List Node) :=
  result.map (more.reverse ++ ·)

theorem repeats_gathered (front : List Token) (done more : List Node) (s : ParseState) :
    Repeats front s (pure (.ok done.reverse)) (pure (.ok (done ++ more).reverse))
      (gatheredBehind more) :=
  repeats_pure (by simp [gatheredBehind, Except.map])

theorem repeats_gatherOnto (hadv : one.Advances) (h : one.LocalStatement)
    (closes : TokenKind → Bool) (done more : List Node) :
    Repeats front s (gatherOnto one closes done) (gatherOnto one closes (done ++ more))
      (gatheredBehind more) := by
  induction hn : s.cursor.rest.length using Nat.strongRecOn generalizing s done with
  | ind n ih =>
    have hend := repeats_gathered front done more s
    cases hr : s.cursor.rest with
    | nil =>
      exact hend.of_run_eq (gatherOnto_nil hr) fun t ht => gatherOnto_nil (ht.cursor.rest.trans hr)
    | cons u rest =>
      cases hc : closes u.kind with
      | true =>
        exact hend.of_run_eq (gatherOnto_closed hr hc) fun t ht =>
          gatherOnto_closed (ht.cursor.rest.trans hr) hc
      | false =>
        -- Both lists go on with one statement, and that leaves fewer tokens.
        refine .of_run_eq (gatherOnto_cons hadv done hr hc)
          (fun t ht => gatherOnto_cons hadv _ (ht.cursor.rest.trans hr) hc) ?_
        intro t ht
        obtain ⟨hresult, hstate⟩ := h front s t ht
        have hlt := (one.reaches s).rest_length_lt (hadv s (by simp [hr]))
        rw [run_bind, run_bind, hresult]
        cases hone : (one.run s).1 with
        | error stall => exact ⟨rfl, hstate⟩
        | ok node =>
          have hih := ih _ (hn ▸ hlt) (node.toList ++ done) rfl
          rw [List.append_assoc] at hih
          exact hih _ hstate

theorem repeats_gather (hadv : one.Advances) (h : one.LocalStatement) (closes : TokenKind → Bool) :
    Repeats front s (gather one closes) (gather one closes) id := by
  intro t ht
  obtain ⟨hresult, hstate⟩ := repeats_gatherOnto hadv h closes [] [] t ht
  refine ⟨hresult.trans ?_, hstate⟩
  change gatheredBehind [] ((gather one closes).run s).1 = _
  cases ((gather one closes).run s).1 <;> rfl

theorem repeats_blockStatement (he : expression.Local) (hadv : one.Advances)
    (h : one.LocalStatement) (block : Block) (ha : s.cursor.current? = some a) :
    Repeats front s (blockStatement block expression one a)
      (blockStatement block expression one (a.shift front.length)) id := by
  let deeper : ParseState := { s with depth := s.depth + 1 }
  have hpassed : (deeper.enter block.nodeKind).passed.Begun := ParseState.begun_passed ha
  refine .deeper (.within (repeats_skip_bind ?_))
  refine repeats_require_bind hpassed (repeats_anchor a _) (fun u hu => ?_) repeats_ok_none
  refine (condition_local he).bind hu fun test v hv => ?_
  refine repeats_require_bind hv (repeats_previousOr hv a) (fun w hw => ?_) repeats_ok_none
  refine repeats_require_bind hw (repeats_previousOr hw a) (fun x hx => ?_) repeats_ok_none
  refine (repeats_gather hadv h _).bind fun result y hy => ?_
  cases result with
  | error stall => exact repeats_pure rfl
  | ok body =>
    refine repeats_require_bind (hx.leads hy) (repeats_anchor a y) (fun z _ => ?_) repeats_ok_none
    exact repeats_pure rfl

end Gather

theorem repeats_nestedStatement {inner : BlockParts}
    (h : ∀ parts ∈ inner, PartsHave Local LocalStatement parts) (block : Block)
    (ha : s.cursor.current? = some a) :
    Repeats front s (nestedStatement inner block a)
      (nestedStatement inner block (a.shift front.length)) id := by
  cases inner with
  | none => exact (repeats_refuse a s).bind fun _ u _ => repeats_ok_none u
  | some parts =>
    have hp := h parts rfl
    exact repeats_blockStatement hp.expression hp.advances hp.statement block ha

theorem repeats_statementFrom {inner : BlockParts} (he : expression.Local)
    (h : ∀ parts ∈ inner, PartsHave Local LocalStatement parts) (ha : s.cursor.current? = some a) :
    Repeats front s (statementFrom expression inner a)
      (statementFrom expression inner (a.shift front.length)) id := by
  have hstray : Repeats front s (do report .strayToken a; skip; pure (.ok none))
      (do report .strayToken (a.shift front.length); skip; pure (.ok none))
      (id : Except Stall (Option Node) → Except Stall (Option Node)) := by
    refine (repeats_report _ a s).bind fun _ u _ => ?_
    exact repeats_skip_bind (repeats_pure rfl)
  cases hk : a.token.kind with
  | keyword word =>
    cases word with
    | letKw =>
      simp only [statementFrom, Anchor.shift, hk]
      exact repeats_ok (repeats_declaration he _ _)
    | ifKw =>
      simp only [statementFrom, Anchor.shift, hk]
      exact repeats_nestedStatement h .conditional ha
    | whileKw =>
      simp only [statementFrom, Anchor.shift, hk]
      exact repeats_nestedStatement h .loop ha
    | printKw =>
      simp only [statementFrom, Anchor.shift, hk]
      exact repeats_ok (repeats_printing he ha)
    | _ =>
      simp only [statementFrom, Anchor.shift, hk]
      exact hstray
  | identifier =>
    simp only [statementFrom, Anchor.shift, hk]
    exact repeats_ok (repeats_assignment he ha)
  | _ =>
    simp only [statementFrom, Anchor.shift, hk]
    exact hstray

theorem statement_local {inner : BlockParts} (he : expression.Local)
    (h : ∀ parts ∈ inner, PartsHave Local LocalStatement parts) :
    (statement expression inner).LocalStatement :=
  fun _ _ => repeats_peek_bind (repeats_pure rfl) fun _ ha => repeats_statementFrom he h ha

theorem statementAt_local (level : Nat) : (statementAt level).LocalStatement :=
  statementAt_induction expressionAt_local (fun _ _ => statement_local) level

end Statement

/-! A correct program in front. -/

theorem Rule.Passes.before {r : Rule α} {used rest : List Token} {post : α → Prop}
    (h : r.Passes used rest post) {s : ParseState} (hs : s.cursor.rest = used ++ rest) :
    (r.run s).2.cursor.before = used.reverse ++ s.cursor.before := by
  obtain ⟨-, hrest, -⟩ := h s hs
  obtain ⟨passed, hpassed, hbefore⟩ := r.reaches s
  rw [hrest, hs] at hpassed
  rw [hbefore, List.append_cancel_right hpassed]

/-- Statements that can be read are gathered, and then the others are, behind them. -/
theorem gatherOnto_of_readsAll {one : Rule (Except Stall (Option Node))} {reading : Reading}
    (hadv : one.Advances) (h : one.CompletesStatement reading) {closes : TokenKind → Bool}
    (hopens : Opens reading closes) {ts : List Token} {nodes : List Node}
    (hnodes : ReadsAll reading ts nodes) (done : List Node) {rest : List Token} {s : ParseState}
    (hs : s.cursor.rest = ts ++ rest) :
    ∃ t : ParseState, (gatherOnto one closes done).run s =
        (gatherOnto one closes (nodes.reverse ++ done)).run t ∧
      t.cursor.rest = rest ∧ t.cursor.before = ts.reverse ++ s.cursor.before ∧
      t.findings = s.findings := by
  induction hnodes generalizing done s with
  | nil => exact ⟨s, rfl, hs, rfl, rfl⟩
  | @cons ts us node nodes hnode _ ih =>
    have hpasses := h ts node (us ++ rest) hnode
    rw [List.append_assoc] at hs
    obtain ⟨hresult, hrest, hquiet⟩ := hpasses s hs
    have hbefore := hpasses.before hs
    obtain ⟨t, hrun, ht, htbefore, htquiet⟩ := ih (node :: done) hrest
    obtain ⟨u, ts', rfl, hc⟩ := hopens ts node hnode
    refine ⟨t, ?_, ht, ?_, htquiet.trans hquiet⟩
    · rw [gatherOnto_cons hadv done hs hc, run_bind, hresult]
      rw [List.reverse_cons, List.append_assoc]
      exact hrun
    · rw [htbefore, hbefore, List.reverse_append, List.append_assoc]

/-- The statements of a program, and the state behind them. -/
def gatherProgram (ts : List Token) : Except Stall (List Node) × ParseState :=
  (gather (statementAt Limits.nesting) fun _ => false).run ((ParseState.start ts).enter .program)

theorem parse_of_gatherProgram {ts : List Token} {nodes : List Node} {t : ParseState}
    (h : gatherProgram ts = (.ok nodes, t)) : parse ts = .ok ⟨.root nodes, t.findings.reverse⟩ := by
  rw [gatherProgram] at h
  have hrun : runParser ts = (.ok (.root nodes), t.leave) := by
    simp only [runParser, program, within, run_bind, h]
    rfl
  have htree : (runParser ts).1 = .ok (.root nodes) := by rw [hrun]
  rw [parse_of_runParser htree, hrun]
  rfl

theorem gatherProgram_append {as : List Token} {nodes : List Node}
    (h : ReadsAll (ReadsStatementAt Limits.nesting) as nodes) (bs : List Token) :
    ∃ more u v, gatherProgram bs = (.ok more, u) ∧
      gatherProgram (as ++ bs) = (.ok (nodes ++ more), v) ∧
      v.findings = u.findings.map (Finding.shift as.length) := by
  have hproceeds := statementAt_proceeds Limits.nesting
  have hopens := statementAt_opens_unclosed Limits.nesting
  let s := (ParseState.start bs).enter .program
  let s' := (ParseState.start (as ++ bs)).enter .program
  have hrest : s'.cursor.rest = as ++ bs := rfl
  obtain ⟨t, hrun, htrest, htbefore, htquiet⟩ := gatherOnto_of_readsAll hproceeds.advances
    (statementAt_completes Limits.nesting) hopens h [] hrest
  -- What was gathered first is now in front of the start, so the others are gathered as before.
  have hbehind : s.Behind as t := by
    refine ⟨⟨?_, htrest⟩, htquiet⟩
    rw [htbefore]
    exact List.append_nil _
  obtain ⟨more, hmore, -⟩ := gatherOnto_ends hproceeds (fun _ => false) [] s
  obtain ⟨hresult, hstate⟩ := repeats_gatherOnto hproceeds.advances
    (statementAt_local Limits.nesting) (fun _ => false) [] nodes.reverse t hbehind
  rw [hmore, List.nil_append] at hresult
  rw [List.nil_append] at hstate
  rw [List.append_nil] at hrun
  have hwhole : gatheredBehind nodes.reverse (.ok more) = .ok (nodes ++ more) := by
    simp [gatheredBehind, Except.map]
  exact ⟨more, _, _, Prod.ext hmore rfl, hrun.trans (Prod.ext (hresult.trans hwhole) rfl),
    hstate.findings⟩

/-- A program that is found to be correct can stand in front of any tokens: its statements come in
front of theirs, and of these is found what is found without it. -/
theorem parse_append {as : List Token} {first : Parsed} (h : parse as = .ok first)
    {mode : PositionMode} (hquiet : first.diagnostics mode = []) (bs : List Token) :
    ∃ second whole, parse bs = .ok second ∧ parse (as ++ bs) = .ok whole ∧
      whole.tree = .root (first.tree.children ++ second.tree.children) ∧
      whole.findings = second.findings.map (Finding.shift as.length) ∧
      ∀ mode', whole.diagnostics mode' = second.diagnostics mode' := by
  obtain ⟨tree, findings⟩ := first
  obtain rfl : findings = [] := List.map_eq_nil_iff.mp hquiet
  obtain ⟨nodes, rfl, hnodes⟩ := parse_quiet_iff.mp h
  obtain ⟨more, u, v, hsecond, hwhole, hfindings⟩ := gatherProgram_append hnodes bs
  refine ⟨_, _, parse_of_gatherProgram hsecond, parse_of_gatherProgram hwhole, rfl, ?_,
    fun mode' => ?_⟩
  · rw [hfindings, List.map_reverse]
  · rw [Parsed.diagnostics, Parsed.diagnostics, hfindings, ← List.map_reverse, List.map_map]
    exact List.map_congr_left fun x _ => x.diagnostic_shift mode' as.length

theorem parse_append_semicolon :
    let as : List Token :=
      [⟨.identifier, "x", 0, 0, ⟨⟨0, 1, 1⟩, ⟨1, 1, 2⟩⟩⟩,
        ⟨.assign, "=", 1, 1, ⟨⟨1, 1, 2⟩, ⟨2, 1, 3⟩⟩⟩,
        ⟨.number, "7", 2, 2, ⟨⟨2, 1, 3⟩, ⟨3, 1, 4⟩⟩⟩,
        ⟨.semicolon, ";", 3, 3, ⟨⟨3, 1, 4⟩, ⟨4, 1, 5⟩⟩⟩]
    let stray : Token := ⟨.semicolon, ";", 4, 4, ⟨⟨4, 1, 5⟩, ⟨5, 1, 6⟩⟩⟩
    ∃ first whole, parse as = .ok first ∧ first.diagnostics .source = [] ∧
      parse (as ++ [stray]) = .ok whole ∧ whole.tree = .root first.tree.children ∧
      whole.findings = [⟨.strayToken, 4, stray⟩] := by
  intro as stray
  have hvalue : ReadsExpression Limits.nesting [as[2]] (.leaf .number as[2]) := by
    rw [readsExpression_eq]
    exact .single (.single (.number rfl))
  have hstatement : ReadsStatementAt Limits.nesting as
      (.interior .assignment as[0].span
        [some (.leaf .identifier as[0]), some (.leaf .number as[2])]) := by
    rw [readsStatementAt_eq]
    exact .assignment rfl rfl rfl hvalue
  have hfirst := parse_quiet_iff.mpr ⟨_, rfl, ReadsAll.cons hstatement .nil⟩
  rw [List.append_nil] at hfirst
  have hquiet : Parsed.diagnostics .source
    ⟨.root [.interior .assignment as[0].span
      [some (.leaf .identifier as[0]), some (.leaf .number as[2])]], []⟩ = [] := rfl
  obtain ⟨second, whole, hsecond, hwhole, htree, hfindings, -⟩ := parse_append hfirst hquiet [stray]
  rw [parse_semicolon_cons rfl .nil] at hsecond
  cases hsecond
  exact ⟨_, whole, hfirst, hquiet, hwhole, htree, hfindings⟩

end YupFront
