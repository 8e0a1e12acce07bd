import YupFront.Proofs.Soundness

/-! Postconditions of rules: what holds of the result and of the state behind it, put together step by
step, the way the rules are. -/

namespace YupFront

namespace Cursor

variable {c : Cursor} {a : Anchor}

theorem current?_eq_some (h : c.current? = some a) :
    a.index = c.position ∧ ∃ rest, c.rest = a.token :: rest := by
  cases hr : c.rest with
  | nil => simp [current?, hr] at h
  | cons t rest =>
    have ha : a = ⟨c.position, t⟩ := by simpa [current?, hr] using h.symm
    exact ⟨by rw [ha], rest, by rw [ha]⟩

theorem position_advance (h : c.current? = some a) : c.advance.position = c.position + 1 := by
  obtain ⟨_, rest, hr⟩ := current?_eq_some h
  simp [advance, hr]

theorem rest_length_advance_lt (h : c.current? = some a) :
    c.advance.rest.length < c.rest.length := by
  obtain ⟨_, rest, hr⟩ := current?_eq_some h
  simp [advance, hr]

theorem previous?_advance (h : c.current? = some a) : c.advance.previous? = some a := by
  obtain ⟨hi, rest, hr⟩ := current?_eq_some h
  simp [previous?, advance, hr, ← hi]

theorem tokens_current? (h : c.current? = some a) : c.tokens[a.index]? = some a.token := by
  obtain ⟨hi, rest, hr⟩ := current?_eq_some h
  rw [tokens, hr, hi, c.position_eq, ← c.before.length_reverse]
  simp

theorem before_of_previous? (h : c.previous? = some a) :
    ∃ before, c.before = a.token :: before ∧ a.index = before.length := by
  cases hb : c.before with
  | nil => simp [previous?, hb] at h
  | cons t before =>
    have ha : a = ⟨before.length, t⟩ := by simpa [previous?, hb, c.position_eq] using h.symm
    exact ⟨before, by rw [ha], by rw [ha]⟩

theorem index_of_previous? (h : c.previous? = some a) : a.index + 1 = c.position := by
  obtain ⟨before, hb, hi⟩ := before_of_previous? h
  rw [c.position_eq, hb, hi, List.length_cons]

theorem tokens_previous? (h : c.previous? = some a) : c.tokens[a.index]? = some a.token := by
  obtain ⟨before, hb, hi⟩ := before_of_previous? h
  rw [tokens, hb, hi, ← before.length_reverse]
  simp

theorem exists_previous? (h : 0 < c.position) : ∃ a, c.previous? = some a := by
  have hb : c.before ≠ [] := by
    intro hb
    simp [c.position_eq, hb] at h
  obtain ⟨t, before, hb⟩ := List.exists_cons_of_ne_nil hb
  exact ⟨⟨c.position - 1, t⟩, by simp [previous?, hb]⟩

end Cursor

namespace ParseState

/-- The state behind the current token. -/
def passed (s : ParseState) : ParseState := { s with cursor := s.cursor.advance }

/-- What comes of accepting a token: it is passed, or nothing has changed. -/
inductive Accepts (wanted : TokenKind → Bool) (s : ParseState) :
    Option Anchor → ParseState → Prop where
  | taken {a : Anchor} : s.cursor.current? = some a → wanted a.token.kind = true →
      Accepts wanted s (some a) s.passed
  | refused : (∀ a, s.cursor.current? = some a → wanted a.token.kind = false) →
      Accepts wanted s none s

/-- What comes of requiring a token: it is passed, or the problem is noted. -/
inductive Requires (kind : TokenKind) (problem : Problem) (anchor : Rule Anchor) (s : ParseState) :
    Bool → ParseState → Prop where
  | taken {a : Anchor} : s.cursor.current? = some a → a.token.kind = kind →
      Requires kind problem anchor s true s.passed
  | missing : (∀ a, s.cursor.current? = some a → a.token.kind ≠ kind) →
      Requires kind problem anchor s false ((anchor.run s).2.record problem (anchor.run s).1)

end ParseState

namespace Rule

/-- From `s`, the rule comes to a result and a state with `post`. -/
def Ensures (r : Rule α) (s : ParseState) (post : α → ParseState → Prop) : Prop :=
  post (r.run s).1 (r.run s).2

section Ensures

variable {α β : Type} {s : ParseState}

theorem ensures_leads (r : Rule α) (s : ParseState) : r.Ensures s fun _ t => s.Leads t :=
  r.leads s

theorem ensures_pure {a : α} {post : α → ParseState → Prop} (h : post a s) :
    (pure a : Rule α).Ensures s post := h

theorem Ensures.bind {r : Rule α} {f : α → Rule β} {mid : α → ParseState → Prop}
    {post : β → ParseState → Prop} (hr : r.Ensures s mid)
    (hf : ∀ a t, s.Leads t → mid a t → (f a).Ensures t post) : (r >>= f).Ensures s post :=
  hf _ _ (r.leads s) hr

theorem Ensures.mono {r : Rule α} {post post' : α → ParseState → Prop} (h : r.Ensures s post)
    (hp : ∀ a t, post a t → post' a t) : r.Ensures s post' :=
  hp _ _ h

theorem Ensures.of_run_eq {r q : Rule α} {post : α → ParseState → Prop} (h : r.run s = q.run s)
    (hq : q.Ensures s post) : r.Ensures s post := by
  unfold Ensures at hq ⊢
  rwa [h]

theorem Ensures.map {r : Rule α} {f : α → β} {post : β → ParseState → Prop}
    (h : r.Ensures s fun a t => post (f a) t) : (f <$> r).Ensures s post := h

theorem Ensures.within {r : Rule α} {name : NodeKind} {post : α → ParseState → Prop}
    (h : r.Ensures (s.enter name) fun a t => post a t.leave) : (within name r).Ensures s post := h

theorem Ensures.deeper {r : Rule α} {post : α → ParseState → Prop}
    (h : r.Ensures { s with depth := s.depth + 1 } fun a t =>
      post a { t with depth := t.depth - 1 }) : r.deeper.Ensures s post := h

/-- What follows depends on whether a token was there. -/
theorem Ensures.ite {p : Rule Bool} {r q : Rule α} {mid : ParseState → Prop}
    {post : α → ParseState → Prop} (hp : p.Ensures s fun _ t => mid t)
    (hr : ∀ t, s.Leads t → mid t → r.Ensures t post) (hq : ∀ t, mid t → q.Ensures t post) :
    (p >>= fun found => if found = true then r else q).Ensures s post := by
  refine hp.bind fun found t hst ht => ?_
  cases found with
  | true => exact hr t hst ht
  | false => exact hq t ht

theorem ensures_skip (s : ParseState) : skip.Ensures s fun _ t => t = s.passed := rfl

theorem ensures_look (f : Cursor → α) (s : ParseState) :
    (look f).Ensures s fun a t => a = f s.cursor ∧ t = s := ⟨rfl, rfl⟩

theorem ensures_report (problem : Problem) (anchor : Anchor) (s : ParseState) :
    (report problem anchor).Ensures s fun _ t => t = s.record problem anchor := rfl

theorem ensures_accept (wanted : TokenKind → Bool) (s : ParseState) :
    (accept wanted).Ensures s (s.Accepts wanted) := by
  change s.Accepts wanted (s.cursor.accept wanted).1
    { s with cursor := (s.cursor.accept wanted).2 }
  cases hc : s.cursor.current? with
  | none =>
    have ha : s.cursor.accept wanted = (none, s.cursor) := by simp [Cursor.accept, hc]
    rw [ha]
    exact .refused (by simp [hc])
  | some a =>
    by_cases hw : wanted a.token.kind = true
    · have ha : s.cursor.accept wanted = (some a, s.cursor.advance) := by
        simp [Cursor.accept, hc, hw]
      rw [ha]
      exact .taken hc hw
    · have ha : s.cursor.accept wanted = (none, s.cursor) := by simp [Cursor.accept, hc, hw]
      rw [ha]
      exact .refused fun b hb => by simpa [Option.some.inj (hc.symm.trans hb)] using hw

theorem ensures_require (kind : TokenKind) (problem : Problem) (anchor : Rule Anchor)
    (s : ParseState) :
    (require kind problem anchor).Ensures s (s.Requires kind problem anchor) := by
  refine (ensures_accept _ s).bind fun o t _ h => ?_
  cases h with
  | taken hc hw => exact ensures_pure (.taken hc (by simpa using hw))
  | refused hc => exact .missing fun a ha => by simpa using hc a ha

end Ensures

section Chain

variable {kind : NodeKind} {joins : TokenKind → Bool} {operand : Rule (Option Node)}

/-- What each operator with its operand preserves is preserved by the whole chain. -/
theorem ensures_chainOnto {inv : Option Node → ParseState → Prop}
    (hstep : ∀ left s a, inv left s → s.cursor.current? = some a → joins a.token.kind = true →
      operand.Ensures s.passed fun right t => inv (some (.binary kind left a.token right)) t)
    {left : Option Node} {s : ParseState} (h : inv left s) :
    (chainOnto kind joins operand left).Ensures s inv := by
  -- The induction is on the tokens that are left: each round passes an operator.
  induction hn : s.cursor.rest.length using Nat.strongRecOn generalizing s left with
  | ind n ih =>
    rw [chainOnto_eq]
    refine (ensures_accept joins s).bind fun o t _ ht => ?_
    cases ht with
    | refused => exact h
    | @taken a hc hj =>
      refine (hstep left s a h hc hj).bind fun right u hu hinv => ?_
      have hlt : s.passed.cursor.rest.length < s.cursor.rest.length :=
        Cursor.rest_length_advance_lt hc
      have hle := hu.reaches.rest_length_le
      exact ih _ (by omega) hinv rfl

end Chain

section Gather

variable {one : Rule (Except Stall (Option Node))} {closes : TokenKind → Bool}

/-- What each statement preserves is preserved by all of them, and they end where they are closed. -/
theorem ensures_gatherOnto (hadv : one.Advances) {inv : List Node → ParseState → Prop}
    (hstep : ∀ done s a, inv done s → s.cursor.current? = some a →
      one.Ensures s fun result t => ∃ node, result = .ok node ∧ inv (node.toList ++ done) t)
    {done : List Node} {s : ParseState} (h : inv done s) :
    (gatherOnto one closes done).Ensures s fun result t =>
      ∃ nodes, result = .ok nodes.reverse ∧ inv nodes t ∧
        ∀ a, t.cursor.current? = some a → closes a.token.kind = true := by
  induction hn : s.cursor.rest.length using Nat.strongRecOn generalizing s done with
  | ind n ih =>
    cases hr : s.cursor.rest with
    | nil =>
      refine .of_run_eq (gatherOnto_nil hr) (ensures_pure ⟨done, rfl, h, fun a ha => ?_⟩)
      have hnone : s.cursor.current? = none := Cursor.current?_eq_none.mpr hr
      simp [hnone] at ha
    | cons t rest =>
      have hcur := Cursor.current?_of_cons hr
      cases hc : closes t.kind with
      | true =>
        refine .of_run_eq (gatherOnto_closed hr hc) (ensures_pure ⟨done, rfl, h, fun a ha => ?_⟩)
        rwa [← Option.some.inj (hcur.symm.trans ha)]
      | false =>
        refine .of_run_eq (gatherOnto_cons hadv done hr hc) ?_
        have hlt := (one.reaches s).rest_length_lt (hadv s (by simp [hr]))
        have hone := hstep done s _ h hcur
        rw [Ensures] at hone
        obtain ⟨node, hnode, hinv⟩ := hone
        rw [Ensures, run_bind, hnode]
        exact ih _ (by omega) hinv rfl

end Gather

end Rule

section Levels

variable {P : Rule (Option Node) → Prop} {Q : Rule (Except Stall (Option Node)) → Prop}

/-- What is known of the rules for what lies inside a block. -/
structure PartsHave (P : Rule (Option Node) → Prop) (Q : Rule (Except Stall (Option Node)) → Prop)
    (parts : Rule (Option Node) × Rule (Except Stall (Option Node))) : Prop where
  expression : P parts.1
  statement : Q parts.2
  advances : parts.2.Advances

/-- From the expressions in its parentheses a property comes to every expression. -/
theorem expressionAt_induction (h : ∀ inner, (∀ e ∈ inner, P e) → P (sum inner)) (level : Nat) :
    P (expressionAt level) := by
  induction level with
  | zero => exact h none (by simp)
  | succ level ih => exact h (some (expressionAt level)) (by simpa using ih)

/-- From what lies inside its blocks a property comes to every statement. -/
theorem statementAt_induction (he : ∀ level, P (expressionAt level))
    (h : ∀ expression inner, P expression → (∀ parts ∈ inner, PartsHave P Q parts) →
      Q (statement expression inner)) (level : Nat) : Q (statementAt level) := by
  induction level with
  | zero => exact h _ none (he 0) (by simp)
  | succ level ih =>
    refine h _ (some (expressionAt level, statementAt level)) (he (level + 1)) fun parts hp => ?_
    cases hp
    exact ⟨he level, ih, (statementAt_proceeds level).advances⟩

end Levels

end YupFront
