import YupFront.Proofs.Progress

/-! Runs in which nothing is found wrong. `Vouches` infers from such a run what the tokens were;
`Passes` infers from the tokens that the run is one. Both are put together step by step, the way the
rules are. -/

namespace YupFront

theorem ParseState.Leads.findings_suffix {s t : ParseState} (h : s.Leads t) :
    s.findings <:+ t.findings := by
  induction h with
  | refl s => exact List.suffix_rfl
  | trans _ _ hst htu => exact hst.trans htu
  | advance s => exact List.suffix_rfl
  | record s problem anchor => exact List.suffix_cons _ _
  | tooDeep s span => exact List.suffix_rfl
  | within name _ ih => exact ih
  | deeper _ ih => exact ih

namespace Rule

/-- If the rule finds nothing wrong from `s` on, `post` holds of the tokens it passes and of its
result. -/
def Vouches (r : Rule α) (s : ParseState) (post : List Token → α → Prop) : Prop :=
  (r.run s).2.findings = s.findings →
    ∃ used, s.cursor.rest = used ++ (r.run s).2.cursor.rest ∧ post used (r.run s).1

section Vouches

variable {α β : Type} {s : ParseState}

theorem vouches_pure {a : α} {post : List Token → α → Prop} (h : post [] a) :
    (pure a : Rule α).Vouches s post :=
  fun _ => ⟨[], rfl, h⟩

theorem vouches_true (r : Rule α) (s : ParseState) : r.Vouches s fun _ _ => True := by
  intro _
  obtain ⟨used, h, _⟩ := r.reaches s
  exact ⟨used, h, trivial⟩

theorem Vouches.bind {r : Rule α} {f : α → Rule β} {mid : List Token → α → Prop}
    {post : List Token → β → Prop} (hr : r.Vouches s mid)
    (hf : ∀ used a t, s.Leads t → s.cursor.rest = used ++ t.cursor.rest → mid used a →
      (f a).Vouches t fun more b => post (used ++ more) b) :
    (r >>= f).Vouches s post := by
  intro h
  -- Findings are only ever added, so that a quiet whole has quiet parts.
  have hs := (r.leads s).findings_suffix
  have ht := ((f (r.run s).1).leads (r.run s).2).findings_suffix
  rw [run_bind] at h
  have hmid : (r.run s).2.findings = s.findings :=
    (hs.eq_of_length_le (h ▸ ht).length_le).symm
  obtain ⟨used, hu, hm⟩ := hr hmid
  obtain ⟨more, hm', hp⟩ := hf used _ _ (r.leads s) hu hm (h.trans hmid.symm)
  exact ⟨used ++ more, by rw [hu, hm', List.append_assoc]; rfl, hp⟩

theorem Vouches.mono {r : Rule α} {post post' : List Token → α → Prop} (h : r.Vouches s post)
    (hp : ∀ used a, post used a → post' used a) : r.Vouches s post' := by
  intro hq
  obtain ⟨used, hu, h⟩ := h hq
  exact ⟨used, hu, hp _ _ h⟩

theorem Vouches.of_run_eq {r q : Rule α} {post : List Token → α → Prop} (h : r.run s = q.run s)
    (hq : q.Vouches s post) : r.Vouches s post := by
  unfold Vouches at hq ⊢
  rwa [h]

theorem Vouches.map {r : Rule α} {f : α → β} {post : List Token → β → Prop}
    (h : r.Vouches s fun used a => post used (f a)) : (f <$> r).Vouches s post := h

theorem Vouches.within {r : Rule α} {name : NodeKind} {post : List Token → α → Prop}
    (h : r.Vouches (s.enter name) post) : (within name r).Vouches s post := h

theorem Vouches.deeper {r : Rule α} {post : List Token → α → Prop}
    (h : r.Vouches { s with depth := s.depth + 1 } post) : r.deeper.Vouches s post := h

/-- A problem is noted, so that there is nothing to vouch for. -/
theorem vouches_report (problem : Problem) (anchor : Anchor) (post : List Token → Unit → Prop) :
    (report problem anchor).Vouches s post :=
  fun h => absurd h (List.cons_ne_self _ _)

theorem vouches_refuse (anchor : Anchor) (post : List Token → Unit → Prop) :
    (refuse anchor).Vouches s post :=
  fun h => absurd h (List.cons_ne_self _ _)

theorem vouches_report_bind (problem : Problem) (anchor : Anchor) (f : Unit → Rule β)
    (post : List Token → β → Prop) : (report problem anchor >>= f).Vouches s post :=
  (vouches_report problem anchor fun _ _ => False).bind fun _ _ _ _ _ h => h.elim

theorem vouches_refuse_bind (anchor : Anchor) (f : Unit → Rule β) (post : List Token → β → Prop) :
    (refuse anchor >>= f).Vouches s post :=
  (vouches_refuse anchor fun _ _ => False).bind fun _ _ _ _ _ h => h.elim

theorem vouches_skip {t : Token} {rest : List Token} (h : s.cursor.rest = t :: rest) :
    skip.Vouches s fun used _ => used = [t] := by
  intro _
  refine ⟨[t], ?_, rfl⟩
  simp [skip, Cursor.advance, h]

/-- Either nothing is passed, or a token of a kind that is wanted. -/
theorem vouches_accept (wanted : TokenKind → Bool) (s : ParseState) :
    (accept wanted).Vouches s fun used o =>
      (o = none ∧ used = []) ∨
      ∃ a, o = some a ∧ used = [a.token] ∧ wanted a.token.kind = true := by
  intro _
  cases hr : s.cursor.rest with
  | nil =>
    have ha := Cursor.accept_of_nil wanted hr
    exact ⟨[], by simp [accept, ha, hr], .inl ⟨by simp [accept, ha], rfl⟩⟩
  | cons t rest =>
    have ha := Cursor.accept_of_cons wanted hr
    by_cases hw : wanted t.kind = true
    · rw [if_pos hw] at ha
      exact ⟨[t], by simp [accept, ha, Cursor.rest_advance hr],
        .inr ⟨_, congrArg Prod.fst ha, rfl, hw⟩⟩
    · rw [if_neg hw] at ha
      exact ⟨[], by simp [accept, ha, hr], .inl ⟨congrArg Prod.fst ha, rfl⟩⟩

/-- A token that has to be there is there, since otherwise a problem is noted. -/
theorem vouches_require (kind : TokenKind) (problem : Problem) (anchor : Rule Anchor)
    (s : ParseState) :
    (require kind problem anchor).Vouches s fun used found =>
      found = true ∧ ∃ t : Token, used = [t] ∧ t.kind = kind := by
  refine (vouches_accept _ s).bind fun used o t _ _ ho => ?_
  rcases ho with ⟨rfl, rfl⟩ | ⟨a, rfl, rfl, hk⟩
  · exact (vouches_true anchor t).bind fun _ _ _ _ _ _ => vouches_report_bind _ _ _ _
  · exact vouches_pure ⟨rfl, a.token, rfl, by simpa using hk⟩

theorem vouches_require_bind {kind : TokenKind} {problem : Problem} {anchor : Rule Anchor}
    {r q : Rule β} {post : List Token → β → Prop}
    (h : ∀ t u, s.Leads u → s.cursor.rest = t :: u.cursor.rest → t.kind = kind →
      r.Vouches u fun more b => post (t :: more) b) :
    (require kind problem anchor >>= fun found =>
      if found = true then r else q).Vouches s post := by
  refine (vouches_require kind problem anchor s).bind fun used found u hsu hu hf => ?_
  obtain ⟨rfl, t, rfl, hk⟩ := hf
  exact h t u hsu hu hk

end Vouches

/-- From every state in which the tokens `used` come next and `rest` behind them, the rule passes
the former, finds nothing wrong and has a result with `post`. -/
def Passes (r : Rule α) (used rest : List Token) (post : α → Prop) : Prop :=
  ∀ s : ParseState, s.cursor.rest = used ++ rest →
    post (r.run s).1 ∧ (r.run s).2.cursor.rest = rest ∧ (r.run s).2.findings = s.findings

section Passes

variable {α β : Type} {used more rest : List Token} {t : Token}

theorem passes_pure {a : α} {post : α → Prop} (h : post a) :
    (pure a : Rule α).Passes [] rest post :=
  fun _ hs => ⟨h, hs, rfl⟩

theorem Passes.bind {r : Rule α} {f : α → Rule β} {mid : α → Prop} {post : β → Prop}
    (hr : r.Passes used (more ++ rest) mid) (hf : ∀ a, mid a → (f a).Passes more rest post) :
    (r >>= f).Passes (used ++ more) rest post := by
  intro s hs
  obtain ⟨hm, hrest, hq⟩ := hr s (by rw [hs, List.append_assoc])
  obtain ⟨hp, hrest', hq'⟩ := hf _ hm _ hrest
  exact ⟨hp, hrest', hq'.trans hq⟩

theorem Passes.bind_nil {r : Rule α} {f : α → Rule β} {mid : α → Prop} {post : β → Prop}
    (hr : r.Passes [] (used ++ rest) mid) (hf : ∀ a, mid a → (f a).Passes used rest post) :
    (r >>= f).Passes used rest post :=
  hr.bind hf

theorem Passes.bind_cons {r : Rule α} {f : α → Rule β} {mid : α → Prop} {post : β → Prop}
    (hr : r.Passes [t] (used ++ rest) mid) (hf : ∀ a, mid a → (f a).Passes used rest post) :
    (r >>= f).Passes (t :: used) rest post :=
  hr.bind hf

theorem Passes.of_run_eq {r q : Rule α} {post : α → Prop} (hq : q.Passes used rest post)
    (h : ∀ s : ParseState, s.cursor.rest = used ++ rest → r.run s = q.run s) :
    r.Passes used rest post := by
  intro s hs
  rw [h s hs]
  exact hq s hs

theorem Passes.mono {r : Rule α} {post post' : α → Prop} (h : r.Passes used rest post)
    (hp : ∀ a, post a → post' a) : r.Passes used rest post' := by
  intro s hs
  obtain ⟨ha, hh⟩ := h s hs
  exact ⟨hp _ ha, hh⟩

theorem Passes.map {r : Rule α} {f : α → β} {post : β → Prop}
    (h : r.Passes used rest fun a => post (f a)) : (f <$> r).Passes used rest post := h

theorem Passes.within {r : Rule α} {name : NodeKind} {post : α → Prop}
    (h : r.Passes used rest post) : (within name r).Passes used rest post :=
  fun s hs => h (s.enter name) hs

theorem Passes.deeper {r : Rule α} {post : α → Prop} (h : r.Passes used rest post) :
    r.deeper.Passes used rest post :=
  fun s hs => h { s with depth := s.depth + 1 } hs

theorem passes_skip : skip.Passes [t] rest fun _ => True :=
  fun _ hs => ⟨trivial, Cursor.rest_advance hs, rfl⟩

theorem passes_accept {wanted : TokenKind → Bool} (h : wanted t.kind = true) :
    (accept wanted).Passes [t] rest fun o => ∃ i, o = some ⟨i, t⟩ := by
  intro s hs
  have ha := Cursor.accept_of_cons wanted hs
  rw [if_pos h] at ha
  simp [accept, ha, Cursor.rest_advance hs]

theorem passes_accept_none {wanted : TokenKind → Bool}
    (h : ∀ t ∈ rest.head?, wanted t.kind = false) :
    (accept wanted).Passes [] rest fun o => o = none := by
  intro s hs
  have ha : s.cursor.accept wanted = (none, s.cursor) := by
    cases rest with
    | nil => exact Cursor.accept_of_nil wanted hs
    | cons t rest =>
      rw [Cursor.accept_of_cons wanted hs, h t rfl]
      rfl
  have hrest : s.cursor.rest = rest := hs
  simp [accept, ha, hrest]

theorem passes_require {kind : TokenKind} {problem : Problem} {anchor : Rule Anchor}
    (hk : t.kind = kind) :
    (require kind problem anchor).Passes [t] rest fun found => found = true := by
  have ha : (take kind).Passes [t] ([] ++ rest) fun o => ∃ i, o = some ⟨i, t⟩ :=
    passes_accept (by simp [hk])
  refine ha.bind fun o ho => ?_
  obtain ⟨i, rfl⟩ := ho
  exact passes_pure rfl

theorem passes_require_bind {kind : TokenKind} {problem : Problem} {anchor : Rule Anchor}
    {r q : Rule β} {post : β → Prop} (hk : t.kind = kind) (h : r.Passes used rest post) :
    (require kind problem anchor >>= fun found => if found = true then r else q).Passes (t :: used)
      rest post := by
  refine (passes_require hk).bind fun found hf => ?_
  rw [if_pos hf]
  exact h

end Passes

end Rule

end YupFront
