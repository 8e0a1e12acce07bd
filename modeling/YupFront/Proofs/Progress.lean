import YupFront.Parser.Parse

/-! Progress of a parse. Every statement passes a token, so that the check for stalled statements
never fires and a parse comes to the end of its tokens, whatever they are. -/

namespace YupFront

theorem Cursor.position_lt_advance {c : Cursor} (h : c.rest ≠ []) :
    c.position < c.advance.position := by
  cases hr : c.rest with
  | nil => exact absurd hr h
  | cons t rest => simp [Cursor.advance, hr]

theorem Cursor.current?_eq_none {c : Cursor} : c.current? = none ↔ c.rest = [] := by
  simp [current?]

theorem Cursor.position_le_length {c d : Cursor} (h : c.Reaches d) :
    d.position ≤ c.tokens.length := by
  rw [h.tokens_eq]
  simp [Cursor.tokens, d.position_eq]

namespace Rule

/-- From every state with a token left, the rule passes one. -/
def Advances (r : Rule α) : Prop :=
  ∀ s : ParseState, s.cursor.rest ≠ [] → s.cursor.position < (r.run s).2.cursor.position

theorem skip_advances : skip.Advances :=
  fun _ h => Cursor.position_lt_advance h

theorem refuse_advances (anchor : Anchor) : (refuse anchor).Advances :=
  fun _ h => Cursor.position_lt_advance h

theorem Advances.bind {r : Rule α} (h : r.Advances) (f : α → Rule β) : (r >>= f).Advances :=
  fun s hs => Nat.lt_of_lt_of_le (h s hs) ((f (r.run s).1).reaches (r.run s).2).position_le

theorem Advances.map {r : Rule α} (h : r.Advances) (f : α → β) : (f <$> r).Advances :=
  h.bind (pure ∘ f)

theorem Advances.within {r : Rule α} (h : r.Advances) (name : NodeKind) :
    (within name r).Advances :=
  fun s hs => h (s.enter name) hs

theorem Advances.deeper {r : Rule α} (h : r.Advances) : r.deeper.Advances :=
  fun s hs => h { s with depth := s.depth + 1 } hs

/-- The rule always has a result, from whatever state it starts. -/
def Succeeds (r : Rule (Except Stall α)) : Prop :=
  ∀ s : ParseState, ∃ a, (r.run s).1 = .ok a

theorem succeeds_ok (a : α) : (pure (.ok a) : Rule (Except Stall α)).Succeeds :=
  fun _ => ⟨a, rfl⟩

theorem succeeds_map_ok (r : Rule α) : (Except.ok <$> r : Rule (Except Stall α)).Succeeds :=
  fun s => ⟨(r.run s).1, rfl⟩

theorem Succeeds.bind {r : Rule α} {f : α → Rule (Except Stall β)} (h : ∀ a, (f a).Succeeds) :
    (r >>= f).Succeeds :=
  fun s => h (r.run s).1 (r.run s).2

theorem Succeeds.within {r : Rule (Except Stall α)} (h : r.Succeeds) (name : NodeKind) :
    (within name r).Succeeds :=
  fun s => h (s.enter name)

theorem Succeeds.deeper {r : Rule (Except Stall α)} (h : r.Succeeds) : r.deeper.Succeeds :=
  fun s => h { s with depth := s.depth + 1 }

theorem Succeeds.ite {c : Prop} [Decidable c] {r q : Rule (Except Stall α)} (hr : r.Succeeds)
    (hq : q.Succeeds) : (if c then r else q).Succeeds := by
  split
  · exact hr
  · exact hq

/-- Whatever becomes of a statement is no stall, and it passes a token if there is one. -/
structure Proceeds (r : Rule (Except Stall (Option Node))) : Prop where
  succeeds : r.Succeeds
  advances : r.Advances

end Rule

open Rule

section Gather

variable {one : Rule (Except Stall (Option Node))} {closes : TokenKind → Bool} {done : List Node}
  {s : ParseState}

theorem gatherOnto_nil (h : s.cursor.rest = []) :
    (gatherOnto one closes done).run s = (.ok done.reverse, s) := by
  change gatherFrom one closes done s = _
  unfold gatherFrom
  simp [Cursor.current?_eq_none.mpr h]

theorem gatherOnto_closed {t : Token} {rest : List Token} (h : s.cursor.rest = t :: rest)
    (hc : closes t.kind = true) : (gatherOnto one closes done).run s = (.ok done.reverse, s) := by
  change gatherFrom one closes done s = _
  unfold gatherFrom
  simp [Cursor.current?_of_cons h, hc]

def gatherMore (one : Rule (Except Stall (Option Node))) (closes : TokenKind → Bool)
    (done : List Node) : Except Stall (Option Node) → Rule (Except Stall (List Node))
  | .error stall => pure (.error stall)
  | .ok node => gatherOnto one closes (node.toList ++ done)

/-- One statement more. That it passes a token need not be checked. -/
theorem gatherOnto_cons (hadv : one.Advances) (done : List Node) {t : Token} {rest : List Token}
    (h : s.cursor.rest = t :: rest) (hc : closes t.kind = false) :
    (gatherOnto one closes done).run s = (one >>= gatherMore one closes done).run s := by
  have hlt := hadv s (by simp [h])
  change gatherFrom one closes done s = _
  rw [gatherFrom, run_bind]
  simp only [Cursor.current?_of_cons h, hc, Bool.false_eq_true, if_false]
  split
  · next hr => simp [hr, gatherMore]
  · next node s' hr =>
    rw [hr] at hlt ⊢
    exact if_neg (Nat.not_le_of_lt hlt)

/-- Statements are gathered up to the end or up to a token that closes them, and none of them
stalls. -/
theorem gatherOnto_ends (hone : one.Proceeds) (closes : TokenKind → Bool) (done : List Node)
    (s : ParseState) :
    ∃ nodes, ((gatherOnto one closes done).run s).1 = .ok nodes ∧
      ∀ t ∈ ((gatherOnto one closes done).run s).2.cursor.rest.head?, closes t.kind = true := by
  induction hn : s.cursor.rest.length using Nat.strongRecOn generalizing s done with
  | ind n ih =>
    cases hr : s.cursor.rest with
    | nil =>
      rw [gatherOnto_nil hr]
      exact ⟨done.reverse, rfl, by simp [hr]⟩
    | cons t rest =>
      cases hc : closes t.kind with
      | true =>
        rw [gatherOnto_closed hr hc]
        exact ⟨done.reverse, rfl, by simp [hr, hc]⟩
      | false =>
        obtain ⟨node, hnode⟩ := hone.succeeds s
        rw [gatherOnto_cons hone.advances done hr hc, run_bind, hnode]
        have hlt := (one.reaches s).rest_length_lt (hone.advances s (by simp [hr]))
        exact ih _ (by omega) _ _ rfl

theorem gather_succeeds (hone : one.Proceeds) (closes : TokenKind → Bool) :
    (gather one closes).Succeeds := by
  intro s
  obtain ⟨nodes, hn, _⟩ := gatherOnto_ends hone closes [] s
  exact ⟨nodes, hn⟩

end Gather

theorem blockStatement_succeeds {statement : Rule (Except Stall (Option Node))}
    (hs : statement.Proceeds) (block : Block) (expression : Rule (Option Node)) (opening : Anchor) :
    (blockStatement block expression statement opening).Succeeds := by
  refine .deeper (.within (.bind fun _ => .bind fun _ => .ite ?_ (succeeds_ok none)) _)
  refine .bind fun _ => .bind fun _ => .ite ?_ (succeeds_ok none)
  refine .bind fun _ => .ite ?_ (succeeds_ok none)
  intro s
  obtain ⟨body, hb⟩ := gather_succeeds hs (· == .rightBrace) s
  rw [run_bind, hb]
  exact Succeeds.bind (fun _ => .ite (succeeds_ok _) (succeeds_ok none)) _

theorem blockStatement_advances (block : Block) (expression : Rule (Option Node))
    (statement : Rule (Except Stall (Option Node))) (opening : Anchor) :
    (blockStatement block expression statement opening).Advances :=
  ((skip_advances.bind _).within _).deeper

theorem nestedStatement_proceeds {inner : BlockParts} (h : ∀ parts ∈ inner, parts.2.Proceeds)
    (block : Block) (opening : Anchor) : (nestedStatement inner block opening).Proceeds := by
  cases inner with
  | none => exact ⟨.bind fun _ => succeeds_ok none, (refuse_advances opening).bind _⟩
  | some parts =>
    have hp := h parts rfl
    exact ⟨blockStatement_succeeds hp block parts.1 opening,
      blockStatement_advances block parts.1 parts.2 opening⟩

theorem statementFrom_proceeds (expression : Rule (Option Node)) {inner : BlockParts}
    (h : ∀ parts ∈ inner, parts.2.Proceeds) (a : Anchor) :
    (statementFrom expression inner a).Proceeds := by
  unfold statementFrom
  split
  · exact ⟨succeeds_map_ok _, ((skip_advances.bind _).within _).map _⟩
  · exact nestedStatement_proceeds h .conditional a
  · exact nestedStatement_proceeds h .loop a
  · exact ⟨succeeds_map_ok _, ((skip_advances.bind _).within _).map _⟩
  · exact ⟨succeeds_map_ok _, ((skip_advances.bind _).within _).map _⟩
  · refine ⟨.bind fun _ => .bind fun _ => succeeds_ok none, fun s hs => ?_⟩
    exact skip_advances (s.record .strayToken a) hs

theorem statement_proceeds (expression : Rule (Option Node)) {inner : BlockParts}
    (h : ∀ parts ∈ inner, parts.2.Proceeds) : (statement expression inner).Proceeds := by
  constructor
  · refine .bind fun current => ?_
    cases current with
    | none => exact succeeds_ok none
    | some a => exact (statementFrom_proceeds expression h a).succeeds
  · intro s hs
    obtain ⟨t, rest, hr⟩ := List.exists_cons_of_ne_nil hs
    have hh := (statementFrom_proceeds expression h ⟨s.cursor.position, t⟩).advances s hs
    simpa [statement, peek, look, Cursor.current?_of_cons hr] using hh

theorem statementAt_proceeds (level : Nat) : (statementAt level).Proceeds := by
  induction level with
  | zero => exact statement_proceeds _ (by simp)
  | succ level ih => exact statement_proceeds _ (by simpa using ih)

/-- A parse has a tree, and no token is left behind. -/
theorem program_ends (s : ParseState) :
    ∃ statements, (program.run s).1 = .ok (.root statements) ∧
      (program.run s).2.cursor.rest = [] := by
  obtain ⟨nodes, hn, hc⟩ :=
    gatherOnto_ends (statementAt_proceeds Limits.nesting) (fun _ => false) [] (s.enter .program)
  have hrest : ((gatherOnto (statementAt Limits.nesting) (fun _ => false) []).run
      (s.enter .program)).2.cursor.rest = [] := by
    rw [← List.head?_eq_none_iff, Option.eq_none_iff_forall_ne_some]
    intro t ht
    simpa using hc t ht
  refine ⟨nodes, ?_, ?_⟩ <;> simp [program, within, gather, hn, hrest, ParseState.leave]

theorem runParser_position (ts : List Token) : (runParser ts).2.cursor.position = ts.length := by
  obtain ⟨_, _, hrest⟩ := program_ends (.start ts)
  have hl := (program.reaches (.start ts)).length_eq
  rw [Cursor.length, Cursor.length, hrest] at hl
  change 0 + ts.length = (runParser ts).2.cursor.position + 0 at hl
  omega

theorem parse_of_runParser {ts : List Token} {tree : Node} (h : (runParser ts).1 = .ok tree) :
    parse ts = .ok ⟨tree, (runParser ts).2.findings.reverse⟩ := by
  unfold parse
  generalize runParser ts = outcome at h ⊢
  obtain ⟨result, s⟩ := outcome
  cases h
  rfl

theorem parse_succeeds (ts : List Token) : ∃ parsed, parse ts = .ok parsed := by
  obtain ⟨statements, h, _⟩ := program_ends (.start ts)
  exact ⟨_, parse_of_runParser h⟩

theorem parse_nil : parse [] = .ok ⟨.root [], []⟩ := by
  have h : (gatherOnto (statementAt Limits.nesting) (fun _ => false) []).run
      ((ParseState.start []).enter .program) = (.ok [], (ParseState.start []).enter .program) :=
    gatherOnto_nil rfl
  have hr : (runParser []).1 = .ok (.root []) := by
    simp [runParser, program, Rule.within, gather, h]
  have hf : (runParser []).2.findings = [] := by
    simp only [runParser, program, Rule.within, gather, Rule.run_bind, h]
    rfl
  rw [parse_of_runParser hr, hf]
  rfl

def Step.position? : Step → Option Nat
  | .entered _ position _ => some position
  | .tooDeep .. | .recorded .. => none

/-- Where rules were entered in a parse, the latest first. -/
def ParseState.entries (s : ParseState) : List Nat := s.trail.filterMap Step.position?

/-- No rule was entered in front of an earlier one, or behind the cursor. -/
def ParseState.Ordered (s : ParseState) : Prop :=
  (s.cursor.position :: s.entries).Pairwise (· ≥ ·)

theorem ParseState.start_ordered (ts : List Token) : (ParseState.start ts).Ordered := by
  simp [Ordered, start, entries]

theorem ParseState.Ordered.move {s t : ParseState} (h : s.Ordered) (he : t.entries = s.entries)
    (hp : s.cursor.position ≤ t.cursor.position) : t.Ordered := by
  have hh := List.pairwise_cons.mp h
  refine List.pairwise_cons.mpr ⟨fun i hi => ?_, he ▸ hh.2⟩
  rw [he] at hi
  exact Nat.le_trans (hh.1 i hi) hp

theorem ParseState.Ordered.enter {s : ParseState} (h : s.Ordered) (rule : NodeKind) :
    (s.enter rule).Ordered := by
  have hh := List.pairwise_cons.mp h
  refine List.pairwise_cons.mpr ⟨fun i hi => ?_, h⟩
  rcases List.mem_cons.mp hi with rfl | hi
  · exact Nat.le_refl _
  · exact hh.1 i hi

theorem ParseState.Leads.ordered {s t : ParseState} (h : s.Leads t) (hs : s.Ordered) :
    t.Ordered := by
  induction h with
  | refl s => exact hs
  | trans _ _ hst htu => exact htu (hst hs)
  | advance s => exact hs.move rfl s.cursor.reaches_advance.position_le
  | record s problem anchor => exact hs.move rfl (Nat.le_refl _)
  | tooDeep s span => exact hs.move rfl (Nat.le_refl _)
  | within name _ ih => exact (ih (hs.enter name)).move rfl (Nat.le_refl _)
  | deeper _ ih => exact (ih (hs.move rfl (Nat.le_refl _))).move rfl (Nat.le_refl _)

end YupFront
