import YupFront.Proofs.Completeness
import YupFront.Proofs.SourceOrder

/-! What tokens carry besides their kinds has no influence on a parse. Tokens that are replaced by others
of the same kinds give the same tree and the same findings, with the replacements in the place of
the tokens. -/

namespace YupFront

/-- A replacement of tokens by tokens of the same kinds. -/
def KeepsKinds (f : Token → Token) : Prop := ∀ t, (f t).kind = t.kind

theorem keepsKinds_id : KeepsKinds id := fun _ => rfl

def Anchor.map (f : Token → Token) (a : Anchor) : Anchor := ⟨a.index, f a.token⟩

def Finding.map (f : Token → Token) (x : Finding) : Finding := ⟨x.problem, x.anchor.map f⟩

/-- A tree that holds the tokens its nodes stem from. -/
inductive AnchoredTree where
  | root (statements : List AnchoredTree)
  | interior (kind : NodeKind) (anchor : Token) (children : List AnchoredTree)
  | leaf (kind : NodeKind) (anchor : Token)

namespace AnchoredTree

mutual

/-- The tree that stems from the replacements of the tokens. -/
def grow (f : Token → Token) : AnchoredTree → Node
  | root statements => .root (growAll f statements)
  | interior kind anchor children => .interior kind (f anchor).span ((growAll f children).map some)
  | leaf kind anchor => .leaf kind (f anchor)
termination_by structural t => t

def growAll (f : Token → Token) : List AnchoredTree → List Node
  | [] => []
  | t :: ts => grow f t :: growAll f ts
termination_by structural ts => ts

end

mutual

def anchors : AnchoredTree → List Token
  | root statements => anchorsAll statements
  | interior _ anchor children => anchor :: anchorsAll children
  | leaf _ anchor => [anchor]
termination_by structural t => t

def anchorsAll : List AnchoredTree → List Token
  | [] => []
  | t :: ts => anchors t ++ anchorsAll ts
termination_by structural ts => ts

end

theorem growAll_eq_map (f : Token → Token) (ts : List AnchoredTree) :
    growAll f ts = ts.map (grow f) := by
  induction ts with
  | nil => rfl
  | cons t ts ih => rw [growAll, ih, List.map_cons]

theorem children_grow_interior (f : Token → Token) (kind : NodeKind) (anchor : Token)
    (children : List AnchoredTree) :
    ((interior kind anchor children).grow f).children = growAll f children := by
  rw [grow, Node.interior, List.filterMap_map]
  exact List.filterMap_some

mutual

/-- Replacements that give the same tree agree about the places of its tokens. -/
theorem span_eq_of_grow_eq {f g : Token → Token} :
    ∀ tree : AnchoredTree, tree.grow f = tree.grow g → ∀ t ∈ tree.anchors, (f t).span = (g t).span
  | root statements, h => by
    have hchildren : growAll f statements = growAll g statements := congrArg Node.children h
    exact span_eq_of_growAll_eq statements hchildren
  | interior kind anchor children, h => by
    have hspan : some (f anchor).span = some (g anchor).span := congrArg Node.span h
    have hchildren := congrArg Node.children h
    rw [children_grow_interior, children_grow_interior] at hchildren
    have hbelow := span_eq_of_growAll_eq children hchildren
    intro t ht
    rcases List.mem_cons.mp ht with rfl | ht
    · exact Option.some.inj hspan
    · exact hbelow t ht
  | leaf kind anchor, h => by
    have hspan : some (f anchor).span = some (g anchor).span := congrArg Node.span h
    intro t ht
    rw [List.mem_singleton.mp ht]
    exact Option.some.inj hspan

theorem span_eq_of_growAll_eq {f g : Token → Token} :
    ∀ trees : List AnchoredTree, growAll f trees = growAll g trees →
      ∀ t ∈ anchorsAll trees, (f t).span = (g t).span
  | [], _ => by simp [anchorsAll]
  | tree :: trees, h => by
    obtain ⟨hhead, htail⟩ := List.cons.inj h
    exact List.forall_mem_append.mpr
      ⟨span_eq_of_grow_eq tree hhead, span_eq_of_growAll_eq trees htail⟩

end

/-- Children that are missing are left out. -/
def ofParts (kind : NodeKind) (anchor : Token) (parts : List (Option AnchoredTree)) :
    AnchoredTree :=
  .interior kind anchor (parts.filterMap id)

theorem grow_ofParts (f : Token → Token) (kind : NodeKind) (anchor : Token)
    (parts : List (Option AnchoredTree)) :
    (ofParts kind anchor parts).grow f =
      .interior kind (f anchor).span (parts.map (Option.map (grow f))) := by
  have hchildren : (((parts.filterMap id).map (grow f)).map some).filterMap id =
      (parts.map (Option.map (grow f))).filterMap id := by
    induction parts with
    | nil => rfl
    | cons part parts ih => cases part <;> simp_all
  rw [ofParts, grow, growAll_eq_map, Node.interior, Node.interior, hchildren]

end AnchoredTree

namespace Cursor

def map (f : Token → Token) (c : Cursor) : Cursor :=
  ⟨c.before.map f, c.rest.map f, c.position, by simp [c.position_eq]⟩

variable (f : Token → Token) (c : Cursor)

theorem map_id : c.map id = c := by
  simp [map]

theorem current?_map : (c.map f).current? = c.current?.map (Anchor.map f) := by
  simp [current?, map, Anchor.map, Function.comp_def]

theorem previous?_map : (c.map f).previous? = c.previous?.map (Anchor.map f) := by
  simp [previous?, map, Anchor.map, Function.comp_def]

theorem advance_map : (c.map f).advance = c.advance.map f := by
  cases hr : c.rest <;> simp [advance, map, hr]

theorem accept_map {f : Token → Token} (hf : KeepsKinds f) (wanted : TokenKind → Bool)
    (c : Cursor) : (c.map f).accept wanted =
      ((c.accept wanted).1.map (Anchor.map f), (c.accept wanted).2.map f) := by
  unfold accept
  rw [current?_map, advance_map]
  cases c.current? with
  | none => rfl
  | some a =>
    have hk : (a.map f).token.kind = a.token.kind := hf a.token
    by_cases hw : wanted a.token.kind = true <;> simp [hk, hw]

end Cursor

/-- The state `t` is `s` with tokens replaced. -/
structure ParseState.Image (f : Token → Token) (s t : ParseState) : Prop where
  cursor : t.cursor = s.cursor.map f
  depth : t.depth = s.depth
  rules : t.rules = s.rules
  findings : t.findings = s.findings.map (Finding.map f)

namespace ParseState

variable {f : Token → Token} {s t : ParseState}

theorem image_id (s : ParseState) : s.Image id s where
  cursor := s.cursor.map_id.symm
  depth := rfl
  rules := rfl
  findings := (List.map_id _).symm

theorem image_start (f : Token → Token) (ts : List Token) :
    (start ts).Image f (start (ts.map f)) :=
  ⟨rfl, rfl, rfl, rfl⟩

theorem Image.passed (h : s.Image f t) : s.passed.Image f t.passed where
  cursor := by
    change t.cursor.advance = s.cursor.advance.map f
    rw [h.cursor, Cursor.advance_map]
  depth := h.depth
  rules := h.rules
  findings := h.findings

theorem Image.record (h : s.Image f t) (problem : Problem) (a : Anchor) :
    (s.record problem a).Image f (t.record problem (a.map f)) where
  cursor := h.cursor
  depth := h.depth
  rules := h.rules
  findings := by simp [ParseState.record, h.findings, Finding.map]

theorem Image.enter (h : s.Image f t) (name : NodeKind) : (s.enter name).Image f (t.enter name) where
  cursor := h.cursor
  depth := h.depth
  rules := by simp [ParseState.enter, h.rules]
  findings := h.findings

theorem Image.leave (h : s.Image f t) : s.leave.Image f t.leave where
  cursor := h.cursor
  depth := h.depth
  rules := by simp [ParseState.leave, h.rules]
  findings := h.findings

end ParseState

namespace Rule

/-- There are a result and a state such that, however the tokens of `s` are replaced, the rule comes to
the result, seen through the replacement, and to an image of the state. -/
def Follows (r : (Token → Token) → Rule α) (s : ParseState) (view : (Token → Token) → β → α) :
    Prop :=
  ∃ (b : β) (t : ParseState), ∀ f, KeepsKinds f → ∀ s', s.Image f s' →
    ((r f).run s').1 = view f b ∧ t.Image f ((r f).run s').2

/-- Nothing of a result depends on the tokens. -/
def plainView (_ : Token → Token) (b : β) : β := b

def anchorView (f : Token → Token) (o : Option Anchor) : Option Anchor := o.map (Anchor.map f)

def nodeView (f : Token → Token) (o : Option AnchoredTree) : Option Node :=
  o.map (AnchoredTree.grow f)

section Follows

variable {α β γ δ : Type} {s : ParseState} {view : (Token → Token) → β → α}
  {view' : (Token → Token) → δ → γ}

theorem follows_pure (view : (Token → Token) → β → α) (b : β) (s : ParseState) :
    Follows (fun f => pure (view f b)) s view :=
  ⟨b, s, fun _ _ _ h => ⟨rfl, h⟩⟩

theorem follows_plain (b : β) (s : ParseState) : Follows (fun _ => pure b) s plainView :=
  follows_pure plainView b s

theorem follows_none (s : ParseState) : Follows (fun _ => pure none) s nodeView :=
  follows_pure nodeView none s

theorem Follows.of_run_eq {r q : (Token → Token) → Rule α}
    (h : ∀ f, KeepsKinds f → ∀ s', s.Image f s' → (r f).run s' = (q f).run s')
    (hq : Follows q s view) : Follows r s view := by
  obtain ⟨b, t, hb⟩ := hq
  refine ⟨b, t, fun f hf s' hs => ?_⟩
  rw [h f hf s' hs]
  exact hb f hf s' hs

theorem Follows.congr {r q : (Token → Token) → Rule α} (h : ∀ f, KeepsKinds f → r f = q f)
    (hq : Follows q s view) : Follows r s view :=
  hq.of_run_eq fun f hf s' _ => by rw [h f hf]

theorem Follows.bind {r : (Token → Token) → Rule α} {k : (Token → Token) → α → Rule γ}
    (hr : Follows r s view)
    (hk : ∀ b t, t.cursor = ((r id).run s).2.cursor → Follows (fun f => k f (view f b)) t view') :
    Follows (fun f => r f >>= k f) s view' := by
  obtain ⟨b, t, hb⟩ := hr
  -- With nothing replaced, the state that the rule comes to is `t` up to its trail.
  have hid := (hb id keepsKinds_id s (ParseState.image_id s)).2.cursor
  rw [Cursor.map_id] at hid
  obtain ⟨c, u, hc⟩ := hk b t hid.symm
  refine ⟨c, u, fun f hf s' hs => ?_⟩
  obtain ⟨hresult, hstate⟩ := hb f hf s' hs
  rw [run_bind, hresult]
  exact hc f hf _ hstate

theorem Follows.within {r : (Token → Token) → Rule α} {name : NodeKind}
    (h : Follows r (s.enter name) view) : Follows (fun f => within name (r f)) s view := by
  obtain ⟨b, t, hb⟩ := h
  refine ⟨b, t.leave, fun f hf s' hs => ?_⟩
  obtain ⟨hresult, hstate⟩ := hb f hf _ (hs.enter name)
  exact ⟨hresult, hstate.leave⟩

theorem Follows.deeper {r : (Token → Token) → Rule α}
    (h : Follows r { s with depth := s.depth + 1 } view) : Follows (fun f => (r f).deeper) s view := by
  obtain ⟨b, t, hb⟩ := h
  refine ⟨b, { t with depth := t.depth - 1 }, fun f hf s' hs => ?_⟩
  have hdeeper : ParseState.Image f { s with depth := s.depth + 1 }
      { s' with depth := s'.depth + 1 } :=
    ⟨hs.cursor, congrArg (· + 1) hs.depth, hs.rules, hs.findings⟩
  obtain ⟨hresult, hstate⟩ := hb f hf _ hdeeper
  exact ⟨hresult, hstate.cursor, congrArg (· - 1) hstate.depth, hstate.rules, hstate.findings⟩

theorem follows_look {g : (Token → Token) → Cursor → α} (b : β)
    (h : ∀ f, g f (s.cursor.map f) = view f b) : Follows (fun f => look (g f)) s view := by
  refine ⟨b, s, fun f _ s' hs => ⟨?_, hs⟩⟩
  have hrun : ((look (g f)).run s').1 = g f s'.cursor := rfl
  rw [hrun, hs.cursor, h f]

theorem follows_peek (s : ParseState) : Follows (fun _ => peek) s anchorView :=
  follows_look s.cursor.current? fun f => s.cursor.current?_map f

theorem follows_previousOr (a : Anchor) (s : ParseState) :
    Follows (fun f => previousOr (a.map f)) s Anchor.map := by
  refine follows_look (s.cursor.previous?.getD a) fun f => ?_
  rw [Cursor.previous?_map]
  cases s.cursor.previous? <;> rfl

theorem follows_skip (s : ParseState) : Follows (fun _ => skip) s (@plainView Unit) :=
  ⟨(), s.passed, fun _ _ _ h => ⟨rfl, h.passed⟩⟩

theorem follows_report (problem : Problem) (a : Anchor) (s : ParseState) :
    Follows (fun f => report problem (a.map f)) s (@plainView Unit) :=
  ⟨(), s.record problem a, fun _ _ _ h => ⟨rfl, h.record problem a⟩⟩

theorem follows_refuse (a : Anchor) (s : ParseState) :
    Follows (fun f => refuse (a.map f)) s (@plainView Unit) := by
  refine ⟨(), (s.record .nestingTooDeep a).passed, fun f _ s' hs => ⟨rfl, ?_⟩⟩
  have h := (hs.record .nestingTooDeep a).passed
  exact ⟨h.cursor, h.depth, h.rules, h.findings⟩

theorem follows_reportPrevious (problem : Problem) (s : ParseState) :
    Follows (fun _ => reportPrevious problem) s (@plainView Unit) := by
  have hlook : Follows (fun _ => previousOrFirst) s anchorView := by
    refine follows_look (s.cursor.previous?.or s.cursor.current?) fun f => ?_
    rw [Cursor.previous?_map, Cursor.current?_map]
    cases s.cursor.previous? <;> rfl
  refine hlook.bind fun o t _ => ?_
  cases o with
  | none => exact follows_plain () t
  | some a => exact follows_report problem a t

theorem follows_accept_bind {wanted : TokenKind → Bool}
    {k : (Token → Token) → Option Anchor → Rule α} (hnone : Follows (fun f => k f none) s view)
    (hsome : ∀ a, s.cursor.current? = some a → wanted a.token.kind = true →
      Follows (fun f => k f (some (a.map f))) s.passed view) :
    Follows (fun f => accept wanted >>= k f) s view := by
  have haccept := ensures_accept wanted s
  have himage : ∀ f, KeepsKinds f → ∀ s', s.Image f s' →
      ((accept wanted).run s').1 = ((accept wanted).run s).1.map (Anchor.map f) ∧
        ((accept wanted).run s).2.Image f ((accept wanted).run s').2 := by
    intro f hf s' hs
    have hmap := Cursor.accept_map hf wanted s.cursor
    rw [← hs.cursor] at hmap
    exact ⟨congrArg Prod.fst hmap, congrArg Prod.snd hmap, hs.depth, hs.rules, hs.findings⟩
  unfold Ensures at haccept
  generalize ((accept wanted).run s).1 = o, ((accept wanted).run s).2 = t at haccept himage
  cases haccept with
  | refused =>
    obtain ⟨b, u, hb⟩ := hnone
    refine ⟨b, u, fun f hf s' hs => ?_⟩
    obtain ⟨hresult, hstate⟩ := himage f hf s' hs
    rw [run_bind, hresult]
    exact hb f hf _ hstate
  | @taken a ha hw =>
    obtain ⟨b, u, hb⟩ := hsome a ha hw
    refine ⟨b, u, fun f hf s' hs => ?_⟩
    obtain ⟨hresult, hstate⟩ := himage f hf s' hs
    rw [run_bind, hresult]
    exact hb f hf _ hstate

theorem follows_require (kind : TokenKind) (problem : Problem) {anchor : (Token → Token) → Rule Anchor}
    (h : ∀ s, Follows anchor s Anchor.map) (s : ParseState) :
    Follows (fun f => require kind problem (anchor f)) s (@plainView Bool) := by
  refine follows_accept_bind ?_ fun a _ _ => follows_plain true s.passed
  refine (h s).bind fun a t _ => ?_
  exact (follows_report problem a t).bind fun _ u _ => follows_plain false u

theorem Follows.ite {p : (Token → Token) → Rule Bool} {r q : (Token → Token) → Rule α}
    (hp : Follows p s (@plainView Bool))
    (hr : ∀ t, Follows r t view) (hq : ∀ t, Follows q t view) :
    Follows (fun f => p f >>= fun found => if found = true then r f else q f) s view := by
  refine hp.bind fun found t _ => ?_
  cases found with
  | true => exact hr t
  | false => exact hq t

end Follows

end Rule

open Rule

/-- However the tokens are replaced, the rule finds the same. -/
def Rule.Uniform (r : Rule (Option Node)) : Prop := ∀ s, Follows (fun _ => r) s nodeView

namespace AnchoredTree

def binary (kind : NodeKind) (left : Option AnchoredTree) (operator : Token)
    (right : Option AnchoredTree) : AnchoredTree :=
  .ofParts kind operator [left, some (.leaf .operator operator), right]

theorem nodeView_binary (f : Token → Token) (kind : NodeKind) (left : Option AnchoredTree)
    (operator : Token) (right : Option AnchoredTree) :
    nodeView f (some (binary kind left operator right)) =
      some (.binary kind (nodeView f left) (f operator) (nodeView f right)) := by
  simp [nodeView, binary, grow_ofParts, Node.binary, grow]

end AnchoredTree

section Expression

variable {kind : NodeKind} {joins : TokenKind → Bool} {operand expression : Rule (Option Node)}

theorem follows_chainOnto (h : operand.Uniform) (left : Option AnchoredTree) (s : ParseState) :
    Follows (fun f => chainOnto kind joins operand (nodeView f left)) s nodeView := by
  induction hn : s.cursor.rest.length using Nat.strongRecOn generalizing s left with
  | ind n ih =>
    refine .congr (fun f _ => chainOnto_eq (nodeView f left)) ?_
    refine follows_accept_bind (follows_pure nodeView left s) fun a ha _ => ?_
    refine (h s.passed).bind fun right t ht => ?_
    have hlt : s.passed.cursor.rest.length < s.cursor.rest.length :=
      Cursor.rest_length_advance_lt ha
    have hle := (operand.reaches s.passed).rest_length_le
    rw [← ht] at hle
    have hih := ih _ (by omega) (some (.binary kind left a.token right)) t rfl
    simp only [AnchoredTree.nodeView_binary] at hih
    exact hih

theorem chained_uniform (h : operand.Uniform) : (chained kind joins operand).Uniform :=
  fun s => (h s).bind fun left t _ => follows_chainOnto h left t

/-- What is in parentheses, and the token that closes them. -/
def parensView (f : Token → Token) (result : Option AnchoredTree × Option Anchor) :
    Option Node × Option Anchor :=
  (nodeView f result.1, anchorView f result.2)

theorem follows_parenthesised (h : expression.Uniform) (s : ParseState) :
    Follows (fun _ => parenthesised expression) s parensView := by
  refine .deeper ((follows_skip _).bind fun _ t _ => ?_)
  refine (h t).bind fun node u _ => ?_
  refine follows_accept_bind (follows_pure parensView (node, none) u) fun a _ _ => ?_
  exact follows_pure parensView (node, some a) u.passed

theorem factorFrom_leftParen {a : Anchor} (hk : a.token.kind = .leftParen) :
    factorFrom (some expression) a = (do
      let (node, closing) ← parenthesised expression
      match closing with
      | some _ => return node
      | none => report .parenUnclosed (← previousOr a); return none) := by
  obtain ⟨index, kind, text, first, last, span⟩ := a
  cases hk
  rfl

theorem follows_factorFrom {inner : Option (Rule (Option Node))} (h : ∀ e ∈ inner, e.Uniform)
    (a : Anchor) (s : ParseState) : Follows (fun f => factorFrom inner (a.map f)) s nodeView := by
  have hother : Follows (fun f => do report .strayOperand (a.map f); skip; pure none) s nodeView := by
    refine (follows_report _ a s).bind fun _ t _ => ?_
    exact (follows_skip t).bind fun _ u _ => follows_none u
  have hleaf : ∀ kind, Follows (fun f => do skip; pure (some (.leaf kind (f a.token)))) s nodeView :=
    fun kind => (follows_skip s).bind fun _ t _ => follows_pure nodeView (some (.leaf kind a.token)) t
  have hparens : a.token.kind = .leftParen →
      Follows (fun f => factorFrom inner (a.map f)) s nodeView := by
    intro hk
    cases inner with
    | none =>
      have hrefuse : Follows (fun f => do refuse (a.map f); pure none) s nodeView :=
        (follows_refuse a s).bind fun _ t _ => follows_none t
      exact .congr (fun f hf => by simp only [factorFrom, Anchor.map, hf a.token, hk]) hrefuse
    | some expression =>
      have hbody : Follows (fun f => do
          let (node, closing) ← parenthesised expression
          match closing with
          | some _ => return node
          | none => report .parenUnclosed (← previousOr (a.map f)); return none) s nodeView := by
        refine (follows_parenthesised (h expression rfl) s).bind fun result t _ => ?_
        obtain ⟨node, closing⟩ := result
        cases closing with
        | some closing => exact follows_pure nodeView node t
        | none =>
          refine (follows_previousOr a t).bind fun b u _ => ?_
          exact (follows_report _ b u).bind fun _ v _ => follows_none v
      exact hbody.congr fun f hf => factorFrom_leftParen ((hf a.token).trans hk)
  cases hk : a.token.kind with
  | leftParen => exact hparens hk
  | number =>
    exact .congr (fun f hf => by simp only [factorFrom, Anchor.map, hf a.token, hk]) (hleaf .number)
  | identifier =>
    exact .congr (fun f hf => by simp only [factorFrom, Anchor.map, hf a.token, hk])
      (hleaf .identifier)
  | _ => exact .congr (fun f hf => by simp only [factorFrom, Anchor.map, hf a.token, hk]) hother

theorem factor_uniform {inner : Option (Rule (Option Node))} (h : ∀ e ∈ inner, e.Uniform) :
    (factor inner).Uniform := by
  intro s
  refine (follows_peek s).bind fun o t _ => ?_
  cases o with
  | none => exact (follows_reportPrevious _ t).bind fun _ u _ => follows_none u
  | some a => exact follows_factorFrom h a t

theorem sum_uniform {inner : Option (Rule (Option Node))} (h : ∀ e ∈ inner, e.Uniform) :
    (sum inner).Uniform :=
  chained_uniform (chained_uniform (factor_uniform h))

theorem expressionAt_uniform (level : Nat) : (expressionAt level).Uniform :=
  expressionAt_induction (fun _ => sum_uniform) level

theorem follows_ofParts (kind : NodeKind) (anchor : Token) (parts : List (Option AnchoredTree))
    (s : ParseState) :
    Follows (fun f => pure (some (.interior kind (f anchor).span (parts.map (nodeView f))))) s
      nodeView := by
  have h := follows_pure nodeView (some (.ofParts kind anchor parts)) s
  simp only [nodeView, Option.map_some, AnchoredTree.grow_ofParts] at h
  exact h

theorem condition_uniform (h : expression.Uniform) : (condition expression).Uniform := by
  intro s
  refine .within ((h _).bind fun left t _ => ?_)
  refine follows_accept_bind ?_ fun operator _ _ => ?_
  · exact (follows_reportPrevious _ t).bind fun _ u _ => follows_none u
  · refine (h t.passed).bind fun right u _ => ?_
    exact follows_ofParts .condition operator.token
      [left, some (.leaf .relationalOperator operator.token), right] u

end Expression

section Statement

variable {expression : Rule (Option Node)}

theorem follows_previous (a : Anchor) : ∀ s, Follows (fun f => pure (a.map f)) s Anchor.map :=
  fun s => follows_pure Anchor.map a s

theorem follows_declaration (h : expression.Uniform) (a : Anchor) (s : ParseState) :
    Follows (fun f => declaration expression (a.map f)) s nodeView := by
  refine .within ((follows_skip _).bind fun _ t _ => ?_)
  refine follows_accept_bind ?_ fun name _ _ => ?_
  · exact (follows_report _ a t).bind fun _ u _ => follows_none u
  · refine .ite (follows_require _ _ (follows_previous name) _) (fun u => ?_) follows_none
    refine (h u).bind fun value v _ => ?_
    refine .ite (follows_require _ _ (follows_previousOr a) v) (fun w => ?_) follows_none
    exact follows_ofParts .declaration a.token [some (.leaf .identifier name.token), value] w

theorem follows_assignment (h : expression.Uniform) (a : Anchor) (s : ParseState) :
    Follows (fun f => assignment expression (a.map f)) s nodeView := by
  refine .within ((follows_skip _).bind fun _ t _ => ?_)
  refine .ite (follows_require _ _ (follows_previous a) t) (fun u => ?_) follows_none
  refine (h u).bind fun value v _ => ?_
  refine .ite (follows_require _ _ (follows_previousOr a) v) (fun w => ?_) follows_none
  exact follows_ofParts .assignment a.token [some (.leaf .identifier a.token), value] w

theorem follows_printing (h : expression.Uniform) (a : Anchor) (s : ParseState) :
    Follows (fun f => printing expression (a.map f)) s nodeView := by
  refine .within ((follows_skip _).bind fun _ t _ => ?_)
  refine .ite (follows_require _ _ (follows_previous a) t) (fun u => ?_) follows_none
  refine (h u).bind fun value v _ => ?_
  refine .ite (follows_require _ _ (follows_previousOr a) v) (fun w => ?_) follows_none
  refine .ite (follows_require _ _ (follows_previousOr a) w) (fun x => ?_) follows_none
  exact follows_ofParts .printStatement a.token [value] x

def statementView (f : Token → Token) (result : Except Stall (Option AnchoredTree)) :
    Except Stall (Option Node) :=
  result.map (nodeView f)

def bodyView (f : Token → Token) (result : Except Stall (List AnchoredTree)) :
    Except Stall (List Node) :=
  result.map (AnchoredTree.growAll f)

/-- However the tokens are replaced, the rule for statements finds the same. -/
def Rule.UniformStatement (r : Rule (Except Stall (Option Node))) : Prop :=
  ∀ s, Follows (fun _ => r) s statementView

theorem follows_ok {r : (Token → Token) → Rule (Option Node)} {s : ParseState}
    (h : Follows r s nodeView) : Follows (fun f => Except.ok <$> r f) s statementView :=
  h.bind fun node t _ => follows_pure statementView (.ok node) t

theorem follows_ok_none (s : ParseState) : Follows (fun _ => pure (.ok none)) s statementView :=
  follows_pure statementView (.ok none) s

section Gather

variable {one : Rule (Except Stall (Option Node))}

theorem growAll_push (f : Token → Token) (node : Option AnchoredTree) (done : List AnchoredTree) :
    (nodeView f node).toList ++ AnchoredTree.growAll f done =
      AnchoredTree.growAll f (node.toList ++ done) := by
  cases node <;> rfl

theorem follows_gathered (done : List AnchoredTree) (s : ParseState) :
    Follows (fun f => pure (.ok (AnchoredTree.growAll f done).reverse)) s bodyView := by
  have h := follows_pure bodyView (.ok done.reverse) s
  have hview : ∀ f, bodyView f (.ok done.reverse) = .ok (AnchoredTree.growAll f done).reverse := by
    intro f
    simp only [bodyView, Except.map, AnchoredTree.growAll_eq_map, List.map_reverse]
  simp only [hview] at h
  exact h

theorem follows_gatherOnto (hadv : one.Advances) (h : one.UniformStatement)
    (closes : TokenKind → Bool) (done : List AnchoredTree) (s : ParseState) :
    Follows (fun f => gatherOnto one closes (AnchoredTree.growAll f done)) s bodyView := by
  induction hn : s.cursor.rest.length using Nat.strongRecOn generalizing s done with
  | ind n ih =>
    cases hr : s.cursor.rest with
    | nil =>
      refine (follows_gathered done s).of_run_eq fun f _ s' hs => gatherOnto_nil ?_
      simp [hs.cursor, Cursor.map, hr]
    | cons t rest =>
      have hrest : ∀ f s', s.Image f s' → s'.cursor.rest = f t :: rest.map f := by
        intro f s' hs
        simp [hs.cursor, Cursor.map, hr]
      cases hc : closes t.kind with
      | true =>
        refine (follows_gathered done s).of_run_eq fun f hf s' hs =>
          gatherOnto_closed (hrest f s' hs) ?_
        rw [hf t, hc]
      | false =>
        refine .of_run_eq (fun f hf s' hs => gatherOnto_cons hadv _ (hrest f s' hs) ?_) ?_
        · rw [hf t, hc]
        · refine (h s).bind fun result u hu => ?_
          have hlt := (one.reaches s).rest_length_lt (hadv s (by simp [hr]))
          rw [← hu] at hlt
          cases result with
          | error stall => exact follows_pure bodyView (.error stall) u
          | ok node =>
            have hih := ih _ (by omega) (node.toList ++ done) u rfl
            simp only [← growAll_push] at hih
            exact hih

theorem follows_gather (hadv : one.Advances) (h : one.UniformStatement) (closes : TokenKind → Bool)
    (s : ParseState) : Follows (fun _ => gather one closes) s bodyView :=
  follows_gatherOnto hadv h closes [] s

theorem follows_blockStatement (he : expression.Uniform) (hadv : one.Advances)
    (h : one.UniformStatement) (block : Block) (a : Anchor) (s : ParseState) :
    Follows (fun f => blockStatement block expression one (a.map f)) s statementView := by
  refine .deeper (.within ((follows_skip _).bind fun _ t _ => ?_))
  refine .ite (follows_require _ _ (follows_previous a) t) (fun u => ?_) follows_ok_none
  refine (condition_uniform he u).bind fun test v _ => ?_
  refine .ite (follows_require _ _ (follows_previousOr a) v) (fun w => ?_) follows_ok_none
  refine .ite (follows_require _ _ (follows_previousOr a) w) (fun x => ?_) follows_ok_none
  refine (follows_gather hadv h _ x).bind fun result y _ => ?_
  cases result with
  | error stall => exact follows_pure statementView (.error stall) y
  | ok body =>
    refine .ite (follows_require _ _ (follows_previous a) y) (fun z => ?_) follows_ok_none
    exact follows_ok (follows_ofParts block.nodeKind a.token
      [test, some (.interior .body a.token body)] z)

end Gather

theorem follows_nestedStatement {inner : BlockParts} (h : ∀ parts ∈ inner, PartsHave Uniform UniformStatement parts)
    (block : Block) (a : Anchor) (s : ParseState) :
    Follows (fun f => nestedStatement inner block (a.map f)) s statementView := by
  cases inner with
  | none => exact (follows_refuse a s).bind fun _ t _ => follows_ok_none t
  | some parts =>
    have hp := h parts rfl
    exact follows_blockStatement hp.expression hp.advances hp.statement block a s

theorem follows_statementFrom {inner : BlockParts} (he : expression.Uniform)
    (h : ∀ parts ∈ inner, PartsHave Uniform UniformStatement parts) (a : Anchor) (s : ParseState) :
    Follows (fun f => statementFrom expression inner (a.map f)) s statementView := by
  have hstray : Follows (fun f => do report .strayToken (a.map f); skip; pure (.ok none)) s
      statementView := by
    refine (follows_report _ a s).bind fun _ t _ => ?_
    exact (follows_skip t).bind fun _ u _ => follows_ok_none u
  cases hk : a.token.kind with
  | keyword word =>
    cases word with
    | letKw =>
      exact .congr (fun f hf => by simp only [statementFrom, Anchor.map, hf a.token, hk])
        (follows_ok (follows_declaration he a s))
    | ifKw =>
      exact .congr (fun f hf => by simp only [statementFrom, Anchor.map, hf a.token, hk])
        (follows_nestedStatement h .conditional a s)
    | whileKw =>
      exact .congr (fun f hf => by simp only [statementFrom, Anchor.map, hf a.token, hk])
        (follows_nestedStatement h .loop a s)
    | printKw =>
      exact .congr (fun f hf => by simp only [statementFrom, Anchor.map, hf a.token, hk])
        (follows_ok (follows_printing he a s))
    | _ => exact .congr (fun f hf => by simp only [statementFrom, Anchor.map, hf a.token, hk]) hstray
  | identifier =>
    exact .congr (fun f hf => by simp only [statementFrom, Anchor.map, hf a.token, hk])
      (follows_ok (follows_assignment he a s))
  | _ => exact .congr (fun f hf => by simp only [statementFrom, Anchor.map, hf a.token, hk]) hstray

theorem statement_uniform {inner : BlockParts} (he : expression.Uniform)
    (h : ∀ parts ∈ inner, PartsHave Uniform UniformStatement parts) : (statement expression inner).UniformStatement := by
  intro s
  refine (follows_peek s).bind fun o t _ => ?_
  cases o with
  | none => exact follows_ok_none t
  | some a => exact follows_statementFrom he h a t

theorem statementAt_uniform (level : Nat) : (statementAt level).UniformStatement :=
  statementAt_induction expressionAt_uniform (fun _ _ => statement_uniform) level

end Statement

def treeView (f : Token → Token) (result : Except Stall AnchoredTree) : Except Stall Node :=
  result.map (AnchoredTree.grow f)

theorem follows_program (s : ParseState) : Follows (fun _ => program) s treeView := by
  have hgather := follows_gather (statementAt_proceeds Limits.nesting).advances
    (statementAt_uniform Limits.nesting) (fun _ => false) (s.enter .program)
  refine .within (hgather.bind fun result t _ => ?_)
  cases result with
  | error stall => exact follows_pure treeView (.error stall) t
  | ok statements => exact follows_pure treeView (.ok (.root statements)) t

/-- One tree and one list of findings stand for the parses of all replacements of the tokens. -/
theorem exists_parses (ts : List Token) : ∃ (tree : AnchoredTree) (findings : List Finding),
    ∀ f, KeepsKinds f →
      parse (ts.map f) = .ok ⟨tree.grow f, findings.map (Finding.map f)⟩ := by
  obtain ⟨result, t, hresult⟩ := follows_program (.start ts)
  obtain ⟨tree, rfl⟩ : ∃ tree, result = .ok tree := by
    obtain ⟨statements, hs, _⟩ := program_ends (.start ts)
    have hid := (hresult id keepsKinds_id _ (ParseState.image_id _)).1
    rw [hs] at hid
    cases result with
    | ok tree => exact ⟨tree, rfl⟩
    | error stall => simp [treeView, Except.map] at hid
  refine ⟨tree, t.findings.reverse, fun f hf => ?_⟩
  obtain ⟨htree, hstate⟩ := hresult f hf _ (ParseState.image_start f ts)
  have hparse := parse_of_runParser htree
  rw [hparse, runParser, hstate.findings, List.map_reverse]

/-- Moves one token to another place. -/
def Token.displace (t u : Token) : Token :=
  if u = t then { u with span := ⟨u.span.start.next 'x', u.span.finish⟩ } else u

theorem displace_keepsKinds (t : Token) : KeepsKinds t.displace := by
  intro u
  unfold Token.displace
  split <;> rfl

/-- A token of the tree is one of the tokens parsed, since its place is told. -/
theorem mem_of_mem_anchors {ts : List Token} {tree : AnchoredTree} {findings : List Finding}
    (h : ∀ f, KeepsKinds f → parse (ts.map f) = .ok ⟨tree.grow f, findings.map (Finding.map f)⟩) :
    ∀ t ∈ tree.anchors, t ∈ ts := by
  intro t ht
  refine Classical.byContradiction fun hmem => ?_
  have hsame : ts.map t.displace = ts.map id := by
    refine List.map_congr_left fun u hu => ?_
    have hne : u ≠ t := fun heq => hmem (heq ▸ hu)
    simp [Token.displace, hne]
  have hparse := h t.displace (displace_keepsKinds t)
  rw [hsame, h id keepsKinds_id] at hparse
  have htree : tree.grow id = tree.grow t.displace :=
    congrArg Parsed.tree (Except.ok.inj hparse)
  have hspan := AnchoredTree.span_eq_of_grow_eq tree htree t ht
  have hcolumn := congrArg (fun span : Span => span.start.column) hspan
  simp [Token.displace, Position.next] at hcolumn

/-- The two diagnostics are about two tokens and tell the same of them. -/
structure Diagnostic.TellsAlike (mode : PositionMode) (t u : Token) (d e : Diagnostic) : Prop where
  code : d.code = e.code
  first : d.AnchoredAt mode t
  second : e.AnchoredAt mode u
  message : d.message = e.message ∨
    ∃ lead ∈ quotingLeads, d.message = lead ++ t.text ∧ e.message = lead ++ u.text

theorem Finding.map_tellsAlike (mode : PositionMode) (f : Token → Token) (x : Finding) :
    Diagnostic.TellsAlike mode x.anchor.token (f x.anchor.token) (x.diagnostic mode)
      ((x.map f).diagnostic mode) where
  code := rfl
  first := ⟨rfl, rfl⟩
  second := ⟨rfl, rfl⟩
  message := by
    rcases message_cases x.problem with ⟨_, lead, hlead, hmessage⟩ | hmessage
    · exact .inr ⟨lead, hlead, hmessage _, hmessage _⟩
    · exact .inl ((hmessage _).trans (hmessage _).symm)

/-- Tokens that are replaced by others of the same kinds give the same tree, with the replacements in
the place of the tokens, and the same findings at the same indices. -/
theorem parse_map (ts : List Token) :
    ∃ (tree : AnchoredTree) (findings : List Finding),
      parse ts = .ok ⟨tree.grow id, findings⟩ ∧
      (∀ t ∈ tree.anchors, t ∈ ts) ∧
      (∀ x ∈ findings, ts[x.anchor.index]? = some x.anchor.token) ∧
      ∀ f, KeepsKinds f →
        parse (ts.map f) = .ok ⟨tree.grow f, findings.map (Finding.map f)⟩ ∧
        ∀ mode, ∀ x ∈ findings, (x.map f).anchor.index = x.anchor.index ∧
          Diagnostic.TellsAlike mode x.anchor.token (f x.anchor.token) (x.diagnostic mode)
            ((x.map f).diagnostic mode) := by
  obtain ⟨tree, findings, h⟩ := exists_parses ts
  have hid : parse ts = .ok ⟨tree.grow id, findings⟩ := by
    have hmap := h id keepsKinds_id
    have hfindings : findings.map (Finding.map id) = findings := List.map_id _
    rwa [List.map_id, hfindings] at hmap
  refine ⟨tree, findings, hid, mem_of_mem_anchors h, anchored_of_parse hid, fun f hf => ⟨h f hf, ?_⟩⟩
  exact fun mode x _ => ⟨rfl, x.map_tellsAlike mode f⟩

theorem parse_map_renamed :
    let stray : Token := ⟨.semicolon, ";", 0, 0, ⟨⟨0, 1, 1⟩, ⟨1, 1, 2⟩⟩⟩
    let name : Token := ⟨.identifier, "x", 1, 1, ⟨⟨1, 1, 2⟩, ⟨2, 1, 3⟩⟩⟩
    let assign : Token := ⟨.assign, "=", 2, 2, ⟨⟨2, 1, 3⟩, ⟨3, 1, 4⟩⟩⟩
    let value : Token := ⟨.number, "7", 3, 3, ⟨⟨3, 1, 4⟩, ⟨4, 1, 5⟩⟩⟩
    let ending : Token := ⟨.semicolon, ";", 4, 4, ⟨⟨4, 1, 5⟩, ⟨5, 1, 6⟩⟩⟩
    let ts := [stray, name, assign, value, ending]
    let rename (t : Token) : Token :=
      ⟨t.kind, t.text ++ "y", t.last, t.first + 9, ⟨t.span.finish, ⟨0, t.first, t.last⟩⟩⟩
    KeepsKinds rename ∧ ∃ (tree : AnchoredTree) (findings : List Finding),
      parse ts = .ok ⟨tree.grow id, findings⟩ ∧
      parse (ts.map rename) = .ok ⟨tree.grow rename, findings.map (Finding.map rename)⟩ ∧
      tree.grow id = .root [.interior .assignment name.span
        [some (.leaf .identifier name), some (.leaf .number value)]] ∧
      tree.grow rename = .root [.interior .assignment (rename name).span
        [some (.leaf .identifier (rename name)), some (.leaf .number (rename value))]] ∧
      findings.map (fun x => (x.diagnostic .source).message) = ["Unexpected token: ;"] ∧
      findings.map (fun x => ((x.map rename).diagnostic .source).message) =
        ["Unexpected token: ;y"] := by
  intro stray name assign value ending ts rename
  have hrename : KeepsKinds rename := fun _ => rfl
  have hparses : ∀ f, KeepsKinds f → parse (ts.map f) = .ok ⟨.root [.interior .assignment
      (f name).span [some (.leaf .identifier (f name)), some (.leaf .number (f value))]],
      [⟨.strayToken, 0, f stray⟩]⟩ := by
    intro f hf
    have hvalue : ReadsExpression Limits.nesting [f value] (.leaf .number (f value)) := by
      rw [readsExpression_eq]
      exact .single (.single (.number (hf value)))
    have hstatement : ReadsStatementAt Limits.nesting [f name, f assign, f value, f ending]
        (.interior .assignment (f name).span
          [some (.leaf .identifier (f name)), some (.leaf .number (f value))]) := by
      rw [readsStatementAt_eq]
      exact .assignment (hf name) (hf assign) (hf ending) hvalue
    exact parse_semicolon_cons (hf stray) (.cons hstatement .nil)
  obtain ⟨tree, findings, hparse, -, -, hmap⟩ := parse_map ts
  have hrenamed := (hmap rename hrename).1
  have hfirst := hparses id keepsKinds_id
  have hsecond := hparses rename hrename
  rw [List.map_id, hparse] at hfirst
  rw [hrenamed] at hsecond
  obtain ⟨htree, hfindings⟩ := Parsed.mk.inj (Except.ok.inj hfirst)
  have hgrown := (Parsed.mk.inj (Except.ok.inj hsecond)).1
  refine ⟨hrename, tree, findings, hparse, hrenamed, htree, hgrown, ?_, ?_⟩
  · rw [hfindings]
    rfl
  · rw [hfindings]
    rfl

end YupFront
