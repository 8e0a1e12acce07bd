import Mathlib.Data.List.Chain
import YupFront.Proofs.Scanning

/-! The check of the order of tokens. It compares neighbours only; since no token ends before it
begins, that decides whether any two tokens overlap. If it fails, it names what is wrong first. The
tokens of a text pass. -/

namespace YupFront

variable {ts : List Token}

namespace Token

/-- No token ends before it begins, and of any two the one in front has ended when the other
begins. -/
structure Ordered (ts : List Token) : Prop where
  ends_le : ∀ t ∈ ts, t.first ≤ t.last
  disjoint : ∀ i j (hi : i < ts.length) (hj : j < ts.length), i < j → ts[i].last < ts[j].first

variable {t u : Token}

/-! Each token by itself. -/

theorem reversed?_eq_none_iff : reversed? ts = none ↔ ∀ t ∈ ts, t.first ≤ t.last := by
  simp [reversed?]

theorem reversed?_eq_some_iff : reversed? ts = some t ↔
    ∃ before after, ts = before ++ t :: after ∧
      (∀ v ∈ before, v.first ≤ v.last) ∧ t.last < t.first := by
  rw [reversed?, List.find?_eq_some_iff_append]
  simp only [decide_eq_true_eq, Bool.not_eq_true', decide_eq_false_iff_not, Nat.not_lt]
  constructor
  · rintro ⟨hreversed, before, after, hts, hbefore⟩
    exact ⟨before, after, hts, hbefore, hreversed⟩
  · rintro ⟨before, after, hts, hbefore, hreversed⟩
    exact ⟨hreversed, before, after, hts, hbefore⟩

/-! Neighbours. -/

theorem overlap?_cons_cons (h : u.first ≤ t.last) : overlap? (t :: u :: ts) = some (t, u) :=
  if_pos h

theorem overlap?_cons (h : ∀ u ∈ ts.head?, t.last < u.first) :
    overlap? (t :: ts) = overlap? ts := by
  cases ts with
  | nil => rfl
  | cons u rest =>
    have hlt := h u rfl
    rw [overlap?, if_neg (by omega)]

theorem overlap?_cases (t : Token) (ts : List Token) :
    (∀ u ∈ ts.head?, t.last < u.first) ∨ ∃ u rest, ts = u :: rest ∧ u.first ≤ t.last := by
  cases ts with
  | nil => exact .inl nofun
  | cons u rest =>
    by_cases hle : u.first ≤ t.last
    · exact .inr ⟨u, rest, rfl, hle⟩
    · refine .inl fun v hv => ?_
      cases hv
      omega

theorem overlap?_eq_none_iff : overlap? ts = none ↔ ts.IsChain fun t u => t.last < u.first := by
  induction ts with
  | nil => simp [overlap?]
  | cons t ts ih =>
    rcases overlap?_cases t ts with hnext | ⟨u, rest, rfl, hle⟩
    · rw [List.isChain_cons, overlap?_cons hnext, ih, and_iff_right hnext]
    · rw [overlap?_cons_cons hle, List.isChain_cons_cons]
      exact iff_of_false nofun fun hchain => absurd hchain.1 (by omega)

theorem overlap?_eq_some_iff : overlap? ts = some (t, u) ↔
    ∃ before after, ts = before ++ t :: u :: after ∧
      (before ++ [t]).IsChain (fun v w => v.last < w.first) ∧ u.first ≤ t.last := by
  have hhead (before after : List Token) :
      (before ++ t :: u :: after).head? = (before ++ [t]).head? := by
    simp [List.head?_append]
  constructor
  · intro h
    induction ts with
    | nil => cases h
    | cons v ts ih =>
      rcases overlap?_cases v ts with hnext | ⟨w, rest, rfl, hle⟩
      · rw [overlap?_cons hnext] at h
        obtain ⟨before, after, rfl, hchain, hoverlap⟩ := ih h
        rw [hhead] at hnext
        exact ⟨v :: before, after, rfl, List.isChain_cons.mpr ⟨hnext, hchain⟩, hoverlap⟩
      · rw [overlap?_cons_cons hle] at h
        cases h
        exact ⟨[], rest, rfl, .singleton _, hle⟩
  · rintro ⟨before, after, rfl, hchain, hoverlap⟩
    induction before with
    | nil => exact overlap?_cons_cons hoverlap
    | cons v before ih =>
      rw [List.cons_append, List.isChain_cons, ← hhead before after] at hchain
      obtain ⟨hnext, hrest⟩ := hchain
      exact (overlap?_cons hnext).trans (ih hrest)

/-! All pairs. -/

/-- A token that is in order with the next one is in order with all that follow, for the next one
does not end before it begins. -/
theorem pairwise_of_isChain (hends : ∀ t ∈ ts, t.first ≤ t.last)
    (hchain : ts.IsChain fun t u => t.last < u.first) :
    ts.Pairwise fun t u => t.last < u.first := by
  induction ts with
  | nil => exact .nil
  | cons t ts ih =>
    obtain ⟨hnext, hrest⟩ := List.isChain_cons.mp hchain
    obtain ⟨-, hends⟩ := List.forall_mem_cons.mp hends
    have hordered := ih hends hrest
    refine List.pairwise_cons.mpr ⟨fun v hv => ?_, hordered⟩
    cases ts with
    | nil => cases hv
    | cons u rest =>
      have hlt := hnext u rfl
      have hle := hends u (.head _)
      rcases List.mem_cons.mp hv with rfl | hv
      · exact hlt
      · have hbehind := (List.pairwise_cons.mp hordered).1 v hv
        omega

theorem ordered_iff_pairwise : Ordered ts ↔
    (∀ t ∈ ts, t.first ≤ t.last) ∧ ts.Pairwise fun t u => t.last < u.first := by
  rw [List.pairwise_iff_getElem]
  exact ⟨fun h => ⟨h.ends_le, h.disjoint⟩, fun h => ⟨h.1, h.2⟩⟩

theorem ordered_iff : Ordered ts ↔ reversed? ts = none ∧ overlap? ts = none := by
  rw [ordered_iff_pairwise, reversed?_eq_none_iff, overlap?_eq_none_iff]
  constructor
  · rintro ⟨hends, hordered⟩
    exact ⟨hends, hordered.isChain⟩
  · rintro ⟨hends, hchain⟩
    exact ⟨hends, pairwise_of_isChain hends hchain⟩

end Token

open Token

theorem checkOrder_eq_ok_iff : checkOrder ts = .ok () ↔ Ordered ts := by
  rw [ordered_iff, checkOrder]
  cases reversed? ts with
  | some t => simp
  | none =>
    cases overlap? ts with
    | some pair => simp
    | none => simp

namespace OrderError

/-- What is wrong first with the order of `ts`: the first token that ends before it begins or, if
there is none, the first two neighbours that overlap. -/
inductive FirstIn (ts : List Token) : OrderError → Prop where
  | reversed {before after : List Token} {t : Token} : ts = before ++ t :: after →
      (∀ v ∈ before, v.first ≤ v.last) → t.last < t.first → FirstIn ts (.reversed t)
  | overlapping {before after : List Token} {t u : Token} : ts = before ++ t :: u :: after →
      (∀ v ∈ ts, v.first ≤ v.last) → (before ++ [t]).IsChain (fun v w => v.last < w.first) →
      u.first ≤ t.last → FirstIn ts (.overlapping t u)

def tokens : OrderError → List Token
  | reversed t => [t]
  | overlapping t u => [t, u]

theorem exists_render_message {e : OrderError} {t : Token} (h : t ∈ e.tokens) :
    ∃ front back, e.message = front ++ t.render ++ back := by
  cases e with
  | reversed u =>
    obtain rfl := List.mem_singleton.mp h
    exact ⟨"Token ", " has start offset " ++ t.first.repr ++ " after end offset " ++ t.last.repr, by
      simp only [message, String.append_assoc]⟩
  | overlapping u v =>
    rw [tokens, List.mem_pair] at h
    rcases h with rfl | rfl
    · exact ⟨"Token " ++ v.render ++ " at " ++ v.first.repr ++ " overlaps ",
        " ending at " ++ t.last.repr, by simp only [message, String.append_assoc]⟩
    · exact ⟨"Token ",
        " at " ++ t.first.repr ++ " overlaps " ++ u.render ++ " ending at " ++ u.last.repr, by
        simp only [message, String.append_assoc]⟩

end OrderError

open OrderError in
theorem checkOrder_eq_error_iff {e : OrderError} : checkOrder ts = .error e ↔ FirstIn ts e := by
  constructor
  · intro h
    unfold checkOrder at h
    cases hreversed : reversed? ts with
    | some t =>
      obtain ⟨before, after, hts, hbefore, hlt⟩ := reversed?_eq_some_iff.mp hreversed
      rw [hreversed] at h
      cases h
      exact .reversed hts hbefore hlt
    | none =>
      have hends := reversed?_eq_none_iff.mp hreversed
      cases hoverlap : overlap? ts with
      | some pair =>
        obtain ⟨before, after, hts, hchain, hle⟩ := overlap?_eq_some_iff.mp hoverlap
        rw [hreversed, hoverlap] at h
        cases h
        exact .overlapping hts hends hchain hle
      | none =>
        rw [hreversed, hoverlap] at h
        cases h
  · intro h
    cases h with
    | reversed hts hbefore hlt =>
      rw [checkOrder, reversed?_eq_some_iff.mpr ⟨_, _, hts, hbefore, hlt⟩]
    | overlapping hts hends hchain hle =>
      rw [checkOrder, reversed?_eq_none_iff.mpr hends,
        overlap?_eq_some_iff.mpr ⟨_, _, hts, hchain, hle⟩]

/-- The lexer does not produce tokens out of order. -/
theorem checkOrder_of_tokenize {source : String} (h : tokenize source = .ok ts) :
    checkOrder ts = .ok () := by
  have htiles : TilesFrom source.toList 0 ts := (tilesFrom_iff rfl).mpr (tokenize_place h)
  rw [checkOrder_eq_ok_iff, ordered_iff_pairwise]
  exact ⟨fun t ht => (htiles.last_lt t ht).1, htiles.ordered⟩

/-- The check of neighbours decides whether tokens are disjoint and tells what is wrong first. It
passes the tokens of every text that is not too long to be lexed. -/
theorem order_check_decides_disjointness :
    (∀ ts, (checkOrder ts = .ok () ↔ Token.Ordered ts) ∧
      ∀ e, (checkOrder ts = .error e ↔ OrderError.FirstIn ts e) ∧
        ∀ t ∈ e.tokens, ∃ front back, e.message = front ++ t.render ++ back) ∧
    ∀ source, match tokenize source with
      | .ok ts => checkOrder ts = .ok ()
      | .error f => f = .sumTooLarge ∧ lineBound ≤ source.length + 1 := by
  constructor
  · intro ts
    refine ⟨checkOrder_eq_ok_iff, fun e => ⟨checkOrder_eq_error_iff, fun t ht => ?_⟩⟩
    exact OrderError.exists_render_message ht
  · intro source
    cases htokens : tokenize source with
    | ok ts => exact checkOrder_of_tokenize htokens
    | error f => exact of_tokenize_error htokens

theorem order_check_decides_disjointness_word :
    let word : Token := ⟨.identifier, "ab", 0, 1, ⟨.start, ⟨2, 1, 3⟩⟩⟩
    let mark : Token := ⟨.semicolon, ";", 2, 2, ⟨⟨2, 1, 3⟩, ⟨3, 1, 4⟩⟩⟩
    let e : OrderError := .overlapping mark word
    tokenize "ab;" = .ok [word, mark] ∧ checkOrder [word, mark] = .ok () ∧
      checkOrder [word, mark, word, mark] = .error e ∧
      word ∈ e.tokens ∧ ∃ front back, e.message = front ++ word.render ++ back := by
  intro word mark e
  have hchunks : Chunk.ofText "ab;".toList = [.run ['a', 'b'], .symbol [';']] := by
    simp [Chunk.ofText_cons, Chunk.cut, isSeparator, isPunctuation, isOperatorLead, isPlain]
  have hsource : tokenize "ab;" = .ok [word, mark] := by
    rw [tokenize, hchunks]
    rfl
  obtain ⟨hchecked, hlexed⟩ := order_check_decides_disjointness
  have hpasses := hlexed "ab;"
  rw [hsource] at hpasses
  obtain ⟨hfirst, hnames⟩ := (hchecked [word, mark, word, mark]).2 e
  have hword : word ∈ e.tokens := .tail _ (.head _)
  refine ⟨hsource, hpasses, hfirst.mpr ?_, hword, hnames word hword⟩
  -- The second word begins before the mark in front of it.
  have hsplit : [word, mark, word, mark] = [word] ++ mark :: word :: [mark] := rfl
  exact .overlapping hsplit (by decide) (by decide) (by decide)

end YupFront
