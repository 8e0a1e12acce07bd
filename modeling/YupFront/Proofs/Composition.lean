import YupFront.Lexer.Analyzer
import YupFront.Proofs.Journal
import YupFront.Proofs.Layout
import YupFront.Proofs.Placement

/-! Lexing a text in two parts. At a separator nothing is carried over but the place that has been
reached, so that the tokens of the second part are moved there and the counts are joined. -/

namespace YupFront

namespace Chunk

theorem cut_append_separator {sep : Char} (hsep : sep ∈ separators) (c : Char)
    (cs ds : List Char) : cut c (cs ++ sep :: ds) = ((cut c cs).1, (cut c cs).2 ++ sep :: ds) := by
  by_cases hs : isSeparator c = true
  · simp only [cut, if_pos hs]
  · obtain ⟨-, hlong⟩ := longest_of_cut cs (Bool.eq_false_iff.mpr hs)
    have htext := cut_text c cs
    have hlonger : Longest (cut c cs).1.text ((cut c cs).2 ++ sep :: ds).head? := by
      cases hr : (cut c cs).2 with
      | nil => exact longest_before_separator hlong.lexeme hsep
      | cons d rest => rwa [hr] at hlong
    have hall : (cut c cs).1.text ++ ((cut c cs).2 ++ sep :: ds) = c :: (cs ++ sep :: ds) := by
      rw [← List.append_assoc, htext, List.cons_append]
    obtain ⟨hfirst, hrest⟩ := cut_of_longest hlonger hall
    exact Prod.ext (cut_eq_of_text_eq hfirst) hrest

theorem ofText_append_separator {sep : Char} (hsep : sep ∈ separators) (cs ds : List Char) :
    ofText (cs ++ sep :: ds) = ofText cs ++ blank sep :: ofText ds := by
  induction cs using Chunk.induction with
  | nil =>
    have hcut : cut sep ds = (blank sep, ds) := by rw [cut, if_pos (isSeparator_iff.mpr hsep)]
    rw [List.nil_append, ofText_cons, hcut, ofText_nil, List.nil_append]
  | cons c cs ih =>
    rw [List.cons_append, ofText_cons, cut_append_separator hsep, ih, ofText_cons, List.cons_append]

end Chunk

/-- How far positions and indices are moved, columns on the first line only. -/
structure Shift where
  characters : Nat
  bytes : Nat
  lines : Nat
  columns : Nat
deriving DecidableEq, Repr

/-- From the beginning to behind a text and a separator. -/
def Shift.past (text : String) (sep : Char) : Shift where
  characters := text.length + 1
  bytes := text.utf8ByteSize + 1
  lines := (text.push sep).toList.count '\n'
  columns := ((text.push sep).toList.rtakeWhile (· ≠ '\n')).length

def Position.shift (d : Shift) (p : Position) : Position where
  offset := p.offset + d.bytes
  line := p.line + d.lines
  column := if p.line = 1 then p.column + d.columns else p.column

def Token.shift (d : Shift) (t : Token) : Token where
  kind := t.kind
  text := t.text
  first := t.first + d.characters
  last := t.last + d.characters
  span := ⟨t.span.start.shift d, t.span.finish.shift d⟩

section Shift

variable {d : Shift} {p : Position} {index : Nat}

theorem Position.line_next_pos (h : 0 < p.line) (c : Char) : 0 < (p.next c).line := by
  by_cases hc : c = '\n'
  · simp [next, hc]
  · simpa [next, hc] using h

/-- Behind a newline the first line is left, and with it what is added to its columns. -/
theorem Position.next_shift (h : 0 < p.line) (c : Char) :
    (p.shift d).next c = (p.next c).shift d := by
  by_cases hc : c = '\n'
  · simp [next, shift, hc]
    omega
  · by_cases hline : p.line = 1
    · simp [next, shift, hc, hline]
      omega
    · simp [next, shift, hc, hline]
      omega

theorem Position.after_shift (h : 0 < p.line) (cs : List Char) :
    (p.shift d).after cs = (p.after cs).shift d := by
  induction cs generalizing p with
  | nil => rfl
  | cons c cs ih =>
    have hnext := ih (line_next_pos h c)
    rw [← next_shift h] at hnext
    exact hnext

theorem Position.line_after_pos (h : 0 < p.line) (cs : List Char) : 0 < (p.after cs).line := by
  induction cs generalizing p with
  | nil => exact h
  | cons c cs ih => exact ih (line_next_pos h c)

theorem tokens_shift (h : 0 < p.line) (chunk : Chunk) :
    chunk.tokens (index + d.characters) (p.shift d) =
      (chunk.tokens index p).map (Token.shift d) := by
  by_cases hb : chunk.isBlank = true
  · simp [Chunk.tokens, hb]
  · simp [Chunk.tokens, hb, Token.shift, Position.after_shift h]
    omega

theorem tokensFrom_shift (index : Nat) (h : 0 < p.line) (chunks : List Chunk) :
    tokensFrom (index + d.characters) (p.shift d) chunks =
      (tokensFrom index p chunks).map (Token.shift d) := by
  induction chunks generalizing index p with
  | nil => rfl
  | cons chunk rest ih =>
    have hrest := ih (index + chunk.text.length) (Position.line_after_pos h chunk.text)
    rw [Nat.add_right_comm, ← Position.after_shift h] at hrest
    rw [tokensFrom, tokensFrom, List.map_append, tokens_shift h, hrest]

theorem start_shift_past (text : String) {sep : Char} (hsep : sep ∈ separators) :
    Position.start.shift (.past text sep) = Position.start.after (text.push sep).toList := by
  have hline := Position.line_after_start (text.push sep).toList
  have hcolumn := Position.column_after_start (text.push sep).toList
  have hoffset := Position.offset_after .start (text.push sep).toList
  have hone : sep.utf8Size = 1 := by
    simp only [separators, List.mem_cons, List.not_mem_nil, or_false] at hsep
    rcases hsep with rfl | rfl | rfl <;> decide
  rw [String.ofList_toList, String.utf8ByteSize_push, hone] at hoffset
  rw [lastLine_eq_rtakeWhile] at hcolumn
  generalize Position.start.after (text.push sep).toList = p at hline hcolumn hoffset
  obtain ⟨offset, line, column⟩ := p
  simp only at hline hcolumn hoffset
  simp [Position.shift, Position.start, Shift.past, hline, hcolumn, hoffset]
  omega

end Shift

theorem tokensFrom_append_separator {sep : Char} (hsep : sep ∈ separators) (text more : String) :
    tokensFrom 0 .start (Chunk.ofText (text.push sep ++ more).toList) =
      tokensFrom 0 .start (Chunk.ofText text.toList) ++
        (tokensFrom 0 .start (Chunk.ofText more.toList)).map (Token.shift (.past text sep)) := by
  have hlist : (text.push sep ++ more).toList = text.toList ++ sep :: more.toList := by simp
  have hblank (index : Nat) (p : Position) : (Chunk.blank sep).tokens index p = [] := rfl
  have hplace : (Position.start.after text.toList).after [sep] =
      Position.start.shift (.past text sep) := by
    rw [start_shift_past text hsep, String.toList_push, Position.after_append]
  have hindex : 0 + text.toList.length + 1 = 0 + (Shift.past text sep).characters := by
    rw [String.length_toList]
    exact Nat.add_assoc ..
  rw [hlist, Chunk.ofText_append_separator hsep, tokensFrom_append, tokensFrom, hblank,
    List.nil_append, Chunk.flatMap_text_ofText]
  have hstart : 0 < Position.start.line := Nat.one_pos
  rw [← tokensFrom_shift 0 hstart, ← hplace, ← hindex]
  rfl

namespace KindCounts

theorem lookup_add (k j : TokenKind) (counts : KindCounts) :
    (counts.add k).lookup j =
      if j = k then some ((counts.lookup k).getD 0 + 1) else counts.lookup j := by
  induction counts with
  | nil =>
    rw [add, lookup_pair]
    rfl
  | cons entry rest ih =>
    obtain ⟨i, n⟩ := entry
    rw [add]
    by_cases hi : i = k
    · rw [if_pos hi]
      simp only [lookup_pair, hi, if_true]
      by_cases hj : j = k <;> simp [hj]
    · have hk : k ≠ i := fun h => hi h.symm
      rw [if_neg hi, lookup_pair, lookup_pair, lookup_pair, ih, if_neg hk]
      by_cases hj : j = i
      · simp [hj, hi]
      · simp [hj]

end KindCounts

namespace Metrics

/-- The counts of a whole are those of its two parts together. -/
structure Joins (left right whole : Metrics) : Prop where
  total : whole.total = left.total + right.total
  keywords : whole.keywords = left.keywords + right.keywords
  identifiers : whole.identifiers = left.identifiers + right.identifiers
  numbers : whole.numbers = left.numbers + right.numbers
  operators : whole.operators = left.operators + right.operators
  punctuation : whole.punctuation = left.punctuation + right.punctuation
  longestRun : whole.longestRun = max left.longestRun right.longestRun
  longRuns : whole.longRuns = left.longRuns + right.longRuns
  kinds : ∀ k, whole.kinds.lookup k =
    Option.merge (· + ·) (left.kinds.lookup k) (right.kinds.lookup k)

section Joins

variable {left right whole : Metrics}

theorem Joins.symm (h : Joins left right whole) : Joins right left whole where
  total := by rw [h.total, Nat.add_comm]
  keywords := by rw [h.keywords, Nat.add_comm]
  identifiers := by rw [h.identifiers, Nat.add_comm]
  numbers := by rw [h.numbers, Nat.add_comm]
  operators := by rw [h.operators, Nat.add_comm]
  punctuation := by rw [h.punctuation, Nat.add_comm]
  longestRun := by rw [h.longestRun, Nat.max_comm]
  longRuns := by rw [h.longRuns, Nat.add_comm]
  kinds k := by
    rw [h.kinds]
    cases left.kinds.lookup k <;> cases right.kinds.lookup k <;> simp [Option.merge, Nat.add_comm]

theorem Joins.addClass (h : Joins left right whole) (c : TokenClass) :
    Joins left (right.addClass c) (whole.addClass c) := by
  cases c with
  | keyword => exact { h with keywords := congrArg (· + 1) h.keywords }
  | identifier => exact { h with identifiers := congrArg (· + 1) h.identifiers }
  | literal => exact { h with numbers := congrArg (· + 1) h.numbers }
  | operator => exact { h with operators := congrArg (· + 1) h.operators }
  | punctuation => exact { h with punctuation := congrArg (· + 1) h.punctuation }
  | special => exact h

theorem Joins.addRun (h : Joins left right whole) (width : Nat) :
    Joins left (right.addRun width) (whole.addRun width) := by
  have hlongest := h.longestRun
  have hlong := h.longRuns
  have hmax : max whole.longestRun width = max left.longestRun (max right.longestRun width) := by
    rw [hlongest, Nat.max_assoc]
  refine { h with longestRun := hmax, longRuns := ?_ }
  by_cases hw : Limits.longRun < width
  · simp only [Metrics.addRun, if_pos hw]
    omega
  · simpa only [Metrics.addRun, if_neg hw] using hlong

theorem Joins.addKind (h : Joins left right whole) (k : TokenKind) :
    Joins left { right with kinds := right.kinds.add k }
      { whole with kinds := whole.kinds.add k } := by
  refine { h with kinds := fun j => ?_ }
  simp only [KindCounts.lookup_add]
  by_cases hj : j = k
  · rw [if_pos hj, if_pos hj, hj, h.kinds k]
    cases left.kinds.lookup k <;> cases right.kinds.lookup k <;>
      simp [Option.merge, Nat.add_assoc]
  · rw [if_neg hj, if_neg hj, h.kinds j]

/-- A token that is counted in the second part is counted in the whole. -/
theorem Joins.add (h : Joins left right whole) (countKinds : Bool) (t : Token) :
    Joins left (right.add countKinds t) (whole.add countKinds t) := by
  have htotal : Joins left { right with total := right.total + 1 }
      { whole with total := whole.total + 1 } :=
    { h with total := congrArg (· + 1) h.total }
  have hclass := htotal.addClass t.kind.tokenClass
  have hrun : ∀ r w : Metrics, Joins left r w →
      Joins left (if t.isRun = true then r.addRun t.width else r)
        (if t.isRun = true then w.addRun t.width else w) := by
    intro r w hjoins
    by_cases ht : t.isRun = true
    · simpa only [if_pos ht] using hjoins.addRun t.width
    · simpa only [if_neg ht] using hjoins
  unfold Metrics.add
  by_cases hk : countKinds = true
  · simpa only [if_pos hk] using (hrun _ _ hclass).addKind t.kind
  · simpa only [if_neg hk] using hrun _ _ hclass

theorem Joins.foldl_add (h : Joins left right whole) (countKinds : Bool) (ts : List Token) :
    Joins left (ts.foldl (Metrics.add countKinds) right)
      (ts.foldl (Metrics.add countKinds) whole) := by
  induction ts generalizing right whole with
  | nil => exact h
  | cons t ts ih => exact ih (h.add countKinds t)

theorem joins_ofTokens (countKinds : Bool) (m n k : Nat) (ts us : List Token) :
    Joins (ofTokens countKinds m ts) (ofTokens countKinds n us)
      (ofTokens countKinds k (ts ++ us)) := by
  have hzero : Joins { zero with characters := n } { zero with characters := m }
      { zero with characters := k } := by
    constructor <;> simp [zero, Option.merge]
  -- The two parts change places, so that each in turn is the one that grows.
  have hboth := (hzero.foldl_add countKinds ts).symm.foldl_add countKinds us
  rwa [← List.foldl_append] at hboth

theorem characters_foldl_add (countKinds : Bool) (m : Metrics) (ts : List Token) :
    (ts.foldl (Metrics.add countKinds) m).characters = m.characters := by
  have hadd (n : Metrics) (t : Token) : (n.add countKinds t).characters = n.characters := by
    unfold Metrics.add Metrics.addClass Metrics.addRun
    cases t.kind.tokenClass <;> cases t.isRun <;> cases countKinds <;> rfl
  induction ts generalizing m with
  | nil => rfl
  | cons t ts ih => rw [List.foldl_cons, ih, hadd]

/-- Nothing that is counted depends on the place of a token. -/
theorem ofTokens_map_shift (countKinds : Bool) (n : Nat) (d : Shift) (ts : List Token) :
    ofTokens countKinds n (ts.map (Token.shift d)) = ofTokens countKinds n ts := by
  have hadd (m : Metrics) (t : Token) : m.add countKinds (t.shift d) = m.add countKinds t := by
    have hrun : (t.shift d).isRun = t.isRun := rfl
    have hkind : (t.shift d).kind = t.kind := rfl
    have hwidth : (t.shift d).width = t.width := by
      simp only [Token.width, Token.shift]
      omega
    simp only [Metrics.add, hrun, hkind, hwidth]
  unfold ofTokens
  simp only [List.foldl_map, hadd]

end Joins

end Metrics

/-- Lexing is done apart on both sides of a separator: the tokens behind it are those of the second
text, moved to behind the first and the separator, and the counts of both texts are put
together. -/
theorem lexing_joins_at_separator (preferences : LexingPreferences) (text more : String) (sep : Char)
    (hsep : sep ∈ separators) (h : (text.push sep ++ more).length + 1 < lineBound) :
    ∃ first second whole, Lexed.ofText preferences text = .ok first ∧
      Lexed.ofText preferences more = .ok second ∧
      Lexed.ofText preferences (text.push sep ++ more) = .ok whole ∧
      whole.tokens = first.tokens ++ second.tokens.map (Token.shift (.past text sep)) ∧
      Metrics.Joins first.metrics second.metrics whole.metrics ∧
      whole.metrics.characters = first.metrics.characters + second.metrics.characters + 1 := by
  have hlength : (text.push sep ++ more).length = text.length + more.length + 1 := by
    rw [String.length_append, String.length_push]
    omega
  have hfirst := tokenize_eq (show text.length + 1 < lineBound by omega)
  have hsecond := tokenize_eq (show more.length + 1 < lineBound by omega)
  have hwhole := tokenize_eq h
  rw [tokensFrom_append_separator hsep] at hwhole
  generalize tokensFrom 0 .start (Chunk.ofText text.toList) = ts at hfirst hwhole
  generalize tokensFrom 0 .start (Chunk.ofText more.toList) = us at hsecond hwhole
  have hlexed {source : String} {vs : List Token} (hvs : tokenize source = .ok vs) :
      Lexed.ofText preferences source =
        .ok ⟨vs, Metrics.ofTokens preferences.countKinds source.length vs⟩ := by
    rw [Lexed.ofText, hvs]
  refine ⟨_, _, _, hlexed hfirst, hlexed hsecond, hlexed hwhole, rfl, ?_, ?_⟩
  · have hjoins := Metrics.joins_ofTokens preferences.countKinds text.length more.length
      (text.push sep ++ more).length ts (us.map (Token.shift (.past text sep)))
    rwa [Metrics.ofTokens_map_shift] at hjoins
  · simp only [Metrics.ofTokens, Metrics.characters_foldl_add, hlength]

theorem lexing_joins_at_separator_operator :
    let preferences : LexingPreferences := ⟨true, false⟩
    '\n' ∈ separators ∧ ("a<".push '\n' ++ "= b").length + 1 < lineBound ∧
      Shift.past "a<" '\n' = ⟨3, 3, 1, 0⟩ ∧
      ∃ first second whole, Lexed.ofText preferences "a<" = .ok first ∧
        Lexed.ofText preferences "= b" = .ok second ∧
        Lexed.ofText preferences ("a<".push '\n' ++ "= b") = .ok whole ∧
        whole.tokens = first.tokens ++ second.tokens.map (Token.shift (.past "a<" '\n')) ∧
        Metrics.Joins first.metrics second.metrics whole.metrics := by
  intro preferences
  have hsep : '\n' ∈ separators := by decide
  have hlength : ("a<".push '\n' ++ "= b").length + 1 < lineBound := by decide +kernel
  have hpast : Shift.past "a<" '\n' = ⟨3, 3, 1, 0⟩ := by decide +kernel
  obtain ⟨first, second, whole, hfirst, hsecond, hwhole, htokens, hjoins, -⟩ :=
    lexing_joins_at_separator preferences "a<" "= b" '\n' hsep hlength
  exact ⟨hsep, hlength, hpast, first, second, whole, hfirst, hsecond, hwhole, htokens, hjoins⟩

end YupFront
