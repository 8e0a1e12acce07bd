import Mathlib.Data.List.DropRight
import YupFront.Proofs.Excerpts
import YupFront.Proofs.Slicing

/-! Where tokens stand. The characters, bytes, lines and columns that are counted on the way to a token are
those of the text in front of it, which has the tokens in front of it. -/

namespace YupFront

section Counters

variable {cs : List Char}

theorem lastLine_eq_rtakeWhile (cs : List Char) : lastLine cs = cs.rtakeWhile (· ≠ '\n') := by
  induction cs using List.reverseRecOn with
  | nil => rfl
  | append_singleton cs c ih =>
    rw [lastLine_concat, List.rtakeWhile_concat, ih]
    by_cases hc : c = '\n' <;> simp [hc]

theorem Position.offset_next (p : Position) (c : Char) :
    (p.next c).offset = p.offset + c.utf8Size := by
  by_cases hc : c = '\n'
  · have hone : Char.utf8Size '\n' = 1 := by decide
    simp [next, hc, hone]
  · simp [next, hc]

theorem Position.offset_after (p : Position) (cs : List Char) :
    (p.after cs).offset = p.offset + (String.ofList cs).utf8ByteSize := by
  induction cs using List.reverseRecOn with
  | nil => rfl
  | append_singleton cs c ih =>
    have hsize : (String.ofList (cs ++ [c])).utf8ByteSize =
        (String.ofList cs).utf8ByteSize + c.utf8Size := by
      rw [String.ofList_append, String.utf8ByteSize_append]
      exact congrArg _ String.utf8ByteSize_singleton
    rw [after_concat, offset_next, ih, hsize, Nat.add_assoc]

end Counters

/-! The tokens of a text without the question whether their numbers fit. -/

/-- The tokens of chunks that begin at character `index` and at `p`. -/
def tokensFrom (index : Nat) (p : Position) : List Chunk → List Token
  | [] => []
  | chunk :: rest =>
    chunk.tokens index p ++ tokensFrom (index + chunk.text.length) (p.after chunk.text) rest

theorem eq_of_placeAll {done ts : List Token} {index : Nat} {p : Position} {chunks : List Chunk}
    (h : placeAll done index p chunks = .ok ts) : ts = done.reverse ++ tokensFrom index p chunks := by
  induction chunks generalizing done index p with
  | nil =>
    cases h
    rw [tokensFrom, List.append_nil]
  | cons chunk rest ih =>
    obtain ⟨-, hrest⟩ := placeAll_cons h
    have hone : (chunk.tokens index p).reverse = chunk.tokens index p := by
      by_cases hb : chunk.isBlank = true <;> simp [Chunk.tokens, hb]
    rw [ih hrest, tokensFrom, List.reverse_append, hone, List.append_assoc]

theorem tokenize_eq {source : String} (h : source.length + 1 < lineBound) :
    tokenize source = .ok (tokensFrom 0 .start (Chunk.ofText source.toList)) := by
  obtain ⟨ts, hts⟩ := tokenize_succeeds h
  rw [hts, eq_of_placeAll hts]
  rfl

theorem tokensFrom_append (index : Nat) (p : Position) (as bs : List Chunk) :
    tokensFrom index p (as ++ bs) = tokensFrom index p as ++
      tokensFrom (index + (as.flatMap Chunk.text).length) (p.after (as.flatMap Chunk.text)) bs := by
  induction as generalizing index p with
  | nil => rfl
  | cons chunk as ih =>
    rw [List.cons_append, tokensFrom, tokensFrom, ih, List.flatMap_cons, List.length_append,
      Position.after_append, Nat.add_assoc, List.append_assoc]

/-- Each token is made of one chunk, and the tokens in front of it of the chunks in front. -/
theorem exists_of_tokensFrom {index : Nat} {p : Position} {chunks : List Chunk} {us vs : List Token}
    {t : Token} (h : tokensFrom index p chunks = us ++ t :: vs) :
    ∃ as chunk bs, chunks = as ++ chunk :: bs ∧ tokensFrom index p as = us ∧
      chunk.tokens (index + (as.flatMap Chunk.text).length) (p.after (as.flatMap Chunk.text)) =
        [t] := by
  induction chunks generalizing index p us with
  | nil => simp [tokensFrom] at h
  | cons first rest ih =>
    rw [tokensFrom] at h
    have hlater : ∀ us', us = first.tokens index p ++ us' →
        tokensFrom (index + first.text.length) (p.after first.text) rest = us' ++ t :: vs →
        ∃ as chunk bs, first :: rest = as ++ chunk :: bs ∧ tokensFrom index p as = us ∧
          chunk.tokens (index + (as.flatMap Chunk.text).length) (p.after (as.flatMap Chunk.text)) =
            [t] := by
      rintro us' rfl hrest
      obtain ⟨as, chunk, bs, rfl, has, ht⟩ := ih hrest
      refine ⟨first :: as, chunk, bs, rfl, by rw [tokensFrom, has], ?_⟩
      rwa [List.flatMap_cons, List.length_append, Position.after_append, ← Nat.add_assoc]
    by_cases hb : first.isBlank = true
    · have hnone : first.tokens index p = [] := by simp [Chunk.tokens, hb]
      rw [hnone, List.nil_append] at h
      exact hlater us (by rw [hnone, List.nil_append]) h
    · have hone : ∃ u, first.tokens index p = [u] := by simp [Chunk.tokens, hb]
      obtain ⟨u, hu⟩ := hone
      rw [hu, List.singleton_append] at h
      cases us with
      | nil =>
        obtain ⟨rfl, -⟩ := List.cons_eq_cons.mp h
        exact ⟨[], first, rest, rfl, rfl, hu⟩
      | cons v us =>
        obtain ⟨rfl, hrest⟩ := List.cons_eq_cons.mp h
        exact hlater us (by rw [hu, List.singleton_append]) hrest

/-! A text that ends where one of its chunks ends is cut in the same way by itself. -/

theorem Longest.of_append {text rest more : List Char} (h : Longest text (rest ++ more).head?) :
    Longest text rest.head? := by
  cases rest with
  | nil =>
    refine ⟨h.lexeme, fun _ _ hc => ?_, fun _ _ _ hc => ?_⟩
    · cases hc
    · cases hc
  | cons c rest => exact h

namespace Chunk

/-- What kind of chunk it is, is decided by its first character. -/
theorem cut_eq_of_text_eq {c : Char} {cs ds : List Char}
    (h : (cut c cs).1.text = (cut c ds).1.text) : (cut c cs).1 = (cut c ds).1 := by
  have hoperator (es : List Char) : (operator c es).1 = symbol (operator c es).1.text := by
    cases es with
    | nil => rfl
    | cons e es => by_cases he : combines c e = true <;> simp [operator, he, text]
  unfold cut at h ⊢
  by_cases hs : isSeparator c = true
  · simp [hs]
  by_cases hp : isPunctuation c = true
  · simp [hs, hp]
  by_cases ho : isOperatorLead c = true
  · simp only [hs, hp, ho, Bool.false_eq_true, if_true, if_false] at h ⊢
    rw [hoperator cs, hoperator ds, h]
  · simp only [hs, hp, ho, Bool.false_eq_true, if_false] at h ⊢
    exact congrArg run h

theorem cut_of_append {c : Char} {cs ds rest : List Char} {chunk : Chunk}
    (h : cut c (cs ++ ds) = (chunk, rest ++ ds)) : cut c cs = (chunk, rest) := by
  have htext : chunk.text ++ rest = c :: cs := by
    have hall := cut_text c (cs ++ ds)
    rw [h, ← List.append_assoc, ← List.cons_append] at hall
    exact List.append_cancel_right hall
  by_cases hs : isSeparator c = true
  · obtain ⟨rfl, hrest⟩ : blank c = chunk ∧ cs ++ ds = rest ++ ds := by simpa [cut, hs] using h
    rw [← List.append_cancel_right hrest, cut, if_pos hs]
  · obtain ⟨-, hlong⟩ := longest_of_cut (cs ++ ds) (Bool.eq_false_iff.mpr hs)
    rw [h] at hlong
    obtain ⟨hfirst, hrest⟩ := cut_of_longest hlong.of_append htext
    have hsame : (cut c cs).1 = (cut c (cs ++ ds)).1 := cut_eq_of_text_eq (by rw [hfirst, h])
    rw [h] at hsame
    exact Prod.ext hsame hrest

theorem ofText_flatMap_text {cs : List Char} {as bs : List Chunk} (h : ofText cs = as ++ bs) :
    ofText (as.flatMap text) = as := by
  induction as generalizing cs with
  | nil => simp
  | cons chunk as ih =>
    cases cs with
    | nil => simp at h
    | cons c cs =>
      rw [ofText_cons, List.cons_append] at h
      obtain ⟨hfirst, hrest⟩ := List.cons_eq_cons.mp h
      have hbehind : (cut c cs).2 = as.flatMap text ++ bs.flatMap text := by
        rw [← List.flatMap_append, ← hrest, flatMap_text_ofText]
      have htext := cut_text c cs
      obtain ⟨d, ds, hd⟩ := List.exists_cons_of_ne_nil (cut_text_ne_nil c cs)
      rw [hd, hbehind, List.cons_append] at htext
      obtain ⟨rfl, rfl⟩ := List.cons_eq_cons.mp htext
      have hcut : cut d (ds ++ as.flatMap text) = (chunk, as.flatMap text) := by
        have hall : cut d (ds ++ (as.flatMap text ++ bs.flatMap text)) =
            (chunk, as.flatMap text ++ bs.flatMap text) := Prod.ext hfirst hbehind
        rw [← List.append_assoc] at hall
        exact cut_of_append hall
      rw [hfirst] at hd
      rw [List.flatMap_cons, hd, List.cons_append, ofText_cons, hcut, ih hrest]

end Chunk

/-- The token stands behind a text, and its numbers are those of the text. -/
structure Token.Behind (t : Token) (before : String) : Prop where
  first : t.first = before.length
  offset : t.span.start.offset = before.utf8ByteSize
  line : t.span.start.line = before.toList.count '\n' + 1
  column : t.span.start.column = (before.toList.rtakeWhile (· ≠ '\n')).length + 1
  finish_offset : t.span.finish.offset = t.span.start.offset + t.text.utf8ByteSize
  finish_line : t.span.finish.line = t.span.start.line
  finish_column : t.span.finish.column = t.span.start.column + t.text.length

section Behind

variable {chunk : Chunk} {index : Nat} {p : Position} {t : Token}

theorem tokens_eq_singleton (ht : chunk.tokens index p = [t]) :
    t.text.toList = chunk.text ∧ t.first = index ∧ t.span = ⟨p, p.after chunk.text⟩ := by
  by_cases hb : chunk.isBlank = true
  · simp [Chunk.tokens, hb] at ht
  · obtain rfl : _ = t := by simpa [Chunk.tokens, hb] using ht
    exact ⟨String.toList_ofList, rfl, rfl⟩

theorem behind_of_tokens {before : List Char}
    (ht : chunk.tokens before.length (Position.start.after before) = [t])
    (hnewline : '\n' ∉ t.text.toList) : t.Behind (String.ofList before) := by
  obtain ⟨htext, hfirst, hspan⟩ := tokens_eq_singleton ht
  have hlength : t.text.length = chunk.text.length := by rw [← htext, String.length_toList]
  have hsize : t.text.utf8ByteSize = (String.ofList chunk.text).utf8ByteSize := by
    rw [← htext, String.ofList_toList]
  rw [htext] at hnewline
  obtain ⟨hline, hcolumn⟩ := Position.after_of_no_newline hnewline (Position.start.after before)
  have hoffset : (Position.start.after before).offset = (String.ofList before).utf8ByteSize := by
    rw [Position.offset_after]
    exact Nat.zero_add _
  constructor
  · rw [hfirst, String.length_ofList]
  · rw [hspan, hoffset]
  · rw [hspan, String.toList_ofList, Position.line_after_start]
  · rw [hspan, String.toList_ofList, Position.column_after_start, lastLine_eq_rtakeWhile]
  · rw [hspan, hsize, Position.offset_after]
  · rw [hspan, hline]
  · rw [hspan, hlength, hcolumn]

end Behind

/-- A token stands where it says: it is found in the source behind a text that has the tokens in front of
it, and its offsets, line and columns are counted in that text. Its bytes lie between its
offsets. -/
theorem tokens_stand_true (source : String) (h : source.length + 1 < lineBound) :
    ∃ ts, tokenize source = .ok ts ∧ ∀ us t vs, ts = us ++ t :: vs →
      ∃ before behind, source = before ++ t.text ++ behind ∧ tokenize before = .ok us ∧
        t.Behind before ∧
        source.toUTF8.extract t.span.start.offset t.span.finish.offset = t.text.toUTF8 := by
  refine ⟨_, tokenize_eq h, fun us t vs hts => ?_⟩
  obtain ⟨as, chunk, bs, hchunks, has, ht⟩ := exists_of_tokensFrom hts
  rw [Nat.zero_add] at ht
  generalize hbefore : String.ofList (as.flatMap Chunk.text) = before
  have hlist : as.flatMap Chunk.text = before.toList := by rw [← hbefore, String.toList_ofList]
  obtain ⟨behind, rfl⟩ : ∃ behind, source = before ++ t.text ++ behind := by
    refine ⟨String.ofList (bs.flatMap Chunk.text), ?_⟩
    have hall := Chunk.flatMap_text_ofText source.toList
    rw [hchunks, List.flatMap_append, List.flatMap_cons, ← (tokens_eq_singleton ht).1, hlist] at hall
    rw [← String.toList_inj, ← hall]
    simp
  have hprefix : tokenize before = .ok us := by
    have hshort : before.length + 1 < lineBound := by
      rw [String.length_append, String.length_append] at h
      omega
    rw [tokenize_eq hshort, ← hlist, Chunk.ofText_flatMap_text hchunks, has]
  have hnewline : '\n' ∉ t.text.toList := by
    have hmem : t ∈ us ++ t :: vs := List.mem_append_right us (.head vs)
    exact (tokenize_lexeme (tokenize_eq h) t (hts ▸ hmem)).not_mem (by decide)
  have hbehind : t.Behind before := hbefore ▸ behind_of_tokens ht hnewline
  refine ⟨before, behind, rfl, hprefix, hbehind, ?_⟩
  rw [hbehind.finish_offset, hbehind.offset]
  exact toUTF8_extract_middle before t.text behind

theorem tokens_stand_true_accent :
    let name : Token := ⟨.identifier, "é", 0, 0, ⟨.start, ⟨2, 1, 2⟩⟩⟩
    let pair : Token := ⟨.greaterEqual, ">=", 3, 4, ⟨⟨4, 2, 2⟩, ⟨6, 2, 4⟩⟩⟩
    "é\n >=".length + 1 < lineBound ∧ tokenize "é\n >=" = .ok [name, pair] ∧
      ∃ before behind, "é\n >=" = before ++ ">=" ++ behind ∧ tokenize before = .ok [name] ∧
        pair.Behind before ∧ "é\n >=".toUTF8.extract 4 6 = ">=".toUTF8 := by
  intro name pair
  have hlength : "é\n >=".length + 1 < lineBound := by decide +kernel
  have hchunks : Chunk.ofText "é\n >=".toList =
      [.run ['é'], .blank '\n', .blank ' ', .symbol ['>', '=']] := by
    simp [Chunk.ofText_cons, Chunk.cut, Chunk.operator, combines, isSeparator, isPunctuation,
      isOperatorLead, isPlain]
  have hsource : tokenize "é\n >=" = .ok [name, pair] := by
    rw [tokenize, hchunks]
    rfl
  obtain ⟨ts, hts, hall⟩ := tokens_stand_true "é\n >=" hlength
  obtain rfl : [name, pair] = ts := Except.ok.inj (hsource.symm.trans hts)
  exact ⟨hlength, hsource, hall [name] pair [] rfl⟩

end YupFront
