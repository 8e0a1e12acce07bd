import YupFront.Lexer.Tokenize
import YupFront.Proofs.LineLookup

/-! The chunks of a text one after the other, the places of the tokens made of them, and the texts
that are short enough to have tokens. -/

namespace YupFront

namespace Chunk

/-- What holds of the empty text, and of a text if it holds of what follows its first chunk, holds
of all texts. -/
theorem induction {P : List Char → Prop} (nil : P [])
    (cons : ∀ c cs, P (cut c cs).2 → P (c :: cs)) (cs : List Char) : P cs :=
  match cs with
  | [] => nil
  | c :: cs => cons c cs (induction nil cons (cut c cs).2)
termination_by cs.length
decreasing_by
  have := cut_length c cs
  simp only [List.length_cons]
  omega

theorem cutAll_eq (cs : List Char) (done : List Chunk) :
    cutAll done cs = done.reverse ++ ofText cs := by
  induction cs using Chunk.induction generalizing done with
  | nil => simp [ofText, cutAll]
  | cons c cs ih =>
    rw [ofText, cutAll, cutAll, ih, ih]
    simp

@[simp] theorem ofText_nil : ofText [] = [] := by simp [ofText, cutAll]

theorem ofText_cons (c : Char) (cs : List Char) :
    ofText (c :: cs) = (cut c cs).1 :: ofText (cut c cs).2 := by
  rw [ofText, cutAll, cutAll_eq]
  rfl

theorem flatMap_text_ofText (cs : List Char) : (ofText cs).flatMap text = cs := by
  induction cs using Chunk.induction with
  | nil => simp
  | cons c cs ih => rw [ofText_cons, List.flatMap_cons, ih, cut_text]

end Chunk

/-- What a token covers: its text and the indices of its ends. -/
def Token.place (t : Token) : String × Nat × Nat := (t.text, t.first, t.last)

/-- The places of the tokens of chunks that begin at character `index`. -/
def placesFrom (index : Nat) : List Chunk → List (String × Nat × Nat)
  | [] => []
  | chunk :: rest =>
    let next := index + chunk.text.length
    if chunk.isBlank then placesFrom next rest
    else (String.ofList chunk.text, index, index + (chunk.text.length - 1)) :: placesFrom next rest

theorem eq_of_addOffset {a b n : Nat} (h : addOffset a b = .ok n) : n = a + b := by
  unfold addOffset at h
  split at h <;> cases h
  rfl

theorem eq_of_covering {p : Position} {span : Span} {cs : List Char}
    (h : Span.covering p cs = .ok span) : span = ⟨p, p.after cs⟩ := by
  unfold Span.covering at h
  split at h
  · next q hq =>
    have hspan := Position.eq_after_of_advanceBy hq
    rw [Span.between] at h
    split at h <;> cases h
    rw [hspan]
  · cases h

theorem eq_of_make {kind : TokenKind} {text : String} {first : Nat} {span : Span} {t : Token}
    (h : Token.make kind text first span = .ok t) :
    t = ⟨kind, text, first, first + (text.length - 1), span⟩ := by
  unfold Token.make at h
  split at h
  · next last hlast =>
    cases h
    rw [eq_of_addOffset hlast]
  · cases h

/-- The token of a chunk, unless that is a separator. -/
def Chunk.tokens (index : Nat) (p : Position) (chunk : Chunk) : List Token :=
  let text := String.ofList chunk.text
  if chunk.isBlank then []
  else [⟨classify text, text, index, index + (text.length - 1), ⟨p, p.after chunk.text⟩⟩]

/-- What comes of the first chunk: its numbers fit, and its token goes in front. -/
theorem placeAll_cons {done ts : List Token} {index : Nat} {p : Position} {chunk : Chunk}
    {rest : List Chunk} (h : placeAll done index p (chunk :: rest) = .ok ts) :
    Span.covering p chunk.text = .ok ⟨p, p.after chunk.text⟩ ∧
      placeAll (chunk.tokens index p ++ done) (index + chunk.text.length) (p.after chunk.text) rest =
        .ok ts := by
  rw [placeAll] at h
  split at h
  · cases h
  · next span hspan =>
    obtain rfl := eq_of_covering hspan
    refine ⟨hspan, ?_⟩
    split at h
    · cases h
    · next next hnext =>
      obtain rfl := eq_of_addOffset hnext
      by_cases hb : chunk.isBlank = true
      · rw [if_pos hb] at h
        simpa [Chunk.tokens, hb] using h
      · rw [if_neg hb] at h
        dsimp only at h
        split at h
        · cases h
        · next t ht =>
          rw [eq_of_make ht] at h
          simpa [Chunk.tokens, hb] using h

theorem placeAll_place {done ts : List Token} {index : Nat} {position : Position}
    {chunks : List Chunk} (h : placeAll done index position chunks = .ok ts) :
    ts.map Token.place = done.reverse.map Token.place ++ placesFrom index chunks := by
  induction chunks generalizing done index position with
  | nil =>
    cases h
    simp [placesFrom]
  | cons chunk rest ih =>
    obtain ⟨-, hrest⟩ := placeAll_cons h
    rw [ih hrest, placesFrom]
    by_cases hb : chunk.isBlank = true
    · simp [Chunk.tokens, hb]
    · simp [Chunk.tokens, hb, Token.place]

theorem tokenize_place {source : String} {ts : List Token} (h : tokenize source = .ok ts) :
    ts.map Token.place = placesFrom 0 (Chunk.ofText source.toList) := by
  simpa using placeAll_place h

/-! A text whose lines and columns fit is lexed. -/

/-- The numbers of a position behind at most `n` characters. -/
structure Position.Within (p : Position) (n : Nat) : Prop where
  offset_le : p.offset ≤ 4 * n
  line_le : p.line ≤ n + 1
  column_le : p.column ≤ n + 1

theorem Position.start_within : Position.start.Within 0 := ⟨by decide, by decide, by decide⟩

theorem Position.Within.next {p : Position} {n : Nat} (h : p.Within n) (c : Char) :
    (p.next c).Within (n + 1) := by
  obtain ⟨ho, hl, hc⟩ := h
  have hsize := c.utf8Size_le_four
  unfold Position.next
  split <;> constructor <;> simp only <;> omega

theorem Position.Within.advanceBy {p : Position} {n : Nat} (h : p.Within n) {cs : List Char}
    (hn : n + cs.length + 1 < lineBound) :
    ∃ q, p.advanceBy cs = .ok q ∧ q.Within (n + cs.length) ∧ p.offset ≤ q.offset := by
  induction cs generalizing p n with
  | nil => exact ⟨p, rfl, h, Nat.le_refl _⟩
  | cons c cs ih =>
    have hnext := h.next c
    have hfits : (p.next c).Fits := by
      obtain ⟨ho, hl, hc⟩ := hnext
      have hbound := four_mul_lineBound_le
      rw [List.length_cons] at hn
      exact ⟨by omega, by omega, by omega⟩
    have hle : p.offset ≤ (p.next c).offset := by
      unfold Position.next
      split <;> simp
    obtain ⟨q, hq, hw, ho⟩ := ih hnext (by simpa [Nat.add_assoc, Nat.add_comm 1] using hn)
    refine ⟨q, ?_, by simpa [Nat.add_assoc, Nat.add_comm 1] using hw, Nat.le_trans hle ho⟩
    rw [Position.advanceBy, Position.advance, if_pos hfits]
    exact hq

theorem Position.Within.covering {p : Position} {n : Nat} (h : p.Within n) {cs : List Char}
    (hn : n + cs.length + 1 < lineBound) :
    Span.covering p cs = .ok ⟨p, p.after cs⟩ ∧ (p.after cs).Within (n + cs.length) ∧
      p.offset ≤ (p.after cs).offset := by
  obtain ⟨q, hq, hwithin, hle⟩ := h.advanceBy hn
  obtain rfl := Position.eq_after_of_advanceBy hq
  have hspan : Span.covering p cs = .ok ⟨p, p.after cs⟩ := by
    simp [Span.covering, hq, Span.between, hle]
  exact ⟨hspan, hwithin, hle⟩

theorem placeAll_succeeds {chunks : List Chunk} {done : List Token} {n : Nat} {p : Position}
    (h : p.Within n) (hn : n + (chunks.flatMap Chunk.text).length + 1 < lineBound) :
    ∃ ts, placeAll done n p chunks = .ok ts := by
  induction chunks generalizing done n p with
  | nil => exact ⟨_, rfl⟩
  | cons chunk rest ih =>
    rw [List.flatMap_cons, List.length_append, ← Nat.add_assoc] at hn
    have hfirst : n + chunk.text.length + 1 < lineBound := by omega
    obtain ⟨hspan, hw, -⟩ := h.covering hfirst
    have hbound := four_mul_lineBound_le
    have hnext : addOffset n chunk.text.length = .ok (n + chunk.text.length) :=
      addOffset_eq_ok (by omega)
    have hlast : addOffset n (chunk.text.length - 1) = .ok (n + (chunk.text.length - 1)) :=
      addOffset_eq_ok (by omega)
    rw [placeAll]
    simp only [hspan, hnext, Token.make, String.length_ofList, hlast]
    split
    · exact ih hw hn
    · exact ih hw hn

/-- A text has tokens unless it has more characters than lines and columns have numbers. -/
theorem tokenize_succeeds {source : String} (h : source.length + 1 < lineBound) :
    ∃ ts, tokenize source = .ok ts := by
  refine placeAll_succeeds Position.start_within ?_
  simpa [Chunk.flatMap_text_ofText, String.length_toList] using h

end YupFront
