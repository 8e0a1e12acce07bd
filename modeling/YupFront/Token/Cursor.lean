import YupFront.Token.Basic

/-! A place in a token sequence. The tokens in front of it are kept nearest first, so that a step
moves one token from one list to the other. -/

namespace YupFront

/-- A token and its index in the sequence. -/
structure Anchor where
  index : Nat
  token : Token
deriving DecidableEq, Repr

structure Cursor where
  before : List Token
  rest : List Token
  /-- Number of tokens in front. -/
  position : Nat
  position_eq : position = before.length

namespace Cursor

theorem start_position_eq : 0 = ([] : List Token).length := rfl

def ofTokens (ts : List Token) : Cursor := ⟨[], ts, 0, start_position_eq⟩

def tokens (c : Cursor) : List Token := c.before.reverse ++ c.rest

def current? (c : Cursor) : Option Anchor :=
  c.rest.head?.map fun t => ⟨c.position, t⟩

def previous? (c : Cursor) : Option Anchor :=
  c.before.head?.map fun t => ⟨c.position - 1, t⟩

def first? (c : Cursor) : Option Token := c.tokens.head?

def length (c : Cursor) : Nat := c.position + c.rest.length

def atEnd (c : Cursor) : Bool := c.rest.isEmpty

def advance (c : Cursor) : Cursor :=
  match c.rest with
  | [] => c
  | t :: rest => ⟨t :: c.before, rest, c.position + 1, by simp [c.position_eq]⟩

def check (c : Cursor) (kind : TokenKind) : Bool :=
  c.rest.head?.any fun t => t.kind == kind

def accept (c : Cursor) (wanted : TokenKind → Bool) : Option Anchor × Cursor :=
  match c.current? with
  | some a => if wanted a.token.kind then (some a, c.advance) else (none, c)
  | none => (none, c)

theorem current?_of_cons {c : Cursor} {t : Token} {rest : List Token} (h : c.rest = t :: rest) :
    c.current? = some ⟨c.position, t⟩ := by
  simp [current?, h]

theorem rest_advance {c : Cursor} {t : Token} {rest : List Token} (h : c.rest = t :: rest) :
    c.advance.rest = rest := by
  simp [advance, h]

theorem accept_of_nil {c : Cursor} (wanted : TokenKind → Bool) (h : c.rest = []) :
    c.accept wanted = (none, c) := by
  simp [accept, current?, h]

theorem accept_of_cons {c : Cursor} {t : Token} {rest : List Token} (wanted : TokenKind → Bool)
    (h : c.rest = t :: rest) : c.accept wanted =
      if wanted t.kind then (some ⟨c.position, t⟩, c.advance) else (none, c) := by
  simp [accept, current?_of_cons h]

theorem accept_none {c d : Cursor} {wanted : TokenKind → Bool} (h : c.accept wanted = (none, d)) :
    d = c := by
  unfold accept at h
  split at h
  · split at h
    · simp at h
    · exact (congrArg Prod.snd h).symm
  · exact (congrArg Prod.snd h).symm

theorem accept_some {c d : Cursor} {wanted : TokenKind → Bool} {a : Anchor}
    (h : c.accept wanted = (some a, d)) : d = c.advance := by
  unfold accept at h
  split at h
  · split at h
    · exact (congrArg Prod.snd h).symm
    · simp at h
  · simp at h

/-- Some tokens lie between `c` and `d`. -/
def Reaches (c d : Cursor) : Prop :=
  ∃ used, c.rest = used ++ d.rest ∧ d.before = used.reverse ++ c.before

theorem Reaches.refl (c : Cursor) : c.Reaches c := ⟨[], rfl, rfl⟩

theorem Reaches.trans {c d e : Cursor} (hcd : c.Reaches d) (hde : d.Reaches e) : c.Reaches e := by
  obtain ⟨us, hu, hu'⟩ := hcd
  obtain ⟨vs, hv, hv'⟩ := hde
  exact ⟨us ++ vs, by simp [hu, hv], by simp [hu', hv']⟩

theorem reaches_advance (c : Cursor) : c.Reaches c.advance := by
  unfold advance
  split
  · exact .refl c
  · next t rest h => exact ⟨[t], h, rfl⟩

theorem Reaches.position_le {c d : Cursor} (h : c.Reaches d) : c.position ≤ d.position := by
  obtain ⟨us, _, h⟩ := h
  rw [c.position_eq, d.position_eq, h]
  simp

theorem Reaches.rest_length_le {c d : Cursor} (h : c.Reaches d) :
    d.rest.length ≤ c.rest.length := by
  obtain ⟨us, h, _⟩ := h
  simp [h]

/-- What the position gains the rest loses. -/
theorem Reaches.length_eq {c d : Cursor} (h : c.Reaches d) : c.length = d.length := by
  obtain ⟨us, h, h'⟩ := h
  rw [length, length, c.position_eq, d.position_eq, h, h']
  simp only [List.length_append, List.length_reverse]
  omega

theorem Reaches.tokens_eq {c d : Cursor} (h : c.Reaches d) : c.tokens = d.tokens := by
  obtain ⟨us, h, h'⟩ := h
  simp [tokens, h, h']

theorem Reaches.rest_length_lt {c d : Cursor} (h : c.Reaches d) (hp : c.position < d.position) :
    d.rest.length < c.rest.length := by
  have := h.length_eq
  simp only [length] at this
  omega

theorem rest_length_accept_lt {c d : Cursor} {wanted : TokenKind → Bool} {a : Anchor}
    (h : c.accept wanted = (some a, d)) : d.rest.length < c.rest.length := by
  unfold accept at h
  split at h
  · next hc =>
    split at h
    · obtain ⟨-, rfl⟩ := Prod.mk.inj h
      cases hr : c.rest with
      | nil => simp [current?, hr] at hc
      | cons t rest => simp [advance, hr]
    · simp at h
  · simp at h

end Cursor

end YupFront
