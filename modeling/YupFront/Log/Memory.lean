import YupFront.Fault
import YupFront.Limits
import YupFront.Log.Event

/-! A log with room for the newest events only, and what can be asked of it. -/

namespace YupFront

/-- Takes the elements before `stop` out of a sequence. -/
def drain (xs : Array α) (stop : Nat) : Except Fault (Array α) :=
  if stop ≤ xs.size then .ok (xs.extract stop) else .error (.rangeBeyondEnd stop xs.size)

theorem drain_eq_ok {xs : Array α} {stop : Nat} (h : stop ≤ xs.size) :
    drain xs stop = .ok (xs.extract stop) := by
  simp [drain, h]

/-- Events in the order in which they came. -/
structure Buffer where
  capacity : Nat
  held : Array Event

namespace Buffer

def events (b : Buffer) : List Event := b.held.toList

def size (b : Buffer) : Nat := b.held.size

/-- Adds an event. The oldest make room for it. -/
def push (b : Buffer) (e : Event) : Except Fault Buffer := do
  if b.capacity ≤ b.held.size then
    let beyond ← subtract b.held.size b.capacity
    let stop ← addOffset beyond 1
    let kept ← drain b.held stop
    return ⟨b.capacity, kept.push e⟩
  else return ⟨b.capacity, b.held.push e⟩

def submit (b : Buffer) (least : Level) (e : Event) : Except Fault Buffer :=
  if least.admits e.level then b.push e else .ok b

def clear (b : Buffer) : Buffer := ⟨b.capacity, #[]⟩

/-- The events that are one too many for the new one are taken out. -/
theorem push_eq_ok {b : Buffer} (hroom : 0 < b.capacity)
    (hbeyond : b.size - b.capacity + 1 < offsetBound) (e : Event) :
    b.push e = .ok ⟨b.capacity, (b.held.extract (b.held.size + 1 - b.capacity)).push e⟩ := by
  have hsum : b.held.size - b.capacity + 1 < offsetBound := hbeyond
  unfold push
  by_cases hfull : b.capacity ≤ b.held.size
  · have hstop : b.held.size - b.capacity + 1 = b.held.size + 1 - b.capacity := by omega
    have hle : b.held.size - b.capacity + 1 ≤ b.held.size := by omega
    rw [if_pos hfull, subtract_eq_ok hfull, ← hstop]
    show (addOffset _ 1 >>= _) = _
    rw [addOffset_eq_ok hsum]
    show (drain _ _ >>= _) = _
    rw [drain_eq_ok hle]
    rfl
  · have hnone : b.held.size + 1 - b.capacity = 0 := by omega
    rw [if_neg hfull, hnone, Array.extract_size]
    rfl

/-- Without any room there is no event that could be taken out for the new one. -/
theorem push_eq_error {b : Buffer} (hroom : b.capacity = 0) (hsize : b.held.size + 1 < offsetBound)
    (e : Event) : b.push e = .error (.rangeBeyondEnd (b.held.size + 1) b.held.size) := by
  have hstop : ¬b.held.size + 1 ≤ b.held.size := Nat.not_succ_le_self _
  rw [push, hroom, if_pos (Nat.zero_le _), subtract_eq_ok (Nat.zero_le _), Nat.sub_zero]
  show (addOffset _ 1 >>= _) = _
  rw [addOffset_eq_ok hsize]
  show (drain _ _ >>= _) = _
  rw [drain, if_neg hstop]
  rfl

def errors (b : Buffer) : List Event := b.events.filter fun e => e.level == .error

def withCode (b : Buffer) (c : Code) : List Event := b.events.filter fun e => e.code == c

def inCategory (b : Buffer) (name : String) : List Event :=
  b.events.filter fun e => e.code.category == name

def has (b : Buffer) (l : Level) (c : Code) : Bool :=
  b.events.any fun e => e.level == l && e.code == c

structure Summary where
  total : Nat
  errors : Nat
  warnings : Nat
  infos : Nat
  debugs : Nat
  critical : Nat
deriving DecidableEq, Repr

def summary (b : Buffer) : Summary where
  total := b.size
  errors := b.events.countP fun e => e.level == .error
  warnings := b.events.countP fun e => e.level == .warning
  infos := b.events.countP fun e => e.level == .info
  debugs := b.events.countP fun e => e.level == .debug
  critical := b.events.countP fun e => e.level == .error && e.code.halts

end Buffer

/-- A buffer with room for at least one event, and with no more events than there is room for. -/
structure Memory extends Buffer where
  room : 0 < capacity
  fits : held.size ≤ capacity

namespace Memory

theorem beyond_lt (m : Memory) : m.size - m.capacity + 1 < offsetBound := by
  have hone : 1 < offsetBound := by decide
  have hfits : m.size ≤ m.capacity := m.fits
  omega

theorem push_eq_ok (m : Memory) (e : Event) : m.toBuffer.push e =
    .ok ⟨m.capacity, (m.held.extract (m.held.size + 1 - m.capacity)).push e⟩ :=
  Buffer.push_eq_ok m.room m.beyond_lt e

theorem room_of_push {m : Memory} {e : Event} {b : Buffer} (h : m.toBuffer.push e = .ok b) :
    0 < b.capacity ∧ b.held.size ≤ b.capacity := by
  rw [m.push_eq_ok] at h
  obtain rfl := Except.ok.inj h
  have hroom := m.room
  have hfits := m.fits
  refine ⟨hroom, ?_⟩
  show ((m.held.extract (m.held.size + 1 - m.capacity)).push e).size ≤ m.capacity
  rw [Array.size_push, Array.size_extract, Nat.min_self]
  omega

/-- There is always room for one event. -/
def ofCapacity (n : Nat) : Memory := ⟨⟨max n 1, #[]⟩, Nat.le_max_right n 1, Nat.zero_le _⟩

def standard : Memory := ofCapacity Limits.logBuffer

def push (m : Memory) (e : Event) : Memory :=
  match h : m.toBuffer.push e with
  | .ok b => ⟨b, (room_of_push h).1, (room_of_push h).2⟩
  | .error _ => absurd (m.push_eq_ok e) (by simp [h])

def submit (m : Memory) (least : Level) (e : Event) : Memory :=
  if least.admits e.level then m.push e else m

def clear (m : Memory) : Memory := ⟨m.toBuffer.clear, m.room, Nat.zero_le _⟩

/-- A push into a log does not fail. -/
theorem toBuffer_push (m : Memory) (e : Event) :
    m.toBuffer.push e = .ok (m.push e).toBuffer := by
  unfold push
  split
  · next h => exact h
  · next h => exact absurd (m.push_eq_ok e) (by simp [h])

theorem toBuffer_submit (m : Memory) (least : Level) (e : Event) :
    m.toBuffer.submit least e = .ok (m.submit least e).toBuffer := by
  unfold Buffer.submit submit
  by_cases hlevel : least.admits e.level = true
  · rw [if_pos hlevel, if_pos hlevel, m.toBuffer_push]
  · rw [if_neg hlevel, if_neg hlevel]

end Memory

end YupFront
