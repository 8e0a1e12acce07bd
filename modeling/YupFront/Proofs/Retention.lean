import Mathlib.Data.List.DropRight
import YupFront.Log.Memory

/-! What a log with little room holds. However events come in, those that are left are the newest of
the events accepted since the log was last cleared, and a summary counts each of them once. -/

namespace YupFront

section Newest

variable {α : Type}

theorem rtake_rtake_succ (l : List α) (n : Nat) : (l.rtake (n + 1)).rtake n = l.rtake n := by
  rw [List.rtake, List.rtake, List.rtake, List.drop_drop, List.length_drop]
  congr 1
  omega

/-- Of the newest `n` and one more, the newest `n` are the newest of all. -/
theorem rtake_rtake_concat (l : List α) (a : α) (n : Nat) :
    (l.rtake n ++ [a]).rtake n = (l ++ [a]).rtake n := by
  cases n with
  | zero => simp
  | succ n => rw [List.rtake_concat_succ, List.rtake_concat_succ, rtake_rtake_succ]

theorem toList_extract_from (xs : Array α) (n : Nat) :
    (xs.extract n).toList = xs.toList.drop n := by
  rw [Array.toList_extract, List.extract_eq_take_drop]
  exact List.take_of_length_le (by simp)

end Newest

/-- What is done to a log. An event comes in through the filter for levels or past it. -/
inductive Operation where
  | submit (e : Event)
  | push (e : Event)
  | clear

namespace Operation

/-- The event that an operation brings in. The filter lets one in that is at least as urgent as the
least urgent level of interest. -/
def accepted? (least : Level) : Operation → Option Event
  | submit e => if e.level.rank ≤ least.rank then some e else none
  | push e => some e
  | clear => none

def isClear : Operation → Bool
  | clear => true
  | submit _ | push _ => false

end Operation

/-- The events accepted by the operations behind the last one that cleared the log. -/
def accepted (least : Level) (operations : List Operation) : List Event :=
  (operations.rtakeWhile fun o => !o.isClear).filterMap (Operation.accepted? least)

section Accepted

variable (least : Level) (operations : List Operation)

theorem accepted_concat_clear : accepted least (operations ++ [.clear]) = [] := by
  rw [accepted, List.rtakeWhile_concat]
  rfl

theorem accepted_concat {o : Operation} (h : o.isClear = false) :
    accepted least (operations ++ [o]) =
      accepted least operations ++ (o.accepted? least).toList := by
  have hgoes : (!o.isClear) = true := by simp [h]
  rw [accepted, List.rtakeWhile_concat, if_pos hgoes, List.filterMap_append]
  cases ho : o.accepted? least <;> simp [accepted, ho]

end Accepted

namespace Buffer

def perform (least : Level) (b : Buffer) : Operation → Except Fault Buffer
  | .submit e => b.submit least e
  | .push e => b.push e
  | .clear => .ok b.clear

def after (b : Buffer) (least : Level) (operations : List Operation) : Except Fault Buffer :=
  operations.foldlM (perform least) b

/-- A push leaves the newest events, also where there were more of them than there is room for. -/
theorem exists_push {b : Buffer} (hroom : 0 < b.capacity)
    (hbeyond : b.size - b.capacity + 1 < offsetBound) (e : Event) :
    ∃ c, b.push e = .ok c ∧ c.capacity = b.capacity ∧
      c.events = (b.events ++ [e]).rtake b.capacity := by
  refine ⟨_, push_eq_ok hroom hbeyond e, rfl, ?_⟩
  have hlength : b.events.length = b.held.size := Array.length_toList
  have hdrop : b.held.size + 1 - b.capacity ≤ b.events.length := by omega
  rw [List.rtake, List.length_append, List.length_singleton, hlength,
    List.drop_append_of_le_length hdrop, events, Array.toList_push, toList_extract_from]
  rfl

/-- Every event is of one of the four levels. -/
theorem countP_levels (es : List Event) :
    es.countP (·.level == .error) + es.countP (·.level == .warning) +
      es.countP (·.level == .info) + es.countP (·.level == .debug) = es.length := by
  induction es with
  | nil => rfl
  | cons e es ih =>
    simp only [List.countP_cons, List.length_cons]
    cases e.level <;> simp <;> omega

theorem critical_le_errors (b : Buffer) : b.summary.critical ≤ b.summary.errors := by
  refine List.countP_mono_left fun e _ he => ?_
  exact (Bool.and_eq_true _ _ ▸ he).1

end Buffer

namespace Memory

def perform (least : Level) (m : Memory) : Operation → Memory
  | .submit e => m.submit least e
  | .push e => m.push e
  | .clear => m.clear

def after (m : Memory) (least : Level) (operations : List Operation) : Memory :=
  operations.foldl (perform least) m

/-! Nothing that is done to a log fails. -/

theorem toBuffer_perform (m : Memory) (least : Level) (o : Operation) :
    m.toBuffer.perform least o = .ok (m.perform least o).toBuffer := by
  cases o with
  | submit e => exact m.toBuffer_submit least e
  | push e => exact m.toBuffer_push e
  | clear => rfl

theorem toBuffer_after (m : Memory) (least : Level) (operations : List Operation) :
    m.toBuffer.after least operations = .ok (m.after least operations).toBuffer := by
  induction operations generalizing m with
  | nil => rfl
  | cons o operations ih =>
    rw [Buffer.after, List.foldlM_cons, m.toBuffer_perform]
    exact ih (m.perform least o)

theorem push_leaves (m : Memory) (e : Event) :
    (m.push e).capacity = m.capacity ∧ (m.push e).events = (m.events ++ [e]).rtake m.capacity := by
  obtain ⟨b, hpush, hb⟩ := Buffer.exists_push m.room m.beyond_lt e
  rw [m.toBuffer_push] at hpush
  obtain rfl := Except.ok.inj hpush
  exact hb

/-- The newest of the events `kept` are in the log, as many as there is room for. -/
structure Holds (room : Nat) (kept : List Event) (m : Memory) : Prop where
  capacity : m.capacity = room
  events : m.events = kept.rtake room

namespace Holds

variable {room : Nat} {kept : List Event} {m : Memory}

theorem push (h : m.Holds room kept) (e : Event) : (m.push e).Holds room (kept ++ [e]) := by
  obtain ⟨rfl, hevents⟩ := h
  obtain ⟨hcapacity, hpushed⟩ := m.push_leaves e
  refine ⟨hcapacity, ?_⟩
  rw [hpushed, hevents, rtake_rtake_concat]

theorem submit (h : m.Holds room kept) (least : Level) (e : Event) :
    (m.submit least e).Holds room (kept ++ ((Operation.submit e).accepted? least).toList) := by
  unfold Memory.submit Level.admits Operation.accepted?
  by_cases hlevel : e.level.rank ≤ least.rank
  · simpa [hlevel] using h.push e
  · simpa [hlevel] using h

theorem clear (h : m.Holds room kept) : m.clear.Holds room [] :=
  ⟨h.capacity, by simp [Memory.clear, Buffer.clear, Buffer.events, List.rtake]⟩

theorem start (c : Nat) : (ofCapacity c).Holds (max c 1) [] :=
  ⟨rfl, by simp [ofCapacity, Buffer.events, List.rtake]⟩

end Holds

theorem holds_after (c : Nat) (least : Level) (operations : List Operation) :
    ((ofCapacity c).after least operations).Holds (max c 1) (accepted least operations) := by
  induction operations using List.reverseRecOn with
  | nil => exact .start c
  | append_singleton operations o ih =>
    rw [after, List.foldl_append]
    cases o with
    | clear =>
      rw [accepted_concat_clear]
      exact ih.clear
    | push e =>
      rw [accepted_concat least operations rfl]
      exact ih.push e
    | submit e =>
      rw [accepted_concat least operations rfl]
      exact ih.submit least e

end Memory

/-- Whatever is done to a log does not fail. It holds the newest of the events accepted since it was
last cleared, and never more than there is room for. Its summary counts every one of them under one
level. -/
theorem newest_events_kept (c : Nat) (least : Level) (operations : List Operation) :
    let m := (Memory.ofCapacity c).after least operations
    Buffer.after ⟨max c 1, #[]⟩ least operations = .ok m.toBuffer ∧
      m.events = (accepted least operations).rtake (max c 1) ∧
      m.size = m.events.length ∧ m.size ≤ max c 1 ∧
      m.summary.errors + m.summary.warnings + m.summary.infos + m.summary.debugs =
        m.summary.total ∧
      m.summary.total = m.events.length ∧ m.summary.critical ≤ m.summary.errors := by
  intro m
  have hholds := Memory.holds_after c least operations
  have hlength : m.events.length = m.size := Array.length_toList
  have hsize : m.size ≤ max c 1 := m.fits.trans_eq hholds.capacity
  have hlevels := Buffer.countP_levels m.events
  exact ⟨(Memory.ofCapacity c).toBuffer_after least operations, hholds.events, hlength.symm, hsize,
    hlevels.trans hlength, hlength.symm, m.critical_le_errors⟩

end YupFront
