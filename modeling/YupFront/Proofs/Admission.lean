import Mathlib.Data.List.Basic
import YupFront.Proofs.Clients

/-! A gate lets one run in at a time, whatever its clients do and in whatever order they take their
turns. What a turn can do to the guards is said once; all else follows from that by induction over
the schedule. -/

namespace YupFront

namespace Gate

variable {g inside : Gate}

theorem enter?_eq_some_iff : g.enter? = some inside ↔ g.busy = false ∧ inside.busy = true := by
  obtain ⟨busy⟩ := g
  obtain ⟨held⟩ := inside
  cases busy <;> cases held <;> simp [enter?]

theorem enter?_eq_none_iff : g.enter? = none ↔ g.busy = true := by
  obtain ⟨busy⟩ := g
  cases busy <;> simp [enter?]

theorem eq_new_iff : g = new ↔ g.busy = false := by
  obtain ⟨busy⟩ := g
  simp [new]

end Gate

/-- What a turn does to the gate and to the guards, and what is told of it. A guard is put anywhere
among the others, changes its use, or is gone. -/
inductive Moves (g : Gate) (number : Nat) :
    List Guard → Gate → List Guard → List Happening → Prop where
  | idle (gs : List Guard) : Moves g number gs g gs []
  | refused (gs : List Guard) : g.busy = true → Moves g number gs g gs [.refused]
  | entered (a b : List Guard) {inside : Gate} : g.enter? = some inside →
    Moves g number (a ++ b) inside (a ++ ⟨number, .kept⟩ :: b) [.entered number]
  | admitted (a b : List Guard) {inside : Gate} : g.enter? = some inside →
    Moves g number (a ++ b) inside (a ++ ⟨number, .admitted⟩ :: b) [.admitted number]
  | began (a b : List Guard) (k : Nat) :
    Moves g number (a ++ ⟨k, .admitted⟩ :: b) g (a ++ ⟨k, .running⟩ :: b) [.began k]
  | ended (a b : List Guard) (k : Nat) (ending : Ending) :
    Moves g number (a ++ ⟨k, .running⟩ :: b) g (a ++ ⟨k, .ended ending⟩ :: b) [.ended k ending]
  | dropped (a b : List Guard) (k : Nat) :
    Moves g number (a ++ ⟨k, .kept⟩ :: b) g.leave (a ++ b) [.dropped k]
  | released (a b : List Guard) (k : Nat) (ending : Ending) :
    Moves g number (a ++ ⟨k, .ended ending⟩ :: b) g.leave (a ++ b) [.released k]

variable {g g' : Gate} {number : Nat} {gs gs' : List Guard} {told : List Happening}

theorem Moves.among (h : Moves g number gs g' gs' told) (a b : List Guard) :
    Moves g number (a ++ gs ++ b) g' (a ++ gs' ++ b) told := by
  cases h with
  | idle => exact .idle _
  | refused _ hbusy => exact .refused _ hbusy
  | entered c d hg => simpa using Moves.entered (a ++ c) (d ++ b) hg
  | admitted c d hg => simpa using Moves.admitted (a ++ c) (d ++ b) hg
  | began c d k => simpa using Moves.began (a ++ c) (d ++ b) k
  | ended c d k ending => simpa using Moves.ended (a ++ c) (d ++ b) k ending
  | dropped c d k => simpa using Moves.dropped (a ++ c) (d ++ b) k
  | released c d k ending => simpa using Moves.released (a ++ c) (d ++ b) k ending

theorem Client.turn?_moves {c : Client} {t : Turn} (h : c.turn? g number = some t) :
    Moves g number c.guards t.gate t.client.guards t.told := by
  obtain ⟨stage, kept⟩ := c
  cases stage with
  | running plan outer =>
    cases plan with
    | done ending =>
      cases outer with
      | nil =>
        cases kept with
        | nil => simp [turn?] at h
        | cons k kept =>
          obtain rfl := Option.some.inj h
          exact .dropped [] (kept.map fun k => ⟨k, .kept⟩) k
      | cons frame outer =>
        obtain rfl := Option.some.inj h
        exact .ended [] _ frame.number ending
    | request body next =>
      cases hg : g.enter? with
      | some inside =>
        obtain rfl : _ = t := by simpa [turn?, hg] using h
        exact .admitted [] _ hg
      | none =>
        obtain rfl : _ = t := by simpa [turn?, hg] using h
        exact .refused _ (Gate.enter?_eq_none_iff.mp hg)
    | enter next =>
      cases hg : g.enter? with
      | some inside =>
        obtain rfl : _ = t := by simpa [turn?, hg] using h
        exact .entered _ _ hg
      | none =>
        obtain rfl : _ = t := by simpa [turn?, hg] using h
        exact .refused _ (Gate.enter?_eq_none_iff.mp hg)
    | drop next =>
      cases kept with
      | nil =>
        obtain rfl := Option.some.inj h
        exact .idle _
      | cons k kept =>
        obtain rfl := Option.some.inj h
        exact .dropped _ _ k
  | admitted body frame outer =>
    obtain rfl := Option.some.inj h
    exact .began [] _ frame.number
  | ended ending frame outer =>
    obtain rfl := Option.some.inj h
    exact .released [] _ frame.number ending

/-! What is told of one guard. -/

namespace Happening

def number? : Happening → Option Nat
  | refused => none
  | entered k | dropped k | admitted k | began k | ended k _ | released k => some k

/-- What of a history is about one guard. -/
def about (k : Nat) (history : List Happening) : List Happening :=
  history.filter fun x => x.number? == some k

/-- All that is told of a guard that is gone: it was kept and dropped, or its body was let in, ran, ended
and was left, each once. -/
def IsVisit (k : Nat) (told : List Happening) : Prop :=
  told = [entered k, dropped k] ∨
    ∃ ending, told = [admitted k, began k, ended k ending, released k]

theorem about_concat_self {x : Happening} {k : Nat} (hx : x.number? = some k)
    (history : List Happening) : about k (history ++ [x]) = about k history ++ [x] := by
  simp [about, hx]

theorem about_concat_of_ne {x : Happening} {k : Nat} (hx : x.number? ≠ some k)
    (history : List Happening) : about k (history ++ [x]) = about k history := by
  simp [about, hx]

theorem about_concat_other {x : Happening} {k m : Nat} (hx : x.number? = some k) (hm : m ≠ k)
    (history : List Happening) : about m (history ++ [x]) = about m history :=
  about_concat_of_ne (by simpa [hx] using hm.symm) history

/-- What is about the last guard comes last. -/
theorem flatMap_about_concat {x : Happening} {k : Nat} (hx : x.number? = some k)
    (history : List Happening) :
    (List.range (k + 1)).flatMap (about · (history ++ [x])) =
      (List.range (k + 1)).flatMap (about · history) ++ [x] := by
  have hearlier : ∀ m ∈ List.range k, about m (history ++ [x]) = about m history := by
    intro m hm
    exact about_concat_other hx (Nat.ne_of_lt (List.mem_range.mp hm)) history
  rw [List.range_succ, List.flatMap_append, List.flatMap_append, List.flatMap_congr hearlier]
  simp [about_concat_self hx]

end Happening

open Happening in
/-- What is told of a guard up to its present use. -/
def Guard.story : Guard → List Happening
  | ⟨k, .kept⟩ => [entered k]
  | ⟨k, .admitted⟩ => [admitted k]
  | ⟨k, .running⟩ => [admitted k, began k]
  | ⟨k, .ended ending⟩ => [admitted k, began k, ended k ending]

open Happening in
/-- The gate is free or there is one guard, the last that was handed out. What is told, refusals
aside, is told of one guard after the other. -/
structure HeldBy (holder : Option Guard) (g : Gate) (gs : List Guard) (issued : Nat)
    (history : List Happening) : Prop where
  guards : gs = holder.toList
  busy : g.busy = holder.isSome
  last : ∀ x ∈ holder, x.number + 1 = issued
  story : ∀ x ∈ holder, about x.number history = x.story
  gone : ∀ k < issued, (∀ x ∈ holder, x.number ≠ k) → IsVisit k (about k history)
  fresh : ∀ k, issued ≤ k → about k history = []
  inTurn : history.filter (fun x => x.number?.isSome) =
    (List.range issued).flatMap (about · history)

namespace HeldBy

open Happening

variable {holder : Option Guard} {issued : Nat} {history : List Happening}

theorem start : HeldBy none .new [] 0 [] :=
  ⟨rfl, rfl, nofun, nofun, nofun, fun _ _ => rfl, rfl⟩

theorem refuse (h : HeldBy holder g gs issued history) :
    HeldBy holder g gs issued (history ++ [refused]) := by
  have habout : ∀ k, about k (history ++ [refused]) = about k history := fun k =>
    about_concat_of_ne (by simp [number?]) history
  have hturn : (history ++ [refused]).filter (fun x => x.number?.isSome) =
      history.filter fun x => x.number?.isSome := by
    simp [number?]
  constructor
  case guards => exact h.guards
  case busy => exact h.busy
  case last => exact h.last
  case story => simpa only [habout] using h.story
  case gone => simpa only [habout] using h.gone
  case fresh => simpa only [habout] using h.fresh
  case inTurn =>
    simp only [habout, hturn]
    exact h.inTurn

theorem grant (h : HeldBy none g gs issued history) {x : Happening} {u : Use} {inside : Gate}
    (hbusy : inside.busy = true) (hx : x.number? = some issued)
    (hstory : (Guard.mk issued u).story = [x]) :
    HeldBy (some ⟨issued, u⟩) inside [⟨issued, u⟩] (issued + 1) (history ++ [x]) := by
  have hself := about_concat_self hx history
  have hother : ∀ k, k ≠ issued → about k (history ++ [x]) = about k history := fun k hk =>
    about_concat_other hx hk history
  constructor
  case guards => rfl
  case busy => exact hbusy
  case last => simp
  case story => simp [hself, h.fresh issued (Nat.le_refl _), hstory]
  case gone =>
    intro k hk hne
    have hki : issued ≠ k := hne _ rfl
    rw [hother k hki.symm]
    exact h.gone k (by omega) nofun
  case fresh =>
    intro k hk
    rw [hother k (by omega)]
    exact h.fresh k (by omega)
  case inTurn =>
    have hfresh : about issued history = [] := h.fresh issued (Nat.le_refl _)
    rw [flatMap_about_concat hx, List.filter_append, h.inTurn, List.range_succ]
    simp [hfresh, hx]

theorem inTurn_concat {k : Nat} {u : Use} (h : HeldBy (some ⟨k, u⟩) g gs issued history)
    {x : Happening} (hx : x.number? = some k) :
    (history ++ [x]).filter (fun x => x.number?.isSome) =
      (List.range issued).flatMap (about · (history ++ [x])) := by
  have hlast : k + 1 = issued := h.last _ rfl
  rw [← hlast, flatMap_about_concat hx, hlast, List.filter_append, h.inTurn]
  simp [hx]

theorem change {k : Nat} {u v : Use} (h : HeldBy (some ⟨k, u⟩) g gs issued history) {x : Happening}
    (hx : x.number? = some k) (hstory : (Guard.mk k v).story = (Guard.mk k u).story ++ [x]) :
    HeldBy (some ⟨k, v⟩) g [⟨k, v⟩] issued (history ++ [x]) := by
  have hself := about_concat_self hx history
  have hother : ∀ m, m ≠ k → about m (history ++ [x]) = about m history := fun m hm =>
    about_concat_other hx hm history
  have hold : about k history = (Guard.mk k u).story := h.story _ rfl
  have hlast : k + 1 = issued := h.last _ rfl
  constructor
  case guards => rfl
  case busy => exact h.busy
  case last => simpa using hlast
  case story => simp [hself, hold, hstory]
  case gone =>
    intro m hm hne
    have hmk : k ≠ m := hne _ rfl
    rw [hother m hmk.symm]
    exact h.gone m hm (by simpa using hmk)
  case fresh =>
    intro m hm
    rw [hother m (by omega)]
    exact h.fresh m hm
  case inTurn => exact h.inTurn_concat hx

theorem free {k : Nat} {u : Use} (h : HeldBy (some ⟨k, u⟩) g gs issued history) {x : Happening}
    (hx : x.number? = some k) (hvisit : IsVisit k ((Guard.mk k u).story ++ [x])) :
    HeldBy none g.leave [] issued (history ++ [x]) := by
  have hself := about_concat_self hx history
  have hother : ∀ m, m ≠ k → about m (history ++ [x]) = about m history := fun m hm =>
    about_concat_other hx hm history
  have hold : about k history = (Guard.mk k u).story := h.story _ rfl
  have hlast : k + 1 = issued := h.last _ rfl
  constructor
  case guards => rfl
  case busy => rfl
  case last => nofun
  case story => nofun
  case gone =>
    intro m hm _
    by_cases hmk : m = k
    · rw [hmk, hself, hold]
      exact hvisit
    · rw [hother m hmk]
      exact h.gone m hm (by simpa using fun h => hmk h.symm)
  case fresh =>
    intro m hm
    rw [hother m (by omega)]
    exact h.fresh m hm
  case inTurn => exact h.inTurn_concat hx

theorem eq_holder {a b : List Guard} {x : Guard} (h : HeldBy holder g (a ++ x :: b) issued history) :
    holder = some x ∧ a = [] ∧ b = [] := by
  have hlist := h.guards
  cases holder with
  | none => simp at hlist
  | some y =>
    cases a with
    | nil =>
      obtain ⟨rfl, rfl⟩ : x = y ∧ b = [] := by simpa using hlist
      exact ⟨rfl, rfl, rfl⟩
    | cons z a => simp at hlist

theorem of_enter? {a b : List Guard} {inside : Gate} (h : HeldBy holder g (a ++ b) issued history)
    (hg : g.enter? = some inside) : holder = none ∧ a = [] ∧ b = [] ∧ inside.busy = true := by
  obtain ⟨hidle, hbusy⟩ := Gate.enter?_eq_some_iff.mp hg
  have hnone : holder = none := by simpa [hidle] using h.busy
  have hnil : a ++ b = [] := by simpa [hnone] using h.guards
  obtain ⟨ha, hb⟩ := List.append_eq_nil_iff.mp hnil
  exact ⟨hnone, ha, hb, hbusy⟩

end HeldBy

/-- The invariant of a turn. -/
theorem Moves.heldBy (h : Moves g number gs g' gs' told) {holder : Option Guard}
    {history : List Happening} (hheld : HeldBy holder g gs number history) :
    ∃ next, HeldBy next g' gs' (number + told.countP System.grants) (history ++ told) := by
  -- With one guard at most, the guards on both sides of a place are none.
  cases h with
  | idle => exact ⟨holder, by simpa using hheld⟩
  | refused => exact ⟨holder, by simpa [System.grants] using hheld.refuse⟩
  | entered a b hg =>
    obtain ⟨rfl, rfl, rfl, hbusy⟩ := hheld.of_enter? hg
    exact ⟨_, hheld.grant hbusy rfl rfl⟩
  | admitted a b hg =>
    obtain ⟨rfl, rfl, rfl, hbusy⟩ := hheld.of_enter? hg
    exact ⟨_, hheld.grant hbusy rfl rfl⟩
  | began a b k =>
    obtain ⟨rfl, rfl, rfl⟩ := hheld.eq_holder
    exact ⟨_, hheld.change rfl rfl⟩
  | ended a b k ending =>
    obtain ⟨rfl, rfl, rfl⟩ := hheld.eq_holder
    exact ⟨_, hheld.change rfl rfl⟩
  | dropped a b k =>
    obtain ⟨rfl, rfl, rfl⟩ := hheld.eq_holder
    exact ⟨_, hheld.free rfl (.inl rfl)⟩
  | released a b k ending =>
    obtain ⟨rfl, rfl, rfl⟩ := hheld.eq_holder
    exact ⟨_, hheld.free rfl (.inr ⟨ending, rfl⟩)⟩

namespace System

theorem step_of_turn {s : System} {i : Nat} {c : Client} {t : Turn} (hc : s.clients[i]? = some c)
    (ht : c.turn? s.gate s.issued = some t) :
    s.step i = ⟨t.gate, s.clients.set i t.client, s.issued + t.told.countP grants,
      s.history ++ t.told⟩ := by
  simp only [step, hc, ht]

theorem exists_guards_set {s : System} {i : Nat} {c : Client} (hc : s.clients[i]? = some c) :
    ∃ a b, s.guards = a ++ c.guards ++ b ∧
      ∀ d : Client, (s.clients.set i d).flatMap Client.guards = a ++ d.guards ++ b := by
  obtain ⟨hi, hget⟩ := List.getElem?_eq_some_iff.mp hc
  refine ⟨(s.clients.take i).flatMap Client.guards, (s.clients.drop (i + 1)).flatMap Client.guards,
    ?_, fun d => ?_⟩
  · have hsplit : s.clients = s.clients.take i ++ c :: s.clients.drop (i + 1) := by
      rw [← hget, List.getElem_cons_drop, List.take_append_drop]
    rw [guards]
    nth_rewrite 1 [hsplit]
    simp
  · rw [List.set_eq_take_append_cons_drop, if_pos hi]
    simp

/-- The gate of a system and its guards are as one guard at a time leaves them. -/
def Sound (s : System) : Prop := ∃ holder, HeldBy holder s.gate s.guards s.issued s.history

theorem Sound.step {s : System} (h : s.Sound) (i : Nat) : (s.step i).Sound := by
  cases hc : s.clients[i]? with
  | none => simpa [System.step, hc] using h
  | some c =>
    cases ht : c.turn? s.gate s.issued with
    | none => simpa [System.step, hc, ht] using h
    | some t =>
      obtain ⟨holder, hheld⟩ := h
      obtain ⟨a, b, hguards, hset⟩ := exists_guards_set hc
      have hmoves := (Client.turn?_moves ht).among a b
      rw [← hguards, ← hset] at hmoves
      rw [step_of_turn hc ht]
      exact hmoves.heldBy hheld

theorem start_sound (plans : List Plan) : (start plans).Sound := by
  have hnone : (start plans).guards = [] := by
    simp [guards, start, Client.guards, Stage.guards]
  exact ⟨none, hnone ▸ HeldBy.start⟩

theorem Sound.run {s : System} (h : s.Sound) (schedule : List Nat) : (s.run schedule).Sound := by
  induction schedule generalizing s with
  | nil => exact h
  | cons i schedule ih => exact ih (h.step i)

theorem Sound.length_guards {s : System} (h : s.Sound) :
    s.guards.length = if s.gate.busy = true then 1 else 0 := by
  obtain ⟨holder, hheld⟩ := h
  rw [hheld.guards, hheld.busy]
  cases holder <;> rfl

theorem Sound.busy_iff {s : System} (h : s.Sound) : s.gate.busy = true ↔ s.guards.length = 1 := by
  rw [h.length_guards]
  split <;> simp_all

theorem Sound.eq_new {s : System} (h : s.Sound) (hnone : s.guards = []) : s.gate = .new := by
  have hlength := h.length_guards
  rw [hnone] at hlength
  rw [Gate.eq_new_iff, Bool.eq_false_iff]
  intro hbusy
  simp [hbusy] at hlength

theorem Sound.guards_eq_nil {s : System} (h : s.Sound) (hnew : s.gate = .new) : s.guards = [] := by
  have hlength := h.length_guards
  have hbusy : s.gate.busy = false := Gate.eq_new_iff.mp hnew
  simpa [hbusy] using hlength

theorem step_request_of_busy {s : System} {i : Nat} {body : Plan} {next : Option Ending → Plan}
    {outer : List Frame} {kept : List Nat} (hbusy : s.gate.busy = true)
    (hc : s.clients[i]? = some ⟨.running (.request body next) outer, kept⟩) :
    s.step i = { s with
      clients := s.clients.set i ⟨.running (next none) outer, kept⟩
      history := s.history ++ [.refused] } := by
  have hnone := Gate.enter?_eq_none_iff.mpr hbusy
  have hturn : Client.turn? ⟨.running (.request body next) outer, kept⟩ s.gate s.issued =
      some ⟨s.gate, ⟨.running (next none) outer, kept⟩, [.refused]⟩ := by
    simp [Client.turn?, hnone]
  rw [step_of_turn hc hturn]
  rfl

theorem told_of_asks {c : Client} (hasks : c.Asks) (g : Gate) (number : Nat) :
    ∃ t, c.turn? g number = some t ∧ (t.told = [.refused] ↔ g.busy = true) := by
  obtain ⟨stage, kept⟩ := c
  obtain ⟨busy⟩ := g
  obtain ⟨outer, ⟨body, next, rfl⟩ | ⟨next, rfl⟩⟩ := hasks <;>
    cases busy <;> simp [Client.turn?, Gate.enter?]

theorem guards_of_turn?_eq_none {c : Client} {g : Gate} {number : Nat} (h : c.turn? g number = none) :
    c.guards = [] := by
  obtain ⟨stage, kept⟩ := c
  cases stage with
  | running plan outer =>
    cases plan with
    | done ending =>
      cases outer <;> cases kept <;> simp [Client.turn?] at h
      rfl
    | request body next =>
      obtain ⟨t, ht, -⟩ := told_of_asks (c := ⟨.running (.request body next) outer, kept⟩)
        ⟨outer, .inl ⟨body, next, rfl⟩⟩ g number
      simp [ht] at h
    | enter next =>
      obtain ⟨t, ht, -⟩ := told_of_asks (c := ⟨.running (.enter next) outer, kept⟩)
        ⟨outer, .inr ⟨next, rfl⟩⟩ g number
      simp [ht] at h
    | drop next => cases kept <;> simp [Client.turn?] at h
  | admitted body frame outer => simp [Client.turn?] at h
  | ended ending frame outer => simp [Client.turn?] at h

open Happening in
/-- One run at a time. Guards are those that are kept and those of bodies that are not left yet. -/
structure Orderly (s : System) : Prop where
  one : s.guards.length ≤ 1
  busy_iff : s.gate.busy = true ↔ s.guards.length = 1
  free : s.guards = [] → s.gate = .new
  refused_iff : ∀ i c, s.clients[i]? = some c → c.Asks →
    ((s.step i).history = s.history ++ [refused] ↔ s.guards.length = 1)
  /-- Inside of a body a request is refused, and its own body is not run. -/
  nested : ∀ i body next frame outer kept,
    s.clients[i]? = some ⟨.running (.request body next) (frame :: outer), kept⟩ →
    s.step i = { s with
      clients := s.clients.set i ⟨.running (next none) (frame :: outer), kept⟩
      history := s.history ++ [refused] }
  /-- However a body ends, the gate is free when it is left. -/
  left : ∀ i ending frame outer kept, s.clients[i]? = some ⟨.ended ending frame outer, kept⟩ →
    (s.step i).gate = .new ∧ (s.step i).guards = []
  /-- The gate is free when all clients have come to their ends. -/
  finished : (∀ c ∈ s.clients, c.turn? s.gate s.issued = none) → s.gate = .new
  underWay : ∀ x ∈ s.guards, about x.number s.history = x.story
  /-- A body that was let in and left has run once. -/
  once : ∀ k < s.issued, (∀ x ∈ s.guards, x.number ≠ k) → IsVisit k (about k s.history)
  inTurn : s.history.filter (fun x => x.number?.isSome) =
    (List.range s.issued).flatMap (about · s.history)

theorem Sound.orderly {s : System} (h : s.Sound) : s.Orderly := by
  obtain ⟨holder, hheld⟩ := id h
  have hmem : ∀ x, x ∈ s.guards ↔ x ∈ holder := by
    intro x
    rw [hheld.guards]
    exact Option.mem_toList
  constructor
  case one =>
    rw [h.length_guards]
    split <;> decide
  case busy_iff => exact h.busy_iff
  case free => exact h.eq_new
  case refused_iff =>
    intro i c hc hasks
    obtain ⟨t, ht, htold⟩ := told_of_asks hasks s.gate s.issued
    rw [step_of_turn hc ht, List.append_cancel_left_eq, htold]
    exact h.busy_iff
  case nested =>
    intro i body next frame outer kept hc
    have hguard : (⟨frame.number, .running⟩ : Guard) ∈ s.guards :=
      List.mem_flatMap.mpr ⟨_, List.mem_of_getElem? hc, by simp [Client.guards, Stage.guards]⟩
    have hbusy : s.gate.busy = true := by
      rw [hheld.busy, Option.isSome_iff_exists]
      exact ⟨_, (hmem _).mp hguard⟩
    exact step_request_of_busy hbusy hc
  case left =>
    intro i ending frame outer kept hc
    have hturn : Client.turn? ⟨.ended ending frame outer, kept⟩ s.gate s.issued =
        some ⟨s.gate.leave, ⟨.running (frame.next (some ending)) outer, kept⟩,
          [.released frame.number]⟩ := rfl
    have hnew : (s.step i).gate = .new := by
      rw [step_of_turn hc hturn]
      rfl
    exact ⟨hnew, (h.step i).guards_eq_nil hnew⟩
  case finished =>
    intro hdone
    have hnone : s.guards = [] :=
      List.flatMap_eq_nil_iff.mpr fun c hc => guards_of_turn?_eq_none (hdone c hc)
    exact h.eq_new hnone
  case underWay => exact fun x hx => hheld.story x ((hmem x).mp hx)
  case once => exact fun k hk hx => hheld.gone k hk fun x hxh => hx x ((hmem x).mpr hxh)
  case inTurn => exact hheld.inTurn

/-! One client alone. -/

/-- What comes of a system if only one client takes turns. -/
def Reaches (i : Nat) (s s' : System) : Prop := ∃ turns, s.run (List.replicate turns i) = s'

variable {i : Nat} {s s' s'' : System}

theorem Reaches.refl : Reaches i s s := ⟨0, rfl⟩

theorem Reaches.trans (h : Reaches i s s') (h' : Reaches i s' s'') : Reaches i s s'' := by
  obtain ⟨turns, rfl⟩ := h
  obtain ⟨more, rfl⟩ := h'
  refine ⟨turns + more, ?_⟩
  rw [List.replicate_add, run, List.foldl_append]
  rfl

theorem reaches_step : Reaches i s (s.step i) := ⟨1, rfl⟩

theorem getElem?_of_set {cs ds : List Client} {c d : Client} (hc : cs[i]? = some c)
    (hd : ds = cs.set i d) : ds[i]? = some d := by
  obtain ⟨hi, -⟩ := List.getElem?_eq_some_iff.mp hc
  rw [hd, List.getElem?_set_self hi]

theorem reaches_of_turn {c d : Client} {g : Gate} {told : List Happening}
    (hc : s.clients[i]? = some c) (ht : c.turn? s.gate s.issued = some ⟨g, d, told⟩) :
    ∃ s', Reaches i s s' ∧ s'.gate = g ∧ s'.clients = s.clients.set i d ∧
      s'.clients[i]? = some d := by
  have hstep := step_of_turn hc ht
  have hclients : (s.step i).clients = s.clients.set i d := by rw [hstep]
  exact ⟨s.step i, reaches_step, by rw [hstep], hclients, getElem?_of_set hc hclients⟩

/-- The client with index `i` comes to the end of its plan as it does in `r`, and the other clients stay
as they are. -/
def ComesTo (s : System) (i : Nat) (outer : List Frame) (r : (Ending × Nat) × Gate) : Prop :=
  ∃ s' left, Reaches i s s' ∧ s'.clients = s.clients.set i ⟨.running (.done r.1.1) outer, left⟩ ∧
    left.length = r.1.2 ∧ s'.gate = r.2

theorem ComesTo.of_reaches {outer : List Frame} {d : Client} {r : (Ending × Nat) × Gate}
    (hcomes : s'.ComesTo i outer r) (h : Reaches i s s') (hclients : s'.clients = s.clients.set i d) :
    s.ComesTo i outer r := by
  obtain ⟨s'', left, hreaches, hset, hleft, hgate⟩ := hcomes
  refine ⟨s'', left, h.trans hreaches, ?_, hleft, hgate⟩
  rw [hset, hclients, List.set_set]

/-- What comes of a client behind its next turn comes of it now. -/
theorem comesTo_of_turn {c d : Client} {g : Gate} {told : List Happening} {outer : List Frame}
    {r : (Ending × Nat) × Gate} (hc : s.clients[i]? = some c)
    (ht : c.turn? s.gate s.issued = some ⟨g, d, told⟩)
    (h : ∀ s' : System, s'.clients[i]? = some d → s'.gate = g → s'.ComesTo i outer r) :
    s.ComesTo i outer r := by
  obtain ⟨s', hreaches, hgate, hclients, hd⟩ := reaches_of_turn hc ht
  exact (h s' hd hgate).of_reaches hreaches hclients

/-- The end of a body is passed on the way to the end of the plan. -/
theorem ComesTo.bind {c : Client} {inner outer : List Frame} {q r : (Ending × Nat) × Gate}
    (hcomes : s.ComesTo i inner q) (hc : s.clients[i]? = some c)
    (h : ∀ (s' : System) (left : List Nat),
      s'.clients[i]? = some ⟨.running (.done q.1.1) inner, left⟩ → left.length = q.1.2 →
      s'.gate = q.2 → s'.ComesTo i outer r) :
    s.ComesTo i outer r := by
  obtain ⟨s', left, hreaches, hclients, hleft, hgate⟩ := hcomes
  exact (h s' left (getElem?_of_set hc hclients) hleft hgate).of_reaches hreaches hclients

section Play

variable {g inside : Gate} (body : Plan) (next : Option Ending → Plan) (kept : Nat) (j : Journal)

theorem play_request_refused (hg : g.enter? = none) :
    ∃ k, ((Plan.play (.request body next) kept g).run j).1 =
      (((next none).play kept g).run k).1 := by
  simp only [Plan.play, Gate.process, hg]
  exact ⟨_, rfl⟩

theorem play_request_admitted (hg : g.enter? = some inside) {ending : Ending} {left : Nat}
    {after : Gate} (hbody : ((body.play kept inside).run j).1 = ((ending, left), after)) :
    ∃ k, ((Plan.play (.request body next) kept g).run j).1 =
      (((next (some ending)).play left after.leave).run k).1 := by
  rcases hrun : (body.play kept inside).run j with ⟨r, k⟩
  obtain rfl : r = ((ending, left), after) := by simpa [hrun] using hbody
  refine ⟨k, ?_⟩
  simp only [Plan.play, Gate.process, hg, StateT.run_bind, hrun]
  rfl

end Play

/-- A client that is left alone with the gate fares as the sequential program says. -/
theorem comesTo_play (plan : Plan) {s : System} {outer : List Frame} {kept : List Nat}
    (hc : s.clients[i]? = some ⟨.running plan outer, kept⟩) (j : Journal) :
    s.ComesTo i outer ((plan.play kept.length s.gate).run j).1 := by
  induction plan generalizing s outer kept j with
  | done ending =>
    refine ⟨s, kept, .refl, ?_, rfl, rfl⟩
    obtain ⟨hi, hget⟩ := List.getElem?_eq_some_iff.mp hc
    exact (hget ▸ List.set_getElem_self hi).symm
  | request body next ihbody ihnext =>
    cases hg : s.gate.enter? with
    | none =>
      have hturn : Client.turn? ⟨.running (.request body next) outer, kept⟩ s.gate s.issued =
          some ⟨s.gate, ⟨.running (next none) outer, kept⟩, [.refused]⟩ := by
        simp [Client.turn?, hg]
      obtain ⟨k, hplay⟩ := play_request_refused body next kept.length j hg
      refine comesTo_of_turn hc hturn fun s' hc' hgate => ?_
      rw [hplay, ← hgate]
      exact ihnext none hc' k
    | some inside =>
      have hturn : Client.turn? ⟨.running (.request body next) outer, kept⟩ s.gate s.issued =
          some ⟨inside, ⟨.admitted body ⟨s.issued, next⟩ outer, kept⟩, [.admitted s.issued]⟩ := by
        simp [Client.turn?, hg]
      rcases hbody : ((body.play kept.length inside).run j).1 with ⟨⟨ending, count⟩, after⟩
      obtain ⟨k, hplay⟩ := play_request_admitted body next kept.length j hg hbody
      rw [hplay]
      -- The client is let in, begins the body, plays it to its end, ends it, leaves it and goes on.
      refine comesTo_of_turn hc hturn fun s₁ hc₁ hgate₁ => ?_
      refine comesTo_of_turn hc₁ rfl fun s₂ hc₂ hgate₂ => ?_
      have hplayed := ihbody hc₂ j
      rw [hgate₂, hgate₁, hbody] at hplayed
      refine hplayed.bind hc₂ fun s₃ left hc₃ hleft hgate₃ => ?_
      refine comesTo_of_turn hc₃ rfl fun s₄ hc₄ hgate₄ => ?_
      refine comesTo_of_turn hc₄ rfl fun s₅ hc₅ hgate₅ => ?_
      have hnext := ihnext (some ending) hc₅ k
      rw [hleft, hgate₅, hgate₄, hgate₃] at hnext
      exact hnext
  | enter next ih =>
    cases hg : s.gate.enter? with
    | none =>
      have hturn : Client.turn? ⟨.running (.enter next) outer, kept⟩ s.gate s.issued =
          some ⟨s.gate, ⟨.running (next false) outer, kept⟩, [.refused]⟩ := by
        simp [Client.turn?, hg]
      refine comesTo_of_turn hc hturn fun s' hc' hgate => ?_
      simp only [Plan.play, hg]
      rw [← hgate]
      exact ih false hc' j
    | some inside =>
      have hturn : Client.turn? ⟨.running (.enter next) outer, kept⟩ s.gate s.issued =
          some ⟨inside, ⟨.running (next true) outer, s.issued :: kept⟩, [.entered s.issued]⟩ := by
        simp [Client.turn?, hg]
      refine comesTo_of_turn hc hturn fun s' hc' hgate => ?_
      simp only [Plan.play, hg]
      rw [← hgate]
      exact ih true hc' j
  | drop next ih =>
    cases kept with
    | nil =>
      refine comesTo_of_turn hc rfl fun s' hc' hgate => ?_
      have hcomes := ih hc' j
      rw [hgate] at hcomes
      exact hcomes
    | cons k kept =>
      refine comesTo_of_turn hc rfl fun s' hc' hgate => ?_
      have hcomes := ih hc' j
      rw [hgate] at hcomes
      exact hcomes

end System

/-- Whatever the clients plan and whoever takes the next turn, the gate lets one run in at a time. A
client whose turns are not interrupted fares as `Gate.process` says. -/
theorem gate_admits_one_run :
    (∀ (plans : List Plan) (schedule : List Nat), ((System.start plans).run schedule).Orderly) ∧
    ∀ (s : System) (i : Nat) (plan : Plan) (outer : List Frame) (kept : List Nat) (j : Journal),
      s.clients[i]? = some ⟨.running plan outer, kept⟩ →
      s.ComesTo i outer ((plan.play kept.length s.gate).run j).1 :=
  ⟨fun plans schedule => ((System.start_sound plans).run schedule).orderly,
    fun _ _ plan _ _ j hc => System.comesTo_play plan hc j⟩

open Happening in
/-- A body asks for a run of its own and unwinds; another client asks while it runs. -/
theorem gate_admits_one_run_nested :
    let inner : Plan := .request (.done .returned) fun _ => .done .unwound
    let outer : Plan := .request inner fun _ => .done .returned
    let other : Plan := .request (.done .returned) fun _ => .done .returned
    let s := System.start [outer, other]
    ((s.run [0, 0, 0, 1, 0, 0]).history =
      [admitted 0, began 0, refused, refused, ended 0 .unwound, released 0]) ∧
    (s.run [0, 0, 0, 1, 0, 0]).Orderly ∧
    ((s.run [0, 0]).step 0).history = (s.run [0, 0]).history ++ [refused] ∧
    (s.clients[0]? = some ⟨.running outer [], []⟩) ∧
    s.ComesTo 0 [] ((.returned, 0), .new) := by
  intro inner outer other s
  obtain ⟨horderly, hplay⟩ := gate_admits_one_run
  have hnested := (horderly [outer, other] [0, 0]).nested 0 (.done .returned) (fun _ => .done .unwound)
    ⟨0, fun _ => .done .returned⟩ [] [] rfl
  have hrefused : ((s.run [0, 0]).step 0).history = (s.run [0, 0]).history ++ [refused] := by
    rw [hnested]
  have hcomes := hplay s 0 outer [] [] (.empty true) rfl
  have hresult : ((outer.play 0 s.gate).run (.empty true)).1 = ((.returned, 0), .new) := by
    simp only [outer, inner, s, System.start, Plan.play, Gate.process, Gate.enter?, Gate.new]
    rfl
  exact ⟨rfl, horderly _ _, hrefused, rfl, hresult ▸ hcomes⟩

end YupFront
