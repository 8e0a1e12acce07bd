import YupFront.Proofs.Truncation

/-! Reading a journal. The keys of an event are found again after it was marked and its message cut,
and journals grow by the events told to them. -/

namespace YupFront

theorem lookup_pair [DecidableEq α] (k key : α) (value : β) (entries : List (α × β)) :
    ((key, value) :: entries).lookup k = if k = key then some value else entries.lookup k := by
  rw [List.lookup_cons]
  by_cases hk : k = key
  · simp [hk]
  · simp only [beq_eq_false_iff_ne.mpr hk, if_neg hk]

namespace Event

/-- What stands under a key of the context. -/
def value? (e : Event) (key : String) : Option String := e.context.lookup key

theorem lookup_insertKey (k key value : String) (context : List (String × String)) :
    (insertKey key value context).lookup k =
      if k = key then some value else context.lookup k := by
  induction context with
  | nil => rw [insertKey, lookup_pair]
  | cons p rest ih =>
    obtain ⟨name, v⟩ := p
    unfold insertKey
    split
    · rw [lookup_pair]
    · split
      · next hname =>
        subst hname
        by_cases hk : k = name <;> simp [lookup_pair, hk]
      · next hname =>
        rw [lookup_pair, lookup_pair, ih]
        by_cases hk : k = name
        · have hkey : k ≠ key := fun h => hname (hk.symm.trans h)
          rw [if_pos hk, if_pos hk, if_neg hkey]
        · rw [if_neg hk, if_neg hk]

/-- Of several values for one key the last one counts. -/
theorem value?_withKeys (e : Event) (pairs : List (String × String)) (k : String) :
    (e.withKeys pairs).value? k = (pairs.reverse.lookup k).or (e.value? k) := by
  induction pairs generalizing e with
  | nil => rfl
  | cons p pairs ih =>
    obtain ⟨key, value⟩ := p
    let first : Event := { e with context := insertKey key value e.context }
    have hfirst : first.value? k = if k = key then some value else e.value? k :=
      lookup_insertKey k key value e.context
    change (first.withKeys pairs).value? k = _
    rw [ih, hfirst, List.reverse_cons, List.lookup_append, Option.or_assoc, lookup_pair]
    by_cases hk : k = key <;> simp [hk]

@[simp] theorem level_withKeys (e : Event) (pairs : List (String × String)) :
    (e.withKeys pairs).level = e.level := rfl

@[simp] theorem code_withKeys (e : Event) (pairs : List (String × String)) :
    (e.withKeys pairs).code = e.code := rfl

@[simp] theorem span_withKeys (e : Event) (pairs : List (String × String)) :
    (e.withKeys pairs).span = e.span := rfl

@[simp] theorem message_withKeys (e : Event) (pairs : List (String × String)) :
    (e.withKeys pairs).message = e.message := rfl

end Event

namespace Journal

variable (j : Journal) (e : Event)

@[simp] theorem level_mark : (j.mark e).level = e.level := rfl

@[simp] theorem code_mark : (j.mark e).code = e.code := rfl

@[simp] theorem span_mark : (j.mark e).span = e.span := rfl

@[simp] theorem message_mark : (j.mark e).message = truncate e.message := rfl

/-- Marking an event with the file in hand leaves the keys it came with. -/
theorem value?_mark {k : String} (hfile : k ≠ "file") (hid : k ≠ "file_id") :
    (j.mark e).value? k = e.value? k := by
  have hkeys : j.fileKeys.reverse.lookup k = none := by
    unfold fileKeys
    split
    · simp [lookup_pair, hfile, hid]
    · rfl
  rw [mark, Event.value?_withKeys, hkeys]
  rfl

/-- The journal with some events marked and written, the first one first. -/
def tell (es : List Event) : Journal :=
  { j with events := (es.map j.mark).reverse ++ j.events }

theorem tell_append (es more : List Event) : j.tell (es ++ more) = (j.tell es).tell more := by
  simp only [tell, List.map_append, List.reverse_append, List.append_assoc]
  rfl

end Journal

theorem run_log (e : Event) (j : Journal) : (log e).run j = ((), j.tell [e]) := rfl

theorem run_logAll (es : List Event) (j : Journal) : (logAll es).run j = ((), j.tell es) := by
  have hfold : ∀ k : Journal, es.foldl (fun k e => k.write (k.mark e)) k = k.tell es := by
    induction es with
    | nil => exact fun _ => rfl
    | cons e es ih => exact fun k => (ih _).trans (k.tell_append [e] es).symm
  exact congrArg (Prod.mk ()) (hfold j)

end YupFront
