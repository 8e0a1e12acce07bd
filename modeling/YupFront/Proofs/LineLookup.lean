import Mathlib.Data.List.Induction
import YupFront.Proofs.LineStarts

/-! Lines of a text, counted twice: by the position that is moved over the text, and by cutting the
text at its newlines. The two agree, and a line is found under its number. -/

namespace YupFront

/-- The position behind a text, whether or not its numbers fit. -/
def Position.after (p : Position) (cs : List Char) : Position := cs.foldl Position.next p

/-- What a text has in its last line. -/
def lastLine (cs : List Char) : List Char :=
  cs.foldl (fun line c => if c = '\n' then [] else line ++ [c]) []

theorem lastLine_concat (cs : List Char) (c : Char) :
    lastLine (cs ++ [c]) = if c = '\n' then [] else lastLine cs ++ [c] :=
  List.foldl_append

/-- A text up to its first newline. -/
def firstLine (cs : List Char) : List Char := cs.takeWhile (· ≠ '\n')

namespace Position

variable {p q : Position} {cs ds : List Char}

theorem after_append (p : Position) (cs ds : List Char) :
    p.after (cs ++ ds) = (p.after cs).after ds :=
  List.foldl_append

theorem after_concat (p : Position) (cs : List Char) (c : Char) :
    p.after (cs ++ [c]) = (p.after cs).next c := by
  rw [after_append]
  rfl

theorem eq_after_of_advanceBy (h : p.advanceBy cs = .ok q) : q = p.after cs := by
  induction cs generalizing p with
  | nil =>
    cases h
    rfl
  | cons c cs ih =>
    rw [advanceBy, advance] at h
    by_cases hfits : (p.next c).Fits
    · rw [if_pos hfits] at h
      exact ih h
    · rw [if_neg hfits] at h
      cases h

theorem line_after_start (cs : List Char) : (start.after cs).line = cs.count '\n' + 1 := by
  induction cs using List.reverseRecOn with
  | nil => rfl
  | append_singleton cs c ih =>
    rw [after_concat, List.count_append]
    by_cases hc : c = '\n' <;> simp [next, hc, ih]

theorem column_after_start (cs : List Char) :
    (start.after cs).column = (lastLine cs).length + 1 := by
  induction cs using List.reverseRecOn with
  | nil => rfl
  | append_singleton cs c ih =>
    rw [after_concat, lastLine_concat]
    by_cases hc : c = '\n' <;> simp [next, hc, ih]

/-- A text within a line moves a position along the line. -/
theorem after_of_no_newline (h : '\n' ∉ cs) (p : Position) :
    (p.after cs).line = p.line ∧ (p.after cs).column = p.column + cs.length := by
  induction cs using List.reverseRecOn with
  | nil => exact ⟨rfl, rfl⟩
  | append_singleton cs c ih =>
    have hc : c ≠ '\n' := fun hc => h (by simp [hc])
    obtain ⟨hline, hcolumn⟩ := ih fun hm => h (List.mem_append_left _ hm)
    rw [after_concat, next, if_neg hc]
    refine ⟨hline, ?_⟩
    rw [hcolumn, List.length_append, List.length_singleton, Nat.add_assoc]

end Position

theorem length_splitOnto (done : List (List Char)) (current cs : List Char) :
    (splitOnto done current cs).length = done.length + cs.count '\n' + 1 := by
  induction cs generalizing done current with
  | nil => simp [splitOnto]
  | cons c cs ih =>
    rw [splitOnto]
    by_cases hc : c = '\n'
    · rw [if_pos hc, ih, hc, List.count_cons_self, List.length_cons]
      omega
    · rw [if_neg hc, ih, List.count_cons_of_ne hc]

theorem splitOnto_eq (done : List (List Char)) (current cs : List Char) :
    splitOnto done current cs = done.reverse ++ splitOnto [] current cs := by
  induction cs generalizing done current with
  | nil => simp [splitOnto]
  | cons c cs ih =>
    rw [splitOnto, splitOnto]
    by_cases hc : c = '\n'
    · rw [if_pos hc, if_pos hc, ih (current.reverse :: done), ih [current.reverse]]
      simp
    · rw [if_neg hc, if_neg hc, ih]

theorem head?_splitOnto (current cs : List Char) :
    (splitOnto [] current cs).head? = some (current.reverse ++ firstLine cs) := by
  induction cs generalizing current with
  | nil => simp [splitOnto, firstLine]
  | cons c cs ih =>
    rw [splitOnto, firstLine]
    by_cases hc : c = '\n'
    · rw [if_pos hc, splitOnto_eq]
      simp [hc]
    · rw [if_neg hc, ih]
      simp [hc, firstLine]

theorem splitOnto_eq_splitOn (current cs : List Char) :
    splitOnto [] current cs = (cs.splitOn '\n').modifyHead (current.reverse ++ ·) := by
  induction cs generalizing current with
  | nil => simp [splitOnto]
  | cons c cs ih =>
    rw [splitOnto, List.splitOn_cons_eq_if_modifyHead]
    by_cases hc : c = '\n'
    · have hnil : splitOnto [] [] cs = cs.splitOn '\n' :=
        (ih []).trans (congrFun List.modifyHead_id _)
      rw [if_pos hc, if_pos (beq_iff_eq.mpr hc), splitOnto_eq, hnil, List.modifyHead_cons,
        List.append_nil]
      rfl
    · have hreverse : (current.reverse ++ ·) ∘ List.cons c = ((c :: current).reverse ++ ·) := by
        funext line
        simp
      rw [if_neg hc, if_neg fun h => hc (beq_iff_eq.mp h), ih, List.modifyHead_modifyHead, hreverse]

theorem splitLines_eq_splitOn (cs : List Char) : splitLines cs = cs.splitOn '\n' :=
  (splitOnto_eq_splitOn [] cs).trans (congrFun List.modifyHead_id _)

theorem splitLines_append_newline (cs ds : List Char) :
    splitLines (cs ++ '\n' :: ds) = splitLines cs ++ splitLines ds := by
  rw [splitLines_eq_splitOn, splitLines_eq_splitOn, splitLines_eq_splitOn]
  exact List.splitOn_append_cons_self cs ds

/-- The line in which the first of two texts ends, and the second begins. -/
theorem getElem?_splitLines (cs ds : List Char) :
    (splitLines (cs ++ ds))[cs.count '\n']? = some (lastLine cs ++ firstLine ds) := by
  induction cs using List.reverseRecOn generalizing ds with
  | nil =>
    rw [List.count_nil, ← List.head?_eq_getElem?]
    exact head?_splitOnto [] ds
  | append_singleton cs c ih =>
    rw [List.append_assoc, List.singleton_append]
    -- Behind a newline the second text begins a line of its own.
    by_cases hc : c = '\n'
    · have hlength : (splitLines cs).length = cs.count '\n' + 1 := by
        rw [splitLines, length_splitOnto, List.length_nil, Nat.zero_add]
      have hcount : (cs ++ [c]).count '\n' = (splitLines cs).length := by
        rw [hlength, List.count_append, hc, List.count_singleton_self]
      have hlast : lastLine (cs ++ [c]) = [] := by rw [lastLine_concat, if_pos hc]
      rw [hcount, hlast, hc, splitLines_append_newline]
      rw [List.getElem?_append_right (Nat.le_refl _), Nat.sub_self, ← List.head?_eq_getElem?]
      exact head?_splitOnto [] ds
    · have hcount : (cs ++ [c]).count '\n' = cs.count '\n' := by
        rw [List.count_append, List.count_singleton, if_neg (by simpa using hc), Nat.add_zero]
      have hlast : lastLine (cs ++ [c]) = lastLine cs ++ [c] := by rw [lastLine_concat, if_neg hc]
      have hfirst : firstLine (c :: ds) = c :: firstLine ds := by simp [firstLine, hc]
      rw [hcount, ih, hlast, hfirst, List.append_assoc, List.singleton_append]

theorem firstLine_append {cs : List Char} (h : '\n' ∉ cs) (ds : List Char) :
    firstLine (cs ++ ds) = cs ++ firstLine ds := by
  refine List.takeWhile_append_of_pos fun c hc => ?_
  have hne : c ≠ '\n' := fun heq => h (heq ▸ hc)
  simpa using hne

theorem trimReturns_append_cons (cs : List Char) {c : Char} (h : c ≠ '\r') (ds : List Char) :
    trimReturns (cs ++ c :: ds) = cs ++ c :: trimReturns ds := by
  unfold trimReturns
  have hreverse : (cs ++ c :: ds).reverse = ds.reverse ++ c :: cs.reverse := by simp
  rw [hreverse, List.dropWhile_append]
  by_cases hds : ds.reverse.dropWhile (· == '\r') = []
  · simp [hds, h]
  · simp [hds]

/-- Trimming a line does not go into a part of it without carriage returns. -/
theorem trimReturns_append {cs : List Char} (hne : cs ≠ []) (h : '\r' ∉ cs) (bs ds : List Char) :
    trimReturns (bs ++ (cs ++ ds)) = bs ++ (cs ++ trimReturns ds) := by
  have hlast : cs.getLast hne ≠ '\r' := fun heq => h (heq ▸ List.getLast_mem hne)
  have htrim := trimReturns_append_cons (bs ++ cs.dropLast) hlast ds
  have hcs := List.dropLast_concat_getLast hne
  generalize cs.getLast hne = c, cs.dropLast = init at htrim hcs
  subst hcs
  simpa using htrim

/-- The line in which the first of two texts ends is found under the number of the position there. -/
theorem line?_after_start {source : String} {before behind : List Char}
    (h : source.toList = before ++ behind) :
    (LineIndex.ofText source).line? (Position.start.after before).line =
      some (trimReturns (lastLine before ++ firstLine behind)) := by
  have hlines := getElem?_splitLines before behind
  rw [← h, splitLines_eq_splitOn] at hlines
  rw [LineIndex.line?_eq_some_iff, LineIndex.find_ofText, Position.line_after_start,
    if_neg (Nat.succ_ne_zero _), Nat.add_sub_cancel, hlines, Option.map_some]

theorem trimReturns_eq (cs : List Char) : trimReturns cs = cs.rdropWhile (· == '\r') := rfl

theorem exists_eq_trimReturns_append (piece : List Char) :
    (trimReturns piece).getLast? ≠ some '\r' ∧
      ∃ n, piece = trimReturns piece ++ List.replicate n '\r' := by
  constructor
  · intro hlast
    have hne : trimReturns piece ≠ [] := by
      intro hnil
      rw [hnil] at hlast
      cases hlast
    have hnot := List.rdropWhile_last_not (· == '\r') piece hne
    rw [List.getLast?_eq_getLast_of_ne_nil hne, Option.some.injEq] at hlast
    exact hnot (beq_iff_eq.mpr hlast)
  · have hreturns : ∀ c ∈ piece.rtakeWhile (· == '\r'), c = '\r' := by
      intro c hc
      simpa using List.mem_rtakeWhile_imp hc
    refine ⟨(piece.rtakeWhile (· == '\r')).length, ?_⟩
    rw [← List.eq_replicate_of_mem hreturns, trimReturns_eq, List.rdropWhile_append_rtakeWhile]

/-- The line with a number is looked up by the places where lines begin and end. It is the piece of
the source with that number, between newlines, less the carriage returns at its end; there is none
for the number 0 and for numbers beyond the last piece. Whatever the source, the places lie in it and
between its characters. -/
theorem line_lookup_splits (source : String) (number : Nat) :
    ∃ found, (LineIndex.ofText source).find number = .ok found ∧
      (LineIndex.ofText source).line? number = found ∧
      (found = none ↔ number = 0 ∨ source.toList.count '\n' + 1 < number) ∧
      (∀ line ∈ found, ∃ piece n, (source.toList.splitOn '\n')[number - 1]? = some piece ∧
        piece = line ++ List.replicate n '\r' ∧ line.getLast? ≠ some '\r') ∧
      ∀ i start, (LineIndex.ofText source).starts[i]? = some start →
        ∃ stop piece, (LineIndex.ofText source).finish i = .ok stop ∧
          Text.slice source start stop = .ok piece := by
  have hfind := LineIndex.find_ofText source number
  have hlength : (source.toList.splitOn '\n').length = source.toList.count '\n' + 1 := by
    rw [← splitLines_eq_splitOn, splitLines, length_splitOnto, List.length_nil, Nat.zero_add]
  refine ⟨_, hfind, by rw [LineIndex.line?, hfind]; rfl, ?_, ?_, fun i start hstart => ?_⟩
  · by_cases hn : number = 0
    · simp [hn]
    · rw [if_neg hn, Option.map_eq_none_iff, List.getElem?_eq_none_iff, hlength]
      omega
  · intro line hline
    by_cases hn : number = 0
    · simp [hn] at hline
    · rw [if_neg hn] at hline
      obtain ⟨piece, hpiece, rfl⟩ := Option.map_eq_some_iff.mp hline
      obtain ⟨hlast, n, hreturns⟩ := exists_eq_trimReturns_append piece
      exact ⟨piece, n, hpiece, hreturns, hlast⟩
  · have hnext := LineIndex.find_ofText source (i + 1)
    rw [LineIndex.find, if_neg (Nat.succ_ne_zero i), Nat.add_sub_cancel] at hnext
    exact LineIndex.exists_slice hstart hnext

end YupFront
