import Mathlib.Data.List.DropRight
import YupFront.Proofs.Bounds

/-! Excerpts for any piece of a source, not only for tokens. A piece can begin behind the last
character of a line that is shown, since carriage returns at its end are left out. There the carets
for a piece of several lines cannot be counted; all other pieces are shown. -/

namespace YupFront

/-- The last line of an excerpt has a caret in it. -/
def EndsInCarets (excerpt : String) : Prop :=
  ∃ front last, excerpt.toList = front ++ '\n' :: (last ++ ['\n']) ∧ '\n' ∉ last ∧ '^' ∈ last

/-- A piece begins between the characters that end a line, behind a carriage return, and goes on
into the next line. -/
def SplitsLineEnd (before piece : List Char) : Prop :=
  before.getLast? = some '\r' ∧ ∃ n rest, piece = List.replicate n '\r' ++ '\n' :: rest

/-! What is left of a line without the carriage returns at its end. -/

section Trimming

variable {cs ds : List Char}

theorem trimReturns_append_returns (h : ∀ d ∈ ds, d = '\r') :
    trimReturns (cs ++ ds) = trimReturns cs := by
  induction ds using List.reverseRecOn with
  | nil => rw [List.append_nil]
  | append_singleton ds d ih =>
    have hd : d = '\r' := h d (by simp)
    rw [← List.append_assoc, trimReturns_eq, List.rdropWhile_concat_pos _ _ _ (by simp [hd])]
    exact ih fun d hd => h d (List.mem_append_left _ hd)

theorem length_trimReturns_lt (h : cs.getLast? = some '\r') :
    (trimReturns cs).length < cs.length := by
  obtain ⟨front, rfl⟩ := List.getLast?_eq_some_iff.mp h
  rw [trimReturns_eq, List.rdropWhile_concat_pos _ _ _ (by simp), List.length_append,
    List.length_singleton]
  exact Nat.lt_succ_of_le (List.rdropWhile_prefix _ _).length_le

theorem trimReturns_eq_self (h : cs.getLast? ≠ some '\r') : trimReturns cs = cs := by
  rw [trimReturns_eq, List.rdropWhile_eq_self_iff]
  intro hne hlast
  rw [beq_iff_eq] at hlast
  exact h (hlast ▸ List.getLast?_eq_getLast_of_ne_nil hne)

/-- The first part of a line is left as it is unless it ends in a carriage return, and all that
follows are carriage returns, too. -/
theorem length_le_trimReturns_append_iff : cs.length ≤ (trimReturns (cs ++ ds)).length ↔
    ¬(cs.getLast? = some '\r' ∧ ∀ d ∈ ds, d = '\r') := by
  by_cases hds : ∀ d ∈ ds, d = '\r'
  · rw [trimReturns_append_returns hds]
    by_cases hcs : cs.getLast? = some '\r'
    · have hlt := length_trimReturns_lt hcs
      exact iff_of_false (Nat.not_le_of_lt hlt) fun h => h ⟨hcs, hds⟩
    · rw [trimReturns_eq_self hcs]
      exact iff_of_true (Nat.le_refl _) fun h => hcs h.1
  · refine iff_of_true ?_ fun h => hds h.2
    push Not at hds
    obtain ⟨d, hmem, hd⟩ := hds
    obtain ⟨front, rest, rfl⟩ := List.append_of_mem hmem
    rw [← List.append_assoc, trimReturns_append_cons _ hd, List.append_assoc, List.length_append]
    exact Nat.le_add_right _ _

end Trimming

theorem getLast?_lastLine (cs : List Char) :
    (lastLine cs).getLast? = some '\r' ↔ cs.getLast? = some '\r' := by
  induction cs using List.reverseRecOn with
  | nil => rfl
  | append_singleton cs c ih =>
    rw [lastLine_concat]
    by_cases hc : c = '\n' <;> simp [hc]

theorem exists_eq_firstLine_append {cs : List Char} (h : '\n' ∈ cs) :
    ∃ rest, '\n' ∉ firstLine cs ∧ cs = firstLine cs ++ '\n' :: rest := by
  obtain ⟨front, rest, rfl, hfront⟩ := List.eq_append_cons_of_mem h
  have hfirst : firstLine (front ++ '\n' :: rest) = front := by
    rw [firstLine_append hfront]
    simp [firstLine]
  exact ⟨rest, by rwa [hfirst], by rw [hfirst]⟩

theorem splitsLineEnd_iff {before piece : List Char} : SplitsLineEnd before piece ↔
    '\n' ∈ piece ∧ (lastLine before).getLast? = some '\r' ∧ ∀ c ∈ firstLine piece, c = '\r' := by
  rw [SplitsLineEnd, getLast?_lastLine]
  constructor
  · rintro ⟨hbefore, n, rest, rfl⟩
    have hreturns : '\n' ∉ List.replicate n '\r' := by simp
    refine ⟨by simp, hbefore, ?_⟩
    rw [firstLine_append hreturns]
    simp [firstLine]
  · rintro ⟨hnewline, hbefore, hreturns⟩
    obtain ⟨rest, -, hpiece⟩ := exists_eq_firstLine_append hnewline
    refine ⟨hbefore, (firstLine piece).length, rest, ?_⟩
    rwa [← List.eq_replicate_of_mem hreturns]

/-! An excerpt is made if the carets are counted. -/

section Carets

variable {index : LineIndex} {span : Span} {line : List Char} (message : String)

theorem excerpt_of_width {width : Nat} (hline : index.line? span.start.line = some line)
    (hwidth : LineIndex.caretCount line span = .ok width) :
    ∃ excerpt, index.excerpt span message = .ok excerpt ∧ EndsInCarets excerpt := by
  let number := span.start.line.repr
  let margin := LineIndex.blanks number.length
  let shown := "error: " ++ message ++ "\n  --> " ++ span.start.render ++ "\n" ++
    margin ++ " |\n" ++ number ++ " | " ++ String.ofList line
  let marks := margin ++ " | " ++ LineIndex.blanks (span.start.column - 1) ++
    LineIndex.carets (max width 1)
  have hfind := LineIndex.line?_eq_some_iff.mp hline
  have hexcerpt : index.excerpt span message = .ok (shown ++ "\n" ++ marks ++ "\n") := by
    simp only [LineIndex.excerpt, hfind, hwidth, shown, marks, margin, number, String.append_assoc]
  refine ⟨_, hexcerpt, shown.toList, marks.toList, ?_, ?_, ?_⟩
  · simp [String.toList_append]
  · simp [marks, margin, LineIndex.blanks, LineIndex.carets, List.mem_replicate]
  · have hsome : max width 1 ≠ 0 := by omega
    simp [marks, LineIndex.carets, List.mem_replicate, hsome]

theorem excerpt_of_fault {f : Fault} (hline : index.line? span.start.line = some line)
    (hfault : LineIndex.caretCount line span = .error f) :
    index.excerpt span message = .error f := by
  simp only [LineIndex.excerpt, LineIndex.line?_eq_some_iff.mp hline, hfault]

end Carets

section Counting

variable (before line : List Char) {piece : List Char}

/-- The carets for a piece of one line are counted. -/
theorem exists_caretCount_of_no_newline (h : '\n' ∉ piece) :
    ∃ width, LineIndex.caretCount line
      ⟨Position.start.after before, Position.start.after (before ++ piece)⟩ = .ok width := by
  have hsame := (Position.after_of_no_newline h (Position.start.after before)).1
  rw [← Position.after_append] at hsame
  exact ⟨_, if_pos hsame.symm⟩

theorem caretCount_of_newline (h : '\n' ∈ piece) :
    LineIndex.caretCount line
      ⟨Position.start.after before, Position.start.after (before ++ piece)⟩ =
        subtract (line.length + 1) ((lastLine before).length + 1) := by
  have hcount : 0 < piece.count '\n' := List.count_pos_iff.mpr h
  have hlines : (Position.start.after before).line ≠
      (Position.start.after (before ++ piece)).line := by
    rw [Position.line_after_start, Position.line_after_start, List.count_append]
    omega
  rw [LineIndex.caretCount, if_neg hlines, Position.column_after_start]

end Counting

/-- Every piece of a source that is not too long has a span. It is shown with a caret below it
unless it splits the end of a line; then the computation breaks down. -/
theorem excerpt_unless_line_end_split {source : String} {before piece behind : List Char}
    (hlength : source.length + 1 < lineBound)
    (hsource : source.toList = before ++ (piece ++ behind)) :
    ∃ start span, Position.start.advanceBy before = .ok start ∧
      Span.covering start piece = .ok span ∧
      ∀ message,
        (SplitsLineEnd before piece →
          (LineIndex.ofText source).excerpt span message = .error .differenceNegative) ∧
        (¬SplitsLineEnd before piece → ∃ excerpt,
          (LineIndex.ofText source).excerpt span message = .ok excerpt ∧ EndsInCarets excerpt) := by
  have hfits : source.toList.length + 1 < lineBound := by rwa [String.length_toList]
  have hsteps := stepsFit hfits hsource
  refine ⟨_, _, hsteps.reaches, hsteps.covers, fun message => ?_⟩
  have hline := line?_after_start hsource
  by_cases hnewline : '\n' ∈ piece
  · obtain ⟨rest, hfirst, hpiece⟩ := exists_eq_firstLine_append hnewline
    have hshown : firstLine (piece ++ behind) = firstLine piece := by
      rw [hpiece, List.append_assoc, firstLine_append hfirst, firstLine_append hfirst]
      simp [firstLine]
    rw [hshown] at hline
    have hcount :=
      caretCount_of_newline before (trimReturns (lastLine before ++ firstLine piece)) hnewline
    have hsplits : SplitsLineEnd before piece ↔
        ¬(lastLine before).length ≤ (trimReturns (lastLine before ++ firstLine piece)).length := by
      rw [splitsLineEnd_iff, length_le_trimReturns_append_iff, Classical.not_not]
      exact and_iff_right hnewline
    constructor
    · intro h
      refine excerpt_of_fault message hline (hcount.trans (if_neg ?_))
      have hlong := hsplits.mp h
      omega
    · intro h
      refine excerpt_of_width message hline (hcount.trans (subtract_eq_ok ?_))
      have hshort := Classical.not_not.mp (hsplits.not.mp h)
      omega
  · have hsplits : ¬SplitsLineEnd before piece := fun h => hnewline (splitsLineEnd_iff.mp h).1
    obtain ⟨width, hwidth⟩ := exists_caretCount_of_no_newline before _ hnewline
    exact ⟨fun h => absurd h hsplits, fun _ => excerpt_of_width message hline hwidth⟩

/-- A piece that begins in front of the end of a line is shown, one that begins within it is not. -/
theorem excerpt_unless_line_end_split_crlf :
    "ab\r\ncd".length + 1 < lineBound ∧
      "ab\r\ncd".toList = ['a'] ++ (['b', '\r', '\n', 'c'] ++ ['d']) ∧
      ¬SplitsLineEnd ['a'] ['b', '\r', '\n', 'c'] ∧
      (∃ start span, Position.start.advanceBy ['a'] = .ok start ∧
        Span.covering start ['b', '\r', '\n', 'c'] = .ok span ∧
        ∃ excerpt, (LineIndex.ofText "ab\r\ncd").excerpt span "m" = .ok excerpt ∧
          EndsInCarets excerpt) ∧
      "ab\r\ncd".toList = ['a', 'b', '\r'] ++ (['\n'] ++ ['c', 'd']) ∧
      SplitsLineEnd ['a', 'b', '\r'] ['\n'] ∧
      ∃ start span, Position.start.advanceBy ['a', 'b', '\r'] = .ok start ∧
        Span.covering start ['\n'] = .ok span ∧
        (LineIndex.ofText "ab\r\ncd").excerpt span "m" = .error .differenceNegative := by
  have hlength : "ab\r\ncd".length + 1 < lineBound := by decide +kernel
  have hshown : "ab\r\ncd".toList = ['a'] ++ (['b', '\r', '\n', 'c'] ++ ['d']) := by decide
  have hsplit : "ab\r\ncd".toList = ['a', 'b', '\r'] ++ (['\n'] ++ ['c', 'd']) := by decide
  have hbegins : ¬SplitsLineEnd ['a'] ['b', '\r', '\n', 'c'] := fun h => by
    simpa using h.1
  have hwithin : SplitsLineEnd ['a', 'b', '\r'] ['\n'] := ⟨rfl, 0, [], rfl⟩
  obtain ⟨start, span, hstart, hspan, hall⟩ := excerpt_unless_line_end_split hlength hshown
  obtain ⟨behind, ending, hbehind, hending, hfails⟩ := excerpt_unless_line_end_split hlength hsplit
  exact ⟨hlength, hshown, hbegins, ⟨start, span, hstart, hspan, (hall "m").2 hbegins⟩, hsplit,
    hwithin, behind, ending, hbehind, hending, (hfails "m").1 hwithin⟩

/-- Not every piece can be shown: the one that begins behind the carriage return of the first line
and goes on into the second has a span, but no excerpt. -/
theorem no_excerpt_within_line_end :
    "ab\r\ncd".length + 1 < lineBound ∧
      "ab\r\ncd".toList = "ab\r".toList ++ ("\nc".toList ++ "d".toList) ∧
      ∃ start span, Position.start.advanceBy "ab\r".toList = .ok start ∧
        Span.covering start "\nc".toList = .ok span ∧
        ∀ message, (LineIndex.ofText "ab\r\ncd").excerpt span message =
          .error .differenceNegative := by
  have hline : (LineIndex.ofText "ab\r\ncd").line? 1 = some ['a', 'b'] := by decide +kernel
  refine ⟨by decide +kernel, by decide, ⟨3, 1, 4⟩, ⟨⟨3, 1, 4⟩, ⟨5, 2, 2⟩⟩, ?_, ?_,
    fun message => excerpt_of_fault message hline rfl⟩
  · decide +kernel
  · decide +kernel

end YupFront
