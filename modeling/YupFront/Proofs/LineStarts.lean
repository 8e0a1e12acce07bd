import Mathlib.Data.List.DropRight
import YupFront.Proofs.Slicing
import YupFront.Source.Lines

/-! Lines of a text by their places. The places where lines begin are counted in bytes, yet the line
between two of them is the piece of the text between two newlines. -/

namespace YupFront

/-- A text without a newline, or its first line and what is behind the newline. -/
theorem line_cases (cs : List Char) : '\n' ∉ cs ∨
    ∃ line rest, cs = line ++ '\n' :: rest ∧ '\n' ∉ line := by
  by_cases h : '\n' ∈ cs
  · obtain ⟨line, rest, rfl, hline⟩ := List.eq_append_cons_of_mem h
    exact .inr ⟨line, rest, rfl, hline⟩
  · exact .inl h

namespace LineIndex

variable {found : Array Nat} {place : Nat} {cs line rest : List Char}

theorem startsOnto_of_no_newline (h : '\n' ∉ cs) : startsOnto found place cs = found := by
  induction cs generalizing place with
  | nil => rfl
  | cons c cs ih =>
    have hc := List.ne_of_not_mem_cons h
    rw [startsOnto, if_neg hc.symm, ih (List.not_mem_of_not_mem_cons h)]

theorem startsOnto_line (h : '\n' ∉ line) :
    startsOnto found place (line ++ '\n' :: rest) =
      let next := place + (String.ofList line).utf8ByteSize + 1
      startsOnto (found.push next) next rest := by
  induction line generalizing place with
  | nil => rfl
  | cons c line ih =>
    have hc := List.ne_of_not_mem_cons h
    have hsize := Text.utf8ByteSize_cons c line
    have hnext : place + c.utf8Size + (String.ofList line).utf8ByteSize + 1 =
        place + (String.ofList (c :: line)).utf8ByteSize + 1 := by omega
    rw [List.cons_append, startsOnto, if_neg hc.symm, ih (List.not_mem_of_not_mem_cons h), hnext]

/-- Places that were found stay where they are. -/
theorem getElem?_startsOnto {i : Nat} (h : i < found.size) :
    (startsOnto found place cs)[i]? = found[i]? := by
  induction cs generalizing found place with
  | nil => rfl
  | cons c cs ih =>
    rw [startsOnto]
    by_cases hc : c = '\n'
    · rw [if_pos hc, ih (by simp; omega), Array.getElem?_push, if_neg (by omega)]
    · rw [if_neg hc, ih h]

theorem finish_of_next {index : LineIndex} {i stop : Nat} (h : index.starts[i + 1]? = some (stop + 1)) :
    index.finish i = .ok stop := by
  rw [finish, h]
  exact subtract_eq_ok (Nat.le_add_left 1 stop)

theorem lineAt_of_slice {index : LineIndex} {i start stop : Nat} {line : String}
    (hstart : index.starts[i]? = some start) (hstop : index.finish i = .ok stop)
    (hline : Text.slice index.source start stop = .ok line) :
    index.lineAt i = .ok (some (trimReturns line.toList)) := by
  rw [lineAt, hstart]
  dsimp only
  rw [hstop]
  change (Text.slice index.source start stop >>= fun line => _) = _
  rw [hline]
  rfl

section Onto

variable (front : String) (found : Array Nat) (cs : List Char)

/-- The text has `cs` behind `front`, and the places of the lines that begin in `front` have been
found. -/
theorem lineAt_next :
    lineAt ⟨front ++ String.ofList cs,
        startsOnto (found.push front.utf8ByteSize) front.utf8ByteSize cs⟩ found.size =
      .ok ((cs.splitOn '\n')[0]?.map trimReturns) := by
  have hfound : found.size < (found.push front.utf8ByteSize).size := by simp
  have hstart : (startsOnto (found.push front.utf8ByteSize) front.utf8ByteSize cs)[found.size]? =
      some front.utf8ByteSize := by
    rw [getElem?_startsOnto hfound, Array.getElem?_push_size]
  rcases line_cases cs with h | ⟨line, rest, rfl, h⟩
  · have hline := Text.slice_middle front (String.ofList cs) ""
    rw [String.append_empty, ← String.utf8ByteSize_append] at hline
    rw [lineAt_of_slice hstart ?_ hline, List.splitOn_eq_singleton h, String.toList_ofList]
    · rfl
    · rw [finish, startsOnto_of_no_newline h, Array.getElem?_eq_none (by simp)]
  · have hline := Text.slice_middle front (String.ofList line) (String.ofList ('\n' :: rest))
    rw [String.append_assoc, ← String.ofList_append] at hline
    rw [lineAt_of_slice hstart ?_ hline, List.splitOn_append_cons_self,
      List.splitOn_eq_singleton h, String.toList_ofList]
    · rfl
    · have hlast : found.size + 1 = (found.push front.utf8ByteSize).size := by simp
      refine finish_of_next ?_
      rw [startsOnto_line h, getElem?_startsOnto (by simp), hlast, Array.getElem?_push_size]

/-- The lines from any line on. -/
theorem lineAt_onto (i : Nat) :
    lineAt ⟨front ++ String.ofList cs,
        startsOnto (found.push front.utf8ByteSize) front.utf8ByteSize cs⟩ (found.size + i) =
      .ok ((cs.splitOn '\n')[i]?.map trimReturns) := by
  -- The induction is on the number of lines to be passed; each moves a line to the front.
  induction i generalizing front found cs with
  | zero => exact lineAt_next front found cs
  | succ i ih =>
    rcases line_cases cs with h | ⟨line, rest, rfl, h⟩
    · rw [lineAt, startsOnto_of_no_newline h, Array.getElem?_eq_none (by simp),
        List.splitOn_eq_singleton h]
      rfl
    · have htext : front ++ String.ofList (line ++ '\n' :: rest) =
          front ++ String.ofList line ++ "\n" ++ String.ofList rest := by
        rw [String.ofList_append, ← String.append_assoc, ← List.singleton_append, String.ofList_append,
          ← String.append_assoc]
      have hsize : (front ++ String.ofList line ++ "\n").utf8ByteSize =
          front.utf8ByteSize + (String.ofList line).utf8ByteSize + 1 := by
        have hone : "\n".utf8ByteSize = 1 := by decide
        rw [String.utf8ByteSize_append, String.utf8ByteSize_append, hone]
      have hrest := ih (front ++ String.ofList line ++ "\n") (found.push front.utf8ByteSize) rest
      have hindex : (found.push front.utf8ByteSize).size + i = found.size + (i + 1) := by
        rw [Array.size_push]
        omega
      rw [hindex, hsize] at hrest
      rw [htext, startsOnto_line h, List.splitOn_append_cons_self, List.splitOn_eq_singleton h]
      exact hrest

end Onto

theorem find_ofText (source : String) (number : Nat) : (ofText source).find number =
    .ok (if number = 0 then none else (source.toList.splitOn '\n')[number - 1]?.map trimReturns) := by
  have h := lineAt_onto "" #[] source.toList (number - 1)
  by_cases hn : number = 0
  · rw [find, if_pos hn, if_pos hn]
  · rw [find, if_neg hn, if_neg hn]
    simpa [ofText] using h

/-- Where there is a line, it is found by cutting the source at places of its own. -/
theorem exists_slice {index : LineIndex} {i start : Nat} {found : Option (List Char)}
    (hstart : index.starts[i]? = some start) (h : index.lineAt i = .ok found) :
    ∃ stop line, index.finish i = .ok stop ∧ Text.slice index.source start stop = .ok line := by
  rw [lineAt, hstart] at h
  dsimp only at h
  cases hstop : index.finish i with
  | error f =>
    rw [hstop] at h
    cases h
  | ok stop =>
    rw [hstop] at h
    cases hline : Text.slice index.source start stop with
    | error f =>
      change (Text.slice index.source start stop >>= fun line => _) = _ at h
      rw [hline] at h
      cases h
    | ok line => exact ⟨stop, line, rfl, hline⟩

end LineIndex

end YupFront
