import YupFront.Fault

/-! Places in a text, and the pieces between them. A place is told by the number of bytes in front of
it; a text can be cut at a boundary, where a character begins or the text ends, and nowhere else. -/

namespace YupFront.Text

def isBoundary (text : String) (place : Nat) : Bool := String.Pos.Raw.isValid text ⟨place⟩

/-- The last boundary up to a place. -/
def boundaryBefore (text : String) (place : Nat) : Except Fault Nat :=
  if isBoundary text place then .ok place
  else
    match place with
    | 0 => .error .differenceNegative
    | place + 1 => boundaryBefore text place

/-- The piece of a text from one place to another. -/
def slice (text : String) (start stop : Nat) : Except Fault String :=
  if h : start ≤ stop ∧ isBoundary text start = true ∧ isBoundary text stop = true then
    let first := text.pos ⟨start⟩ (String.Pos.Raw.isValid_eq_true_iff.mp h.2.1)
    let last := text.pos ⟨stop⟩ (String.Pos.Raw.isValid_eq_true_iff.mp h.2.2)
    .ok (text.extract first last)
  else .error .pieceMisplaced

theorem isBoundary_iff {text : String} {place : Nat} : isBoundary text place = true ↔
    ∃ front back, text = front ++ back ∧ place = front.utf8ByteSize := by
  rw [isBoundary, String.Pos.Raw.isValid_eq_true_iff, String.Pos.Raw.isValid_iff_exists_append]
  simp only [String.Pos.Raw.ext_iff, String.byteIdx_rawEndPos]

theorem isBoundary_zero (text : String) : isBoundary text 0 = true :=
  isBoundary_iff.mpr ⟨"", text, by simp, rfl⟩

/-- A search ends at the beginning of the text at the latest. -/
theorem exists_boundaryBefore (text : String) (place : Nat) :
    ∃ stop, boundaryBefore text place = .ok stop ∧ stop ≤ place ∧ isBoundary text stop = true ∧
      ∀ i, stop < i → i ≤ place → isBoundary text i = false := by
  induction place with
  | zero =>
    have hzero := isBoundary_zero text
    exact ⟨0, by simp [boundaryBefore, hzero], Nat.le_refl 0, hzero, by omega⟩
  | succ place ih =>
    by_cases h : isBoundary text (place + 1) = true
    · exact ⟨place + 1, by simp [boundaryBefore, h], Nat.le_refl _, h, by omega⟩
    · obtain ⟨stop, hstop, hle, hcut, hnone⟩ := ih
      refine ⟨stop, by simp [boundaryBefore, h, hstop], by omega, hcut, fun i hlt hi => ?_⟩
      by_cases hlast : i = place + 1
      · simpa [hlast] using h
      · exact hnone i hlt (by omega)

theorem slice_eq_ok {text : String} {start stop : Nat} (hle : start ≤ stop)
    (hstart : isBoundary text start = true) (hstop : isBoundary text stop = true) :
    ∃ piece, slice text start stop = .ok piece ∧
      piece.toByteArray = text.toByteArray.extract start stop :=
  ⟨_, dif_pos ⟨hle, hstart, hstop⟩, rfl⟩

end YupFront.Text
