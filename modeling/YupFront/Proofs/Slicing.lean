import YupFront.Text.Slice

/-! Pieces of a text by their places. A piece that is cut out at its own places is there, and from any
place in a text a boundary is not far back. -/

namespace YupFront

theorem toUTF8_extract_middle (a b c : String) :
    (a ++ b ++ c).toUTF8.extract a.utf8ByteSize (a.utf8ByteSize + b.utf8ByteSize) = b.toUTF8 := by
  have hshift := ByteArray.extract_append_size_add (a := a.toUTF8) (b := b.toUTF8 ++ c.toUTF8)
    (i := 0) (j := b.utf8ByteSize)
  have hfirst : (b.toUTF8 ++ c.toUTF8).extract 0 b.utf8ByteSize = b.toUTF8 :=
    ByteArray.extract_append_eq_left rfl
  rw [Nat.add_zero, hfirst] at hshift
  rw [String.append_assoc]
  simpa using hshift

namespace Text

variable {text : String} {place stop : Nat}

theorem isBoundary_append (front back : String) :
    isBoundary (front ++ back) front.utf8ByteSize = true :=
  isBoundary_iff.mpr ⟨front, back, rfl, rfl⟩

theorem slice_middle (a b c : String) :
    slice (a ++ b ++ c) a.utf8ByteSize (a.utf8ByteSize + b.utf8ByteSize) = .ok b := by
  have hstart : isBoundary (a ++ b ++ c) a.utf8ByteSize = true := by
    rw [String.append_assoc]
    exact isBoundary_append a (b ++ c)
  have hstop : isBoundary (a ++ b ++ c) (a.utf8ByteSize + b.utf8ByteSize) = true := by
    rw [← String.utf8ByteSize_append]
    exact isBoundary_append (a ++ b) c
  obtain ⟨piece, hpiece, hbytes⟩ := slice_eq_ok (Nat.le_add_right _ _) hstart hstop
  have heq : piece = b := String.toByteArray_inj.mp (hbytes.trans (toUTF8_extract_middle a b c))
  rw [hpiece, heq]

theorem utf8ByteSize_cons (c : Char) (cs : List Char) :
    (String.ofList (c :: cs)).utf8ByteSize = c.utf8Size + (String.ofList cs).utf8ByteSize := by
  have hone : (String.ofList [c]).utf8ByteSize = c.utf8Size := String.utf8ByteSize_singleton
  rw [← List.singleton_append, String.ofList_append, String.utf8ByteSize_append, hone]

/-- No character has more than four bytes. -/
theorem lt_of_no_boundary (hstop : isBoundary text stop = true) (hplace : place ≤ text.utf8ByteSize)
    (hnone : ∀ i, stop < i → i ≤ place → isBoundary text i = false) : place < stop + 4 := by
  obtain ⟨front, back, rfl, rfl⟩ := isBoundary_iff.mp hstop
  by_cases hback : place ≤ front.utf8ByteSize
  · omega
  cases hcs : back.toList with
  | nil =>
    have hempty : back = "" := String.toList_eq_nil_iff.mp hcs
    rw [hempty, String.append_empty] at hplace
    omega
  | cons c cs =>
    obtain rfl : String.ofList (c :: cs) = back := by rw [← hcs, String.ofList_toList]
    have hnext : isBoundary (front ++ String.ofList (c :: cs))
        (front.utf8ByteSize + c.utf8Size) = true := by
      have hone : (String.ofList [c]).utf8ByteSize = c.utf8Size := String.utf8ByteSize_singleton
      rw [← List.singleton_append, String.ofList_append, ← String.append_assoc, ← hone,
        ← String.utf8ByteSize_append]
      exact isBoundary_append _ _
    have hpos := c.utf8Size_pos
    have hfour := c.utf8Size_le_four
    by_cases hle : front.utf8ByteSize + c.utf8Size ≤ place
    · have hfalse := hnone _ (by omega) hle
      rw [hnext] at hfalse
      cases hfalse
    · omega

end Text

end YupFront
