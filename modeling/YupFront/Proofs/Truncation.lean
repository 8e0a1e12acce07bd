import YupFront.Log.Journal
import YupFront.Proofs.Slicing

/-! Messages that are cut to a bounded length. Of all beginnings of a message that fit, the longest is
kept; it lacks at most three bytes, which some character beyond the bound would need. -/

namespace YupFront

variable {message : String}

theorem truncate_of_short (h : message.utf8ByteSize ≤ Limits.messageBytes) :
    truncate message = message := by
  have hclip := clip_eq_truncate message
  rw [clip, if_pos h] at hclip
  exact (Except.ok.inj hclip).symm

theorem truncate_of_long (h : Limits.messageBytes < message.utf8ByteSize) :
    Text.boundaryBefore message Limits.messageBytes = .ok (truncate message).utf8ByteSize ∧
      ∃ rest, message = truncate message ++ rest := by
  have hclip := clip_eq_truncate message
  obtain ⟨stop, hstop, -, hboundary, -⟩ := Text.exists_boundaryBefore message Limits.messageBytes
  obtain ⟨front, rest, hmessage, rfl⟩ := Text.isBoundary_iff.mp hboundary
  have hslice := Text.slice_middle "" front rest
  rw [String.empty_append, ← hmessage] at hslice
  rw [clip, if_neg (Nat.not_le_of_lt h), hstop] at hclip
  simp only [String.utf8ByteSize_empty, Nat.zero_add] at hslice
  have hfront : front = truncate message := Except.ok.inj (hslice.symm.trans hclip)
  exact ⟨hfront ▸ hstop, rest, hfront ▸ hmessage⟩

theorem exists_truncate_append (message : String) : ∃ rest, message = truncate message ++ rest := by
  by_cases h : message.utf8ByteSize ≤ Limits.messageBytes
  · exact ⟨"", by rw [truncate_of_short h, String.append_empty]⟩
  · exact (truncate_of_long (Nat.lt_of_not_le h)).2

/-- Where the cut is, and that a longer beginning would be too long. -/
theorem truncate_cut (h : Limits.messageBytes < message.utf8ByteSize) :
    (truncate message).utf8ByteSize ≤ Limits.messageBytes ∧
      Limits.messageBytes < (truncate message).utf8ByteSize + 4 ∧
      ∀ i, (truncate message).utf8ByteSize < i → i ≤ Limits.messageBytes →
        Text.isBoundary message i = false := by
  obtain ⟨stop, hstop, hle, hboundary, hnone⟩ :=
    Text.exists_boundaryBefore message Limits.messageBytes
  obtain rfl : stop = (truncate message).utf8ByteSize :=
    Except.ok.inj (hstop.symm.trans (truncate_of_long h).1)
  exact ⟨hle, Text.lt_of_no_boundary hboundary (Nat.le_of_lt h) hnone, hnone⟩

theorem utf8ByteSize_truncate_le (message : String) :
    (truncate message).utf8ByteSize ≤ Limits.messageBytes := by
  by_cases h : message.utf8ByteSize ≤ Limits.messageBytes
  · rwa [truncate_of_short h]
  · exact (truncate_cut (Nat.lt_of_not_le h)).1

theorem truncate_eq_self_iff :
    truncate message = message ↔ message.utf8ByteSize ≤ Limits.messageBytes :=
  ⟨fun h => h ▸ utf8ByteSize_truncate_le message, truncate_of_short⟩

/-- Of two beginnings of a text one begins with the other. -/
theorem exists_append_of_append_eq {a b c d : String} (h : a ++ b = c ++ d) :
    (∃ more, c = a ++ more) ∨ ∃ more, more ≠ "" ∧ a = c ++ more := by
  have hlists := congrArg String.toList h
  rw [String.toList_append, String.toList_append, List.append_eq_append_iff] at hlists
  rcases hlists with ⟨more, hc, -⟩ | ⟨more, ha, -⟩
  · refine .inl ⟨String.ofList more, ?_⟩
    rw [← String.toList_inj, hc, String.toList_append, String.toList_ofList]
  · by_cases hmore : more = []
    · refine .inl ⟨"", ?_⟩
      rw [← String.toList_inj, String.append_empty, ha, hmore, List.append_nil]
    · refine .inr ⟨String.ofList more, fun he => hmore (by simpa using he), ?_⟩
      rw [← String.toList_inj, ha, String.toList_append, String.toList_ofList]

theorem truncate_longest {front rest : String} (hmessage : message = front ++ rest)
    (hfits : front.utf8ByteSize ≤ Limits.messageBytes) : ∃ more, truncate message = front ++ more := by
  by_cases h : message.utf8ByteSize ≤ Limits.messageBytes
  · exact ⟨rest, by rw [truncate_of_short h, ← hmessage]⟩
  have hcut := (truncate_cut (Nat.lt_of_not_le h)).2.2
  obtain ⟨behind, hbehind⟩ := exists_truncate_append message
  rcases exists_append_of_append_eq (hmessage.symm.trans hbehind) with hfront | ⟨more, hne, hfront⟩
  · exact hfront
  · -- A longer beginning would end at a boundary that the search has passed over.
    have hsize : more.utf8ByteSize ≠ 0 := fun hzero => hne (String.utf8ByteSize_eq_zero_iff.mp hzero)
    have hboundary : Text.isBoundary message front.utf8ByteSize = true :=
      Text.isBoundary_iff.mpr ⟨front, rest, hmessage, rfl⟩
    have hlonger : (truncate message).utf8ByteSize < front.utf8ByteSize := by
      rw [hfront, String.utf8ByteSize_append]
      omega
    have hfalse := hcut _ hlonger hfits
    rw [hboundary] at hfalse
    cases hfalse

theorem head?_truncate (message : String) :
    (truncate message).toList.head? = message.toList.head? := by
  by_cases h : message.utf8ByteSize ≤ Limits.messageBytes
  · rw [truncate_of_short h]
  obtain ⟨rest, hrest⟩ := exists_truncate_append message
  have hsize := (truncate_cut (Nat.lt_of_not_le h)).2.1
  have hne : (truncate message).toList ≠ [] := by
    intro hnil
    rw [String.toList_eq_nil_iff.mp hnil] at hsize
    exact absurd hsize (by decide)
  obtain ⟨c, cs, hcs⟩ := List.exists_cons_of_ne_nil hne
  have htext := congrArg String.toList hrest
  rw [String.toList_append, hcs] at htext
  rw [htext, hcs]
  rfl

/-- What is kept of a message is the longest beginning of it, in whole characters, that is not too
long. It is the message itself if that fits; if not, at most three bytes of room are left. The search
for the place of the cut goes back from the bound and always ends at one. What is cut once is not cut
again. -/
theorem truncate_longest_prefix (message : String) :
    (∃ rest, message = truncate message ++ rest) ∧
      (truncate message).utf8ByteSize ≤ Limits.messageBytes ∧
      (∀ front rest, message = front ++ rest → front.utf8ByteSize ≤ Limits.messageBytes →
        ∃ more, truncate message = front ++ more) ∧
      (truncate message = message ↔ message.utf8ByteSize ≤ 4096) ∧
      (4096 < message.utf8ByteSize →
        4093 ≤ (truncate message).utf8ByteSize ∧ (truncate message).utf8ByteSize ≤ 4096) ∧
      (∀ place, ∃ stop, Text.boundaryBefore message place = .ok stop ∧ stop ≤ place) ∧
      (4096 < message.utf8ByteSize →
        Text.boundaryBefore message 4096 = .ok (truncate message).utf8ByteSize) ∧
      truncate (truncate message) = truncate message := by
  refine ⟨exists_truncate_append message, utf8ByteSize_truncate_le message,
    fun _ _ => truncate_longest, truncate_eq_self_iff, fun h => ?_, fun place => ?_,
    fun h => (truncate_of_long h).1, truncate_of_short (utf8ByteSize_truncate_le message)⟩
  · obtain ⟨hle, hlt, -⟩ := truncate_cut h
    unfold Limits.messageBytes at hle hlt
    omega
  · obtain ⟨stop, hstop, hle, -⟩ := Text.exists_boundaryBefore message place
    exact ⟨stop, hstop, hle⟩

end YupFront
