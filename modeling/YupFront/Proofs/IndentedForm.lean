import YupFront.Proofs.JsonText

/-! Reading a value back from its indented form. It has the words of the compact form, with blank space
between some of them, and a reader steps over that. -/

namespace YupFront.Json

open Lexeme

theorem words_blank {blank : List Char} (h : ∀ c ∈ blank, isSpace c = true) (done : List Lexeme)
    (rest : List Char) : words done (blank ++ rest) = words done rest := by
  induction blank with
  | nil => rfl
  | cons c blank ih =>
    rw [List.cons_append, words, if_pos (h c List.mem_cons_self)]
    exact ih fun x hx => h x (List.mem_cons_of_mem c hx)

theorem isNumberChar_of_isSpace {c : Char} (h : isSpace c = true) : isNumberChar c = false := by
  cases hc : isNumberChar c with
  | false => rfl
  | true =>
    rw [isSpace_of_isNumberChar hc] at h
    cases h

/-- The next letter does not go on with a number. -/
def Breaks (rest : List Char) : Prop := ∀ x ∈ rest.head?, isNumberChar x = false

theorem Breaks.of_blank {blank : List Char} (hne : blank ≠ [])
    (h : ∀ c ∈ blank, isSpace c = true) (rest : List Char) : Breaks (blank ++ rest) := by
  intro x hx
  cases blank with
  | nil => exact absurd rfl hne
  | cons c blank =>
    obtain rfl := Option.some.inj hx
    exact isNumberChar_of_isSpace (h c List.mem_cons_self)

/-- The words of a text behind which a number does not go on. -/
def Written (out : String) (ws : List Lexeme) : Prop :=
  ∀ done rest, Breaks rest → words done (out.toList ++ rest) = words (ws.reverse ++ done) rest

/-- The words of a text, whatever comes behind it. -/
def Parted (out : String) (ws : List Lexeme) : Prop :=
  ∀ done rest, words done (out.toList ++ rest) = words (ws.reverse ++ done) rest

section Words

variable {out : String} {ws : List Lexeme}

theorem parted_nil : Parted "" [] := fun _ _ => rfl

theorem Parted.written (h : Parted out ws) : Written out ws := fun done rest _ => h done rest

/-- A word of any kind can be written where no number goes on. -/
theorem Parted.word (h : Parted out ws) {w : Lexeme} (hw : w.Spelled) :
    Written (out ++ w.write) (ws ++ [w]) := by
  intro done rest hrest
  obtain ⟨c, cs, hwrite, hspace, -, hword⟩ := word?_write hw
  rw [String.toList_append, hwrite, List.append_assoc, h, List.cons_append,
    words_cons_word hspace (hword rest fun _ => hrest), List.reverse_append]
  rfl

/-- A word that is no number can be written behind any other, and any other behind it. -/
theorem Written.mark (h : Written out ws) {w : Lexeme} (hw : w.isNumber = false) :
    Parted (out ++ w.write) (ws ++ [w]) := by
  intro done rest
  have hspelled : w.Spelled := by
    cases w with
    | number spelling => cases hw
    | _ => trivial
  obtain ⟨c, cs, hwrite, hspace, hc, hword⟩ := word?_write hspelled
  have hbreaks : Breaks (c :: cs ++ rest) := by
    intro x hx
    obtain rfl := Option.some.inj hx
    rw [hc, hw]
  have hnumber : w.isNumber = true → Breaks rest := by
    intro htrue
    rw [hw] at htrue
    cases htrue
  rw [String.toList_append, hwrite, List.append_assoc, h done _ hbreaks, List.cons_append,
    words_cons_word hspace (hword rest hnumber), List.reverse_append]
  rfl

theorem Written.blank (h : Written out ws) {blank : String} (hne : blank.toList ≠ [])
    (hblank : ∀ c ∈ blank.toList, isSpace c = true) : Parted (out ++ blank) ws := by
  intro done rest
  rw [String.toList_append, List.append_assoc, h done _ (.of_blank hne hblank rest),
    words_blank hblank]

theorem Written.newLine (h : Written out ws) (level : Nat) : Parted (out ++ newLine level) ws := by
  have hchars : (Json.newLine level).toList = '\n' :: List.replicate (2 * level) ' ' := by
    simp [Json.newLine]
  refine h.blank (by simp [hchars]) fun c hc => ?_
  rw [hchars] at hc
  rcases List.mem_cons.mp hc with rfl | hc
  · rfl
  · obtain ⟨-, rfl⟩ := List.mem_replicate.mp hc
    rfl

end Words

/-! The words of a value stand in front of what follows. -/

mutual

theorem before_eq_append : ∀ (v : Json) (rest : List Lexeme), v.before rest = v.before [] ++ rest
  | .null, _ => rfl
  | .bool _, _ => rfl
  | .number _, _ => rfl
  | .string _, _ => rfl
  | .array [], _ => rfl
  | .array (x :: xs), rest => by
    rw [before, before, before_eq_append x, itemsBefore_eq_append xs,
      before_eq_append x (itemsBefore xs _), itemsBefore_eq_append xs [.closeArray]]
    simp
  | .object [], _ => rfl
  | .object (f :: fs), rest => by
    rw [before, before, fieldBefore_eq_append f, fieldsBefore_eq_append fs,
      fieldBefore_eq_append f (fieldsBefore fs _), fieldsBefore_eq_append fs [.closeObject]]
    simp

theorem itemsBefore_eq_append : ∀ (xs : List Json) (rest : List Lexeme),
    itemsBefore xs rest = itemsBefore xs [] ++ rest
  | [], _ => rfl
  | x :: xs, rest => by
    rw [itemsBefore, itemsBefore, before_eq_append x, itemsBefore_eq_append xs,
      before_eq_append x (itemsBefore xs [])]
    simp

theorem fieldsBefore_eq_append : ∀ (fs : List (Option String × Json)) (rest : List Lexeme),
    fieldsBefore fs rest = fieldsBefore fs [] ++ rest
  | [], _ => rfl
  | f :: fs, rest => by
    rw [fieldsBefore, fieldsBefore, fieldBefore_eq_append f, fieldsBefore_eq_append fs,
      fieldBefore_eq_append f (fieldsBefore fs [])]
    simp

theorem fieldBefore_eq_append : ∀ (f : Option String × Json) (rest : List Lexeme),
    fieldBefore f rest = fieldBefore f [] ++ rest
  | (key, v), rest => by
    rw [fieldBefore, fieldBefore, before_eq_append v]
    rfl

end

/-! What is written of a value are its words. -/

mutual

theorem written_indentedOnto : ∀ (v : Json) (level : Nat) {out : String} {ws : List Lexeme},
    v.Spelled → Parted out ws → Written (v.indentedOnto level out) (ws ++ v.before [])
  | .null, _, _, _, _, h => h.word trivial
  | .bool _, _, _, _, _, h => h.word trivial
  | .number _, _, _, _, .number hspelled, h => h.word hspelled
  | .string _, _, _, _, _, h => h.word trivial
  | .array [], _, _, ws, _, h => by
    have hopen : Parted _ (ws ++ [.openArray]) := h.written.mark rfl
    have hclose := (hopen.written.mark (w := .closeArray) rfl).written
    rwa [List.append_assoc] at hclose
  | .array (x :: xs), level, _, ws, .array hitems, h => by
    have hopen : Parted _ (ws ++ [.openArray]) := h.written.mark rfl
    have hfirst := written_indentedOnto x (level + 1) (hitems x List.mem_cons_self)
      (hopen.written.newLine (level + 1))
    have hrest := written_itemsOnto xs (level + 1)
      (fun v hv => hitems v (List.mem_cons_of_mem x hv)) hfirst
    have hclose := ((hrest.newLine level).written.mark (w := .closeArray) rfl).written
    have hwords : (Json.array (x :: xs)).before [] =
        .openArray :: (x.before [] ++ (itemsBefore xs [] ++ [.closeArray])) := by
      rw [before, before_eq_append x, itemsBefore_eq_append xs]
    rw [hwords]
    simp only [List.append_assoc] at hclose
    exact hclose
  | .object [], _, _, ws, _, h => by
    have hopen : Parted _ (ws ++ [.openObject]) := h.written.mark rfl
    have hclose := (hopen.written.mark (w := .closeObject) rfl).written
    rwa [List.append_assoc] at hclose
  | .object (f :: fs), level, _, ws, .object hfields, h => by
    have hopen : Parted _ (ws ++ [.openObject]) := h.written.mark rfl
    have hfirst := written_fieldOnto f (level + 1) (hfields f List.mem_cons_self)
      (hopen.written.newLine (level + 1))
    have hrest := written_fieldsOnto fs (level + 1)
      (fun g hg => hfields g (List.mem_cons_of_mem f hg)) hfirst
    have hclose := ((hrest.newLine level).written.mark (w := .closeObject) rfl).written
    have hwords : (Json.object (f :: fs)).before [] =
        .openObject :: (fieldBefore f [] ++ (fieldsBefore fs [] ++ [.closeObject])) := by
      rw [before, fieldBefore_eq_append f, fieldsBefore_eq_append fs]
    rw [hwords]
    simp only [List.append_assoc] at hclose
    exact hclose

theorem written_itemsOnto : ∀ (xs : List Json) (level : Nat) {out : String} {ws : List Lexeme},
    (∀ v ∈ xs, v.Spelled) → Written out ws →
    Written (itemsOnto level out xs) (ws ++ itemsBefore xs [])
  | [], _, _, ws, _, h => by
    rw [itemsBefore, List.append_nil]
    exact h
  | x :: xs, level, _, ws, hitems, h => by
    have hcomma : Parted _ (ws ++ [.comma]) := h.mark rfl
    have hfirst := written_indentedOnto x level (hitems x List.mem_cons_self)
      (hcomma.written.newLine level)
    have hrest := written_itemsOnto xs level
      (fun v hv => hitems v (List.mem_cons_of_mem x hv)) hfirst
    have hwords : itemsBefore (x :: xs) [] = .comma :: (x.before [] ++ itemsBefore xs []) := by
      rw [itemsBefore, before_eq_append x]
    rw [hwords]
    simp only [List.append_assoc] at hrest
    exact hrest

theorem written_fieldsOnto : ∀ (fs : List (Option String × Json)) (level : Nat) {out : String}
    {ws : List Lexeme}, (∀ f ∈ fs, f.2.Spelled) → Written out ws →
    Written (fieldsOnto level out fs) (ws ++ fieldsBefore fs [])
  | [], _, _, ws, _, h => by
    rw [fieldsBefore, List.append_nil]
    exact h
  | f :: fs, level, _, ws, hfields, h => by
    have hcomma : Parted _ (ws ++ [.comma]) := h.mark rfl
    have hfirst := written_fieldOnto f level (hfields f List.mem_cons_self)
      (hcomma.written.newLine level)
    have hrest := written_fieldsOnto fs level
      (fun g hg => hfields g (List.mem_cons_of_mem f hg)) hfirst
    have hwords : fieldsBefore (f :: fs) [] = .comma :: (fieldBefore f [] ++ fieldsBefore fs []) := by
      rw [fieldsBefore, fieldBefore_eq_append f]
    rw [hwords]
    simp only [List.append_assoc] at hrest
    exact hrest

theorem written_fieldOnto : ∀ (f : Option String × Json) (level : Nat) {out : String}
    {ws : List Lexeme}, f.2.Spelled → Parted out ws →
    Written (fieldOnto level out f) (ws ++ fieldBefore f [])
  | (key, v), level, _, ws, hv, h => by
    have hkey : Parted _ (ws ++ [.string key]) := h.written.mark rfl
    have hcolon : Parted _ (ws ++ [.string key] ++ [.colon]) := hkey.written.mark rfl
    have hblank : Parted (_ ++ " ") _ := hcolon.written.blank (by decide) (by simp [isSpace])
    have hvalue := written_indentedOnto v level hv hblank
    simp only [List.append_assoc] at hvalue
    exact hvalue

end

/-- A value is read back from its indented form, also with blank space behind it. -/
theorem read?_indented {v : Json} (h : v.Spelled) {blank : String}
    (hblank : ∀ c ∈ blank.toList, isSpace c = true) : read? (v.indented ++ blank) = some v := by
  have hwritten : Written v.indented (v.before []) := written_indentedOnto v 0 h parted_nil
  have hbreaks : Breaks blank.toList := by
    intro x hx
    exact isNumberChar_of_isSpace (hblank x (List.mem_of_mem_head? hx))
  have hend : ∀ done, words done blank.toList = some done.reverse := by
    intro done
    have hskip := words_blank hblank done []
    rw [List.append_nil] at hskip
    rw [hskip, words]
  have hwords : lexemes? (v.indented ++ blank) = some (v.before []) := by
    rw [lexemes?, String.toList_append, hwritten [] _ hbreaks, hend]
    simp
  rw [read?, hwords]
  exact congrArg (fun r => r.bind Assembly.result?) (Assembly.run_before v [] [])

end YupFront.Json
