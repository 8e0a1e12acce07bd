import Mathlib.Data.List.TakeWhile
import Mathlib.Tactic.SplitIfs
import YupFront.Json.Decode

/-! Reading a value back from its compact form. Words keep apart from each other, escapes are undone, and
the stack of open arrays and objects puts the value together again. -/

namespace YupFront.Json

/-! Strings. -/

theorem hexUnit?_hexDigit {n : Nat} (h : n < 32) :
    hexUnit? '0' '0' (hexDigit (n / 16)) (hexDigit (n % 16)) = some n := by
  have hall : ∀ m < 32, hexUnit? '0' '0' (hexDigit (m / 16)) (hexDigit (m % 16)) = some m := by
    decide
  exact hall n h

theorem Partial.unit_of_lt (p : Partial) {n : Nat} (h : n < 32) : p.unit n = p.char (Char.ofNat n) := by
  have hhigh : ¬(0xD800 ≤ n ∧ n < 0xDC00) := by omega
  have hlow : ¬(0xDC00 ≤ n ∧ n < 0xE000) := by omega
  rw [Partial.unit, if_neg hhigh, if_neg hlow]

theorem readString_plain (p : Partial) {c : Char} (hquote : c ≠ '"') (hslash : c ≠ '\\')
    (hcontrol : ¬c.toNat < 32) (rest : List Char) :
    readString p (c :: rest) = readString (p.char c) rest := by
  simp [readString, hslash, hcontrol]

theorem readString_simple (p : Partial) {c e : Char} (hu : c ≠ 'u') (h : simpleEscape? c = some e)
    (rest : List Char) : readString p ('\\' :: c :: rest) = readString (p.char e) rest := by
  simp [readString, hu, h]

/-- An escaped character is read as that character. -/
theorem readString_escape (p : Partial) (c : Char) (rest : List Char) :
    readString p (escape c ++ rest) = readString (p.char c) rest := by
  have hsimple : ∀ letter : Char, letter ≠ 'u' → simpleEscape? letter = some c →
      readString p (['\\', letter] ++ rest) = readString (p.char c) rest :=
    fun letter hu h => readString_simple p hu h rest
  have hcode : ∀ n : Nat, c.toNat = n → Char.ofNat n = c := by
    rintro n rfl
    exact c.ofNat_toNat
  unfold escape
  split_ifs with hquote hslash hn hr ht hb hf hcontrol
  · exact hsimple '"' (by decide) (congrArg some hquote.symm)
  · exact hsimple '\\' (by decide) (congrArg some hslash.symm)
  · exact hsimple 'n' (by decide) (congrArg some hn.symm)
  · exact hsimple 'r' (by decide) (congrArg some hr.symm)
  · exact hsimple 't' (by decide) (congrArg some ht.symm)
  · exact hsimple 'b' (by decide) (congrArg some (hcode 8 hb))
  · exact hsimple 'f' (by decide) (congrArg some (hcode 12 hf))
  · have hunit := hexUnit?_hexDigit hcontrol
    simp only [List.cons_append, List.nil_append, readString, hunit]
    rw [p.unit_of_lt hcontrol, c.ofNat_toNat]
  · exact readString_plain p hquote hslash hcontrol rest

theorem readString_escapes (cs rest : List Char) (p : Partial) :
    readString p (cs.flatMap escape ++ '"' :: rest) = some ((cs.foldl .char p).text, rest) := by
  induction cs generalizing p with
  | nil => rfl
  | cons c cs ih => rw [List.flatMap_cons, List.append_assoc, readString_escape, ih, List.foldl_cons]

theorem foldl_char (cs done : List Char) :
    cs.foldl Partial.char ⟨done, none, true⟩ = ⟨cs.reverse ++ done, none, true⟩ := by
  induction cs generalizing done with
  | nil => rfl
  | cons c cs ih =>
    have hone : Partial.char ⟨done, none, true⟩ c = ⟨c :: done, none, true⟩ := rfl
    rw [List.foldl_cons, hone, ih]
    simp

theorem readString_quoted (text : String) (rest : List Char) :
    readString .empty (text.toList.flatMap escape ++ '"' :: rest) = some (some text, rest) := by
  have htext : (text.toList.foldl .char Partial.empty).text = some text := by
    rw [Partial.empty, foldl_char]
    simp [Partial.text, Partial.settled]
  rw [readString_escapes, htext]

/-! Words. -/

theorem ne_of_isNumberChar {c d : Char} (h : isNumberChar c = true) (hd : isNumberChar d = false) :
    c ≠ d := by
  rintro rfl
  exact absurd h (by rw [hd]; decide)

theorem isSpace_of_isNumberChar {c : Char} (h : isNumberChar c = true) : isSpace c = false := by
  have hne : ∀ d : Char, isNumberChar d = false → c ≠ d := fun _ => ne_of_isNumberChar h
  simp [isSpace, hne ' ' rfl, hne '\t' rfl, hne '\n' rfl, hne '\r' rfl]

theorem mark?_of_isNumberChar {c : Char} (h : isNumberChar c = true) : mark? c = none := by
  have hne : ∀ d : Char, isNumberChar d = false → c ≠ d := fun _ => ne_of_isNumberChar h
  simp [mark?, hne '[' rfl, hne ']' rfl, hne '{' rfl, hne '}' rfl, hne ',' rfl, hne ':' rfl]

namespace Lexeme

def isNumber : Lexeme → Bool
  | number _ => true
  | _ => false

/-- A number is spelled as numbers are. -/
def Spelled : Lexeme → Prop
  | number spelling =>
    Json.isNumber spelling.toList = true ∧ ∀ c ∈ spelling.toList, isNumberChar c = true
  | _ => True

end Lexeme

theorem word?_number {c : Char} {cs rest : List Char} (hall : ∀ x ∈ c :: cs, isNumberChar x = true)
    (hnumber : isNumber (c :: cs) = true) (hrest : ∀ x ∈ rest.head?, isNumberChar x = false) :
    word? c (cs ++ rest) = some (.number (String.ofList (c :: cs)), rest) := by
  have hc : isNumberChar c = true := hall c List.mem_cons_self
  have hcs : ∀ x ∈ cs, isNumberChar x = true := fun x hx => hall x (List.mem_cons_of_mem c hx)
  have hmark : mark? c = none := mark?_of_isNumberChar hc
  have hquote : c ≠ '"' := ne_of_isNumberChar hc rfl
  have hnone : rest.takeWhile isNumberChar = [] ∧ rest.dropWhile isNumberChar = rest := by
    cases rest with
    | nil => exact ⟨rfl, rfl⟩
    | cons x rest =>
      have hx : isNumberChar x = false := hrest x rfl
      simp [hx]
  have htake : (cs ++ rest).takeWhile isNumberChar = cs := by
    rw [List.takeWhile_append_of_pos hcs, hnone.1, List.append_nil]
  have hdrop : (cs ++ rest).dropWhile isNumberChar = rest := by
    rw [List.dropWhile_append_of_pos hcs, hnone.2]
  simp only [word?, hmark, if_neg hquote, if_pos hc, htake, hdrop, if_pos hnumber]

/-- How a written word begins, and that it is read as itself if what follows does not go on with a
number. -/
theorem Lexeme.word?_write {w : Lexeme} (h : w.Spelled) :
    ∃ c cs, w.write.toList = c :: cs ∧ isSpace c = false ∧ isNumberChar c = w.isNumber ∧
      ∀ rest : List Char, (w.isNumber = true → ∀ x ∈ rest.head?, isNumberChar x = false) →
        word? c (cs ++ rest) = some (w, rest) := by
  cases w with
  | openArray => exact ⟨'[', [], rfl, rfl, rfl, fun _ _ => rfl⟩
  | closeArray => exact ⟨']', [], rfl, rfl, rfl, fun _ _ => rfl⟩
  | openObject => exact ⟨'{', [], rfl, rfl, rfl, fun _ _ => rfl⟩
  | closeObject => exact ⟨'}', [], rfl, rfl, rfl, fun _ _ => rfl⟩
  | comma => exact ⟨',', [], rfl, rfl, rfl, fun _ _ => rfl⟩
  | colon => exact ⟨':', [], rfl, rfl, rfl, fun _ _ => rfl⟩
  | null => exact ⟨'n', ['u', 'l', 'l'], rfl, rfl, rfl, fun _ _ => rfl⟩
  | bool b =>
    cases b with
    | true => exact ⟨'t', ['r', 'u', 'e'], rfl, rfl, rfl, fun _ _ => rfl⟩
    | false => exact ⟨'f', ['a', 'l', 's', 'e'], rfl, rfl, rfl, fun _ _ => rfl⟩
  | number spelling =>
    obtain ⟨hnumber, hall⟩ := h
    cases hcs : spelling.toList with
    | nil =>
      rw [hcs] at hnumber
      exact absurd hnumber (by decide)
    | cons c cs =>
      rw [hcs] at hnumber hall
      have hc := hall c List.mem_cons_self
      have hspelling : String.ofList (c :: cs) = spelling := by rw [← hcs, String.ofList_toList]
      exact ⟨c, cs, hcs, isSpace_of_isNumberChar hc, hc, fun rest hrest =>
        hspelling ▸ word?_number hall hnumber (hrest rfl)⟩
  | string text =>
    cases text with
    | none =>
      exact ⟨'"', ['\\', 'u', 'd', '8', '0', '0', '"'], rfl, rfl, rfl, fun _ _ => rfl⟩
    | some text =>
      refine ⟨'"', text.toList.flatMap escape ++ ['"'], ?_, rfl, rfl, fun rest _ => ?_⟩
      · simp [write, quote]
      · have hread := readString_quoted text rest
        simp [word?, mark?, hread]

theorem words_cons_word {c : Char} {cs rest : List Char} {w : Lexeme} (hspace : isSpace c = false)
    (hword : word? c cs = some (w, rest)) (done : List Lexeme) :
    words done (c :: cs) = words (w :: done) rest := by
  rw [words, if_neg (by simp [hspace])]
  split
  · next w' rest' h =>
    obtain ⟨rfl, rfl⟩ : w = w' ∧ rest = rest' := by simpa [hword] using h
    rfl
  · next h => simp [hword] at h

namespace Lexeme

/-- Words of which no two are numbers side by side. -/
def Legible : List Lexeme → Prop
  | [] => True
  | w :: ws => w.Spelled ∧ (w.isNumber = true → ∀ next ∈ ws.head?, next.isNumber = false) ∧ Legible ws

def writeAll (ws : List Lexeme) : List Char := ws.flatMap fun w => w.write.toList

/-- What is written begins with a letter of a number only where a number is written first. -/
theorem head?_writeAll {ws : List Lexeme} (h : Legible ws)
    (hfirst : ∀ w ∈ ws.head?, w.isNumber = false) :
    ∀ x ∈ (writeAll ws).head?, isNumberChar x = false := by
  cases ws with
  | nil => simp [writeAll]
  | cons w ws =>
    obtain ⟨c, cs, hwrite, -, hc, -⟩ := word?_write h.1
    have hw : w.isNumber = false := hfirst w rfl
    simp [writeAll, hwrite, hc, hw]

end Lexeme

theorem words_writeAll {ws : List Lexeme} (h : Lexeme.Legible ws) (done : List Lexeme) :
    words done (Lexeme.writeAll ws) = some (done.reverse ++ ws) := by
  induction ws generalizing done with
  | nil => simp [Lexeme.writeAll, words]
  | cons w ws ih =>
    -- Only where a number ends depends on what follows.
    obtain ⟨hw, hnext, hws⟩ := h
    obtain ⟨c, cs, hwrite, hspace, -, hword⟩ := Lexeme.word?_write hw
    have hread := hword (Lexeme.writeAll ws) fun hn => Lexeme.head?_writeAll hws (hnext hn)
    have hall : Lexeme.writeAll (w :: ws) = c :: (cs ++ Lexeme.writeAll ws) := by
      rw [Lexeme.writeAll, List.flatMap_cons, hwrite]
      rfl
    rw [hall, words_cons_word hspace hread, ih hws]
    simp

/-! Values. -/

namespace Assembly

theorem run_cons {a b : Assembly} {w : Lexeme} (h : a.step? w = some b) (ws : List Lexeme) :
    a.run (w :: ws) = b.run ws := by
  rw [run, h]

/-- The first value of an array is read like any other. -/
theorem run_valueOrClose (v : Json) (frames : List Frame) (rest : List Lexeme) :
    (⟨.valueOrClose, frames⟩ : Assembly).run (v.before rest) =
      (⟨.value, frames⟩ : Assembly).run (v.before rest) := by
  cases v with
  | null => rfl
  | bool b => rfl
  | number spelling => rfl
  | string text => rfl
  | array items => cases items <;> rfl
  | object fields => cases fields <;> rfl

mutual

/-- The words of a value hand that value to the innermost frame. -/
theorem run_before : ∀ (v : Json) (frames : List Frame) (rest : List Lexeme),
    (⟨.value, frames⟩ : Assembly).run (v.before rest) = (deliver v frames).run rest
  | .null, _, _ => rfl
  | .bool _, _, _ => rfl
  | .number _, _, _ => rfl
  | .string _, _, _ => rfl
  | .array [], _, _ => rfl
  | .array (x :: xs), frames, rest => by
    rw [before, run_cons rfl, run_valueOrClose, run_before x]
    exact run_itemsBefore xs [x] frames rest
  | .object [], _, _ => rfl
  | .object ((key, v) :: fs), frames, rest => by
    rw [before, fieldBefore, run_cons rfl, run_cons rfl, run_cons rfl, run_before v]
    exact run_fieldsBefore fs [(key, v)] key frames rest

theorem run_itemsBefore : ∀ (xs items : List Json) (frames : List Frame) (rest : List Lexeme),
    (⟨.separator, .array items :: frames⟩ : Assembly).run (itemsBefore xs (.closeArray :: rest)) =
      (deliver (.array (items.reverse ++ xs)) frames).run rest
  | [], items, frames, rest => by
    rw [itemsBefore, List.append_nil]
    exact run_cons rfl rest
  | x :: xs, items, frames, rest => by
    rw [itemsBefore, run_cons rfl, run_before x]
    have hrest := run_itemsBefore xs (x :: items) frames rest
    rwa [List.reverse_cons, List.append_assoc] at hrest

theorem run_fieldsBefore : ∀ (fs fields : List (Option String × Json)) (key : Option String)
    (frames : List Frame) (rest : List Lexeme),
    (⟨.separator, .object fields key :: frames⟩ : Assembly).run
        (fieldsBefore fs (.closeObject :: rest)) =
      (deliver (.object (fields.reverse ++ fs)) frames).run rest
  | [], fields, key, frames, rest => by
    rw [fieldsBefore, List.append_nil]
    exact run_cons rfl rest
  | (name, v) :: fs, fields, key, frames, rest => by
    rw [fieldsBefore, fieldBefore, run_cons rfl, run_cons rfl, run_cons rfl, run_before v]
    have hrest := run_fieldsBefore fs ((name, v) :: fields) name frames rest
    rwa [List.reverse_cons, List.append_assoc] at hrest

end

end Assembly

/-- Every number in the value is spelled as numbers are. -/
inductive Spelled : Json → Prop where
  | null : Spelled .null
  | bool (b : Bool) : Spelled (.bool b)
  | number {spelling : String} : (Lexeme.number spelling).Spelled → Spelled (.number spelling)
  | string (text : Option String) : Spelled (.string text)
  | array {items : List Json} : (∀ v ∈ items, Spelled v) → Spelled (.array items)
  | object {fields : List (Option String × Json)} : (∀ f ∈ fields, Spelled f.2) →
    Spelled (.object fields)

theorem Spelled.record {fields : List (String × Json)} (h : ∀ f ∈ fields, f.2.Spelled) :
    (Json.record fields).Spelled := by
  refine .object fun f hf => ?_
  obtain ⟨g, hg, rfl⟩ := List.mem_map.mp hf
  exact h g hg

namespace Lexeme

/-- A word that is no number goes in front of anything. -/
theorem Legible.cons {w : Lexeme} {ws : List Lexeme} (hw : w.isNumber = false)
    (h : Legible ws) : Legible (w :: ws) := by
  have hspelled : w.Spelled := by
    cases w with
    | number spelling => simp [isNumber] at hw
    | _ => trivial
  exact ⟨hspelled, by simp [hw], h⟩

/-- What may stand behind a value. -/
def Closes (rest : List Lexeme) : Prop :=
  Legible rest ∧ ∀ w ∈ rest.head?, w.isNumber = false

theorem Closes.cons {w : Lexeme} {ws : List Lexeme} (hw : w.isNumber = false) (h : Legible ws) :
    Closes (w :: ws) :=
  ⟨h.cons hw, by simpa using hw⟩

end Lexeme

open Lexeme in
theorem closes_itemsBefore {xs : List Json} {rest : List Lexeme}
    (h : ∀ v ∈ xs, ∀ more, Closes more → Legible (v.before more)) (hrest : Closes rest) :
    Closes (itemsBefore xs rest) := by
  induction xs with
  | nil => exact hrest
  | cons x xs ih =>
    have htail := ih fun v hv => h v (List.mem_cons_of_mem x hv)
    exact .cons rfl (h x List.mem_cons_self _ htail)

open Lexeme in
theorem closes_fieldsBefore {fs : List (Option String × Json)} {rest : List Lexeme}
    (h : ∀ f ∈ fs, ∀ more, Closes more → Legible (f.2.before more)) (hrest : Closes rest) :
    Closes (fieldsBefore fs rest) := by
  induction fs with
  | nil => exact hrest
  | cons f fs ih =>
    have htail := ih fun v hv => h v (List.mem_cons_of_mem f hv)
    have hvalue := h f List.mem_cons_self _ htail
    obtain ⟨key, v⟩ := f
    exact .cons rfl (.cons rfl (.cons rfl hvalue))

open Lexeme in
theorem Spelled.legible_before {v : Json} (h : v.Spelled) :
    ∀ rest, Closes rest → Legible (v.before rest) := by
  induction h with
  | null => exact fun _ hrest => hrest.1.cons rfl
  | bool b => exact fun _ hrest => hrest.1.cons rfl
  | number hs => exact fun _ hrest => ⟨hs, fun _ => hrest.2, hrest.1⟩
  | string text => exact fun _ hrest => hrest.1.cons rfl
  | @array items _ ih =>
    intro rest hrest
    have hclose : Closes (.closeArray :: rest) := .cons rfl hrest.1
    cases items with
    | nil => exact hclose.1.cons rfl
    | cons x xs =>
      have htail := closes_itemsBefore (fun v hv => ih v (List.mem_cons_of_mem x hv)) hclose
      exact (ih x List.mem_cons_self _ htail).cons rfl
  | @object fields _ ih =>
    intro rest hrest
    have hclose : Closes (.closeObject :: rest) := .cons rfl hrest.1
    cases fields with
    | nil => exact hclose.1.cons rfl
    | cons f fs =>
      have htail := closes_fieldsBefore (fun f' hf => ih f' (List.mem_cons_of_mem f hf)) hclose
      have hvalue := ih f List.mem_cons_self _ htail
      obtain ⟨key, v⟩ := f
      exact .cons rfl (.cons rfl (.cons rfl hvalue))

/-- A value is read back from its compact form. -/
theorem read?_compact {v : Json} (h : v.Spelled) : read? v.compact = some v := by
  have hlegible : Lexeme.Legible (v.before []) := h.legible_before [] ⟨trivial, by simp⟩
  have htext : v.compact.toList = Lexeme.writeAll (v.before []) := by
    rw [compact, String.toList_join, List.flatMap_map]
    rfl
  have hwords : lexemes? v.compact = some (v.before []) := by
    rw [lexemes?, htext, words_writeAll hlegible]
    rfl
  have hrun : Assembly.start.run (v.before []) = some ⟨.nothing v, []⟩ :=
    Assembly.run_before v [] []
  rw [read?, hwords]
  simp [hrun, Assembly.result?]

/-! Numbers. -/

theorem isDigit_of_mem_repr {n : Nat} {c : Char} (h : c ∈ n.repr.toList) : c.isDigit = true :=
  Nat.isDigit_of_mem_toDigits (by decide) (Nat.le_refl 10) (Nat.toList_repr ▸ h)

/-- Only zero is spelled with a zero in front. -/
theorem head?_toDigits {n : Nat} (h : n ≠ 0) : (Nat.toDigits 10 n).head? ≠ some '0' := by
  induction n using Nat.strongRecOn with
  | ind n ih =>
    by_cases hn : n < 10
    · rw [Nat.toDigits_of_lt_base hn]
      have hall : ∀ d < 10, d ≠ 0 → [d.digitChar].head? ≠ some '0' := by decide
      exact hall n hn h
    · -- The digits of a tenth come first.
      have hle : 10 ≤ n := Nat.le_of_not_lt hn
      have hdiv : n / 10 ≠ 0 := by omega
      have hlt : n / 10 < n := by omega
      have hfirst := ih (n / 10) hlt hdiv
      rw [Nat.toDigits_of_base_le (by decide) hle, List.head?_append]
      cases hd : Nat.toDigits 10 (n / 10) with
      | nil => exact absurd hd Nat.toDigits_ne_nil
      | cons c cs => simpa [hd] using hfirst

/-- At least one digit. -/
structure Digits (cs : List Char) : Prop where
  ne_nil : cs ≠ []
  isDigit : ∀ c ∈ cs, c.isDigit = true

/-- What stands in front of the point. It begins with a zero only if it is one. -/
structure Whole (cs : List Char) : Prop extends Digits cs where
  zero : cs.head? = some '0' → cs = ['0']

inductive Fraction : List Char → Prop where
  | absent : Fraction []
  | point {ds : List Char} : Digits ds → Fraction ('.' :: ds)

inductive Exponent : List Char → Prop where
  | absent : Exponent []
  | mark {sign : Char} {ds : List Char} : sign = '+' ∨ sign = '-' → Digits ds →
    Exponent ('e' :: sign :: ds)

/-- A number without its sign. -/
inductive Numeral : List Char → Prop where
  | mk {whole fraction exponent : List Char} : Whole whole → Fraction fraction → Exponent exponent →
    Numeral (whole ++ (fraction ++ exponent))

section Numerals

variable {cs rest : List Char}

theorem digits_toDigits (n : Nat) : Digits (Nat.toDigits 10 n) where
  ne_nil := Nat.toDigits_ne_nil
  isDigit _ hc := Nat.isDigit_of_mem_toDigits (by decide) (Nat.le_refl 10) hc

theorem whole_toDigits (n : Nat) : Whole (Nat.toDigits 10 n) where
  toDigits := digits_toDigits n
  zero hzero := by
    by_cases hn : n = 0
    · rw [hn]
      decide
    · exact absurd hzero (head?_toDigits hn)

theorem Whole.numeral (h : Whole cs) (hrest : Fraction rest) : Numeral (cs ++ rest) := by
  have hparts := Numeral.mk h hrest .absent
  rwa [List.append_nil] at hparts

theorem Digits.someDigits?_append (h : Digits cs) (hrest : ∀ x ∈ rest.head?, x.isDigit = false) :
    someDigits? (cs ++ rest) = some rest := by
  cases cs with
  | nil => exact absurd rfl h.ne_nil
  | cons c cs =>
    have hc : c.isDigit = true := h.isDigit c List.mem_cons_self
    have hcs : ∀ x ∈ cs, x.isDigit = true := fun x hx => h.isDigit x (List.mem_cons_of_mem c hx)
    have hdrop : dropDigits (cs ++ rest) = rest := by
      rw [dropDigits, List.dropWhile_append_of_pos hcs]
      cases rest with
      | nil => rfl
      | cons x rest =>
        have hx : x.isDigit = false := hrest x rfl
        rw [List.dropWhile_cons, hx]
        rfl
    rw [List.cons_append, someDigits?, if_pos hc, hdrop]

theorem Digits.someDigits? (h : Digits cs) : someDigits? cs = some [] := by
  have happend : Json.someDigits? (cs ++ []) = some [] := h.someDigits?_append nofun
  rwa [List.append_nil] at happend

theorem Whole.wholePart?_append (h : Whole cs) (hrest : ∀ x ∈ rest.head?, x.isDigit = false) :
    wholePart? (cs ++ rest) = some rest := by
  have hsome := h.someDigits?_append hrest
  unfold wholePart?
  split
  · next c after heq =>
    cases cs with
    | nil => exact absurd rfl h.ne_nil
    | cons d ds =>
      obtain ⟨rfl, htail⟩ := List.cons.inj heq
      obtain rfl := (List.cons.inj (h.zero rfl)).2
      obtain rfl : rest = c :: after := htail
      have hc : c.isDigit = false := hrest c rfl
      rw [hc]
      rfl
  · exact hsome

theorem Fraction.fractionPart?_append (h : Fraction cs)
    (hrest : ∀ x ∈ rest.head?, x.isDigit = false ∧ x ≠ '.') :
    fractionPart? (cs ++ rest) = some rest := by
  cases h with
  | absent =>
    cases rest with
    | nil => rfl
    | cons x rest =>
      have hx : x ≠ '.' := (hrest x rfl).2
      simp [fractionPart?, hx]
  | point hds => exact hds.someDigits?_append fun x hx => (hrest x hx).1

theorem Exponent.exponentPart? (h : Exponent cs) : exponentPart? cs = some [] := by
  cases h with
  | absent => rfl
  | mark hsign hds =>
    rcases hsign with rfl | rfl
    · exact hds.someDigits?
    · exact hds.someDigits?

theorem Exponent.head (h : Exponent cs) : ∀ x ∈ cs.head?, x.isDigit = false ∧ x ≠ '.' := by
  intro x hx
  cases h with
  | absent => cases hx
  | mark =>
    obtain rfl := Option.some.inj hx
    exact ⟨rfl, by decide⟩

theorem Fraction.head (h : Fraction cs) (hrest : Exponent rest) :
    ∀ x ∈ (cs ++ rest).head?, x.isDigit = false := by
  intro x hx
  cases h with
  | absent => exact (hrest.head x hx).1
  | point =>
    obtain rfl := Option.some.inj hx
    rfl

theorem Whole.head (h : Whole cs) (rest : List Char) : ∀ x ∈ (cs ++ rest).head?, x ≠ '-' := by
  rintro x hx rfl
  cases cs with
  | nil => exact absurd rfl h.ne_nil
  | cons c cs =>
    obtain rfl := Option.some.inj hx
    exact absurd (h.isDigit _ List.mem_cons_self) (by decide)

theorem Numeral.parts (h : Numeral cs) :
    ((wholePart? cs).bind fractionPart?).bind Json.exponentPart? = some [] := by
  obtain ⟨hwhole, hfraction, hexponent⟩ := h
  rw [hwhole.wholePart?_append (hfraction.head hexponent), Option.bind_some,
    hfraction.fractionPart?_append hexponent.head, Option.bind_some, hexponent.exponentPart?]

theorem Numeral.head (h : Numeral cs) : ∀ x ∈ cs.head?, x ≠ '-' := by
  obtain ⟨hwhole, -, -⟩ := h
  exact hwhole.head _

theorem Digits.isNumberChar (h : Digits cs) : ∀ c ∈ cs, isNumberChar c = true := by
  intro c hc
  simp [Json.isNumberChar, h.isDigit c hc]

theorem Numeral.isNumberChar (h : Numeral cs) : ∀ c ∈ cs, isNumberChar c = true := by
  obtain ⟨hwhole, hfraction, hexponent⟩ := h
  refine List.forall_mem_append.mpr ⟨hwhole.isNumberChar, List.forall_mem_append.mpr ⟨?_, ?_⟩⟩
  · cases hfraction with
    | absent => exact nofun
    | point hds => exact List.forall_mem_cons.mpr ⟨rfl, hds.isNumberChar⟩
  · cases hexponent with
    | absent => exact nofun
    | mark hsign hds =>
      refine List.forall_mem_cons.mpr ⟨rfl, List.forall_mem_cons.mpr ⟨?_, hds.isNumberChar⟩⟩
      rcases hsign with rfl | rfl
      · rfl
      · rfl

/-- With or without a sign. -/
theorem Numeral.spelled (h : Numeral cs) {sign : String} (hsign : sign = "" ∨ sign = "-") :
    (Lexeme.number (sign ++ String.ofList cs)).Spelled := by
  have hchars := h.isNumberChar
  rcases hsign with rfl | rfl
  · rw [String.empty_append, Lexeme.Spelled, String.toList_ofList]
    refine ⟨?_, hchars⟩
    unfold isNumber
    dsimp only
    split
    · exact absurd rfl (h.head '-' rfl)
    · rw [h.parts]
      rfl
  · have hlist : ("-" ++ String.ofList cs).toList = '-' :: cs := by simp
    have hunsigned : isNumber ('-' :: cs) =
        (((wholePart? cs).bind fractionPart?).bind Json.exponentPart? == some []) := rfl
    rw [Lexeme.Spelled, hlist, hunsigned, h.parts]
    exact ⟨rfl, List.forall_mem_cons.mpr ⟨rfl, hchars⟩⟩

end Numerals

theorem numeral_toDigits (n : Nat) : Numeral (Nat.toDigits 10 n) := by
  have hparts := (whole_toDigits n).numeral .absent
  rwa [List.append_nil] at hparts

theorem spelled_nat (n : Nat) : (Json.nat n).Spelled := by
  have hspelled := (numeral_toDigits n).spelled (.inl rfl)
  rw [← Nat.toList_repr, String.ofList_toList, String.empty_append] at hspelled
  exact .number hspelled

theorem natBelow?_nat {n bound : Nat} (h : n < bound) (hbound : bound ≤ Nat.pow 10 20) :
    natBelow? bound (.nat n) = some n := by
  have hlength : n.repr.length ≤ 20 :=
    (Nat.length_repr_le_iff (by decide)).mpr (Nat.lt_of_lt_of_le h hbound)
  have hdigits : n.repr.toList.all Char.isDigit = true :=
    List.all_eq_true.mpr fun c hc => isDigit_of_mem_repr hc
  have hvalue : n.repr.toList.foldl (fun n c => 10 * n + (c.toNat - '0'.toNat)) 0 = n := by
    rw [Nat.toList_repr, ← Nat.ofDigitChars_eq_foldl, Nat.ofDigitChars_ten_toDigits]
  simp only [natBelow?, Json.nat, hlength, hdigits, hvalue, h, decide_true, Bool.and_self, if_true]

end YupFront.Json
