import Mathlib.Data.Nat.Digits.Defs
import YupFront.Proofs.Layout

/-! What the kind of a token says of its text. Reserved words, symbols and integers are told apart
by their characters, so that it does not matter which of them is looked for first. -/

namespace YupFront

/-! Words in upper and lower case. -/

/-- A letter from A to Z and its lower case. -/
def CasePair (upper lower : Char) : Prop :=
  'A' ≤ upper ∧ upper ≤ 'Z' ∧ lower.toNat = upper.toNat + 32

def SameLetter (c d : Char) : Prop := c = d ∨ CasePair c d ∨ CasePair d c

/-- Letter for letter the same, but for the case of letters from A to Z. -/
def SameWord (s t : String) : Prop := List.Forall₂ SameLetter s.toList t.toList

section Words

variable {c d : Char} {s t text : String} {k : Keyword}

theorem casePair_iff : CasePair c d ↔ 65 ≤ c.toNat ∧ c.toNat ≤ 90 ∧ d.toNat = c.toNat + 32 := by
  rfl

theorem toNat_toLower (c : Char) :
    c.toLower.toNat = if 65 ≤ c.toNat ∧ c.toNat ≤ 90 then c.toNat + 32 else c.toNat := by
  have hrange : c.val ≥ 'A'.val ∧ c.val ≤ 'Z'.val ↔ 65 ≤ c.toNat ∧ c.toNat ≤ 90 := Iff.rfl
  unfold Char.toLower
  by_cases h : c.val ≥ 'A'.val ∧ c.val ≤ 'Z'.val
  · have hn := hrange.mp h
    have hsum : (c.val + ('a'.val - 'A'.val)).toNat = c.toNat + 32 := by
      have h32 : ('a'.val - 'A'.val).toNat = 32 := by decide
      rw [UInt32.toNat_add, h32, Char.toNat_val]
      omega
    rw [dif_pos h, if_pos hn]
    exact hsum
  · rw [dif_neg h, if_neg (mt hrange.mpr h)]

theorem toLower_eq_iff : c.toLower = d.toLower ↔ SameLetter c d := by
  unfold SameLetter
  rw [casePair_iff, casePair_iff, ← Char.toNat_inj, ← Char.toNat_inj, toNat_toLower, toNat_toLower]
  by_cases hc : 65 ≤ c.toNat ∧ c.toNat ≤ 90 <;> by_cases hd : 65 ≤ d.toNat ∧ d.toNat ≤ 90
  · simp only [if_pos hc, if_pos hd]
    omega
  · simp only [if_pos hc, if_neg hd]
    omega
  · simp only [if_neg hc, if_pos hd]
    omega
  · simp only [if_neg hc, if_neg hd]
    omega

theorem sameWord_iff :
    SameWord s t ↔ s.toList.map Char.toLower = t.toList.map Char.toLower := by
  rw [← List.forall₂_eq_eq_eq, List.forall₂_map_left_iff, List.forall₂_map_right_iff]
  simp only [toLower_eq_iff, SameWord]

theorem ofText?_eq_some_iff : Keyword.ofText? text = some k ↔ SameWord text k.word := by
  have hlower (j : Keyword) : j.word.toList.map Char.toLower = j.word.toList := by
    cases j <;> decide
  have hsame (j : Keyword) :
      (text.toList.map Char.toLower == j.word.toList) = true ↔ SameWord text j.word := by
    rw [sameWord_iff, hlower, beq_iff_eq]
  constructor
  · intro h
    have hk := List.find?_some h
    exact (hsame k).mp hk
  · intro h
    have hk := (hsame k).mpr h
    have hfound : (Keyword.ofText? text).isSome = true :=
      List.find?_isSome.mpr ⟨k, by cases k <;> decide, hk⟩
    obtain ⟨j, hj⟩ := Option.isSome_iff_exists.mp hfound
    have hfirst := List.find?_some hj
    have hword : j.word.toList = k.word.toList :=
      (beq_iff_eq.mp hfirst).symm.trans (beq_iff_eq.mp hk)
    -- No two of the words are the same.
    rw [hj]
    revert hword
    cases j <;> cases k <;> decide

end Words

/-! Numbers. -/

/-- The number that digits spell, the last of them for the ones. -/
def decimalValue (digits : List Char) : Nat :=
  Nat.ofDigits 10 (digits.reverse.map fun c => c.toNat - '0'.toNat)

/-- A string of digits, leading zeros or not, for a number up to `limit`. -/
structure Numeral (limit : Nat) (digits : List Char) : Prop where
  ne_nil : digits ≠ []
  isDigit : ∀ c ∈ digits, c.isDigit = true
  value_le : decimalValue digits ≤ limit

section Numerals

variable {limit : Nat} {digits : List Char} {c : Char}

theorem decimalValue_cons (c : Char) (digits : List Char) :
    decimalValue (c :: digits) =
      (c.toNat - '0'.toNat) * 10 ^ digits.length + decimalValue digits := by
  unfold decimalValue
  rw [List.reverse_cons, List.map_append, Nat.ofDigits_append, List.length_map,
    List.length_reverse, List.map_singleton, Nat.ofDigits_singleton]
  ring

theorem digitsValue_eq (digits : List Char) : digitsValue digits = decimalValue digits := by
  induction digits using List.reverseRecOn with
  | nil => rfl
  | append_singleton digits c ih =>
    have hvalue : digitsValue (digits ++ [c]) = 10 * digitsValue digits + (c.toNat - '0'.toNat) :=
      List.foldl_append
    rw [hvalue, ih, decimalValue, decimalValue, List.reverse_append, List.reverse_singleton,
      List.singleton_append, List.map_cons, Nat.ofDigits_cons, Nat.add_comm]

theorem decimalValue_dropZeros (digits : List Char) :
    decimalValue (digits.dropWhile (· == '0')) = decimalValue digits := by
  induction digits with
  | nil => rfl
  | cons c digits ih =>
    by_cases hc : c = '0'
    · rw [hc, List.dropWhile_cons_of_pos (by decide), ih, decimalValue_cons, Nat.sub_self,
        Nat.zero_mul, Nat.zero_add]
    · rw [List.dropWhile_cons_of_neg (by simpa using hc)]

/-- More than ten digits that do not begin with a zero spell a number of more than ten digits. -/
theorem length_le_of_value_le (hlimit : limit < 10 ^ 10) (hdigits : ∀ c ∈ digits, c.isDigit = true)
    (h : decimalValue digits ≤ limit) : (digits.dropWhile (· == '0')).length ≤ 10 := by
  rw [← decimalValue_dropZeros] at h
  have hhead := List.head?_dropWhile_not (· == '0') digits
  cases hsig : digits.dropWhile (· == '0') with
  | nil => simp
  | cons c rest =>
    rw [hsig] at h hhead
    have hzero : c ≠ '0' := by simpa using hhead
    have hmem : c ∈ digits := (List.dropWhile_suffix _).subset (hsig ▸ List.mem_cons_self)
    have hc := Char.isDigit_iff_toNat.mp (hdigits c hmem)
    have hpos : 1 ≤ c.toNat - '0'.toNat := by
      have hne : c.toNat ≠ '0'.toNat := fun heq => hzero (Char.toNat_inj.mp heq)
      omega
    rw [decimalValue_cons] at h
    by_contra hlong
    have hpow : 10 ^ 10 ≤ 10 ^ rest.length := by
      apply Nat.pow_le_pow_right (by omega)
      simp only [List.length_cons] at hlong
      omega
    have hfirst := Nat.mul_le_mul hpos hpow
    omega

theorem digitsWithin_iff (hlimit : limit < 10 ^ 10) :
    digitsWithin limit digits = true ↔ Numeral limit digits := by
  simp only [digitsWithin, Bool.and_eq_true, Bool.not_eq_true', List.isEmpty_eq_false_iff,
    List.all_eq_true, decide_eq_true_eq, digitsValue_eq, decimalValue_dropZeros]
  constructor
  · rintro ⟨⟨⟨hne, hdigits⟩, -⟩, hvalue⟩
    exact ⟨hne, hdigits, hvalue⟩
  · rintro ⟨hne, hdigits, hvalue⟩
    exact ⟨⟨⟨hne, hdigits⟩, length_le_of_value_le hlimit hdigits hvalue⟩, hvalue⟩

/-- An integer has at most one sign, and a value from -2^31 to 2^31 - 1. -/
theorem isInteger_iff {text : String} : isInteger text = true ↔
    Numeral 2147483647 text.toList ∨
      (∃ digits, text.toList = '+' :: digits ∧ Numeral 2147483647 digits) ∨
      ∃ digits, text.toList = '-' :: digits ∧ Numeral 2147483648 digits := by
  have hsign (sign : Char) (rest : List Char) (limit : Nat) (h : sign.isDigit = false) :
      ¬ Numeral limit (sign :: rest) := by
    intro hn
    have := hn.isDigit sign (.head _)
    simp [h] at this
  have hmin : Nat.pow 2 31 = 2147483648 := rfl
  unfold isInteger
  rw [hmin]
  split
  · next digits heq =>
    rw [digitsWithin_iff (by decide), heq]
    simp [hsign '-' digits _ (by decide)]
  · next digits heq =>
    rw [digitsWithin_iff (by decide), heq]
    simp [hsign '+' digits _ (by decide)]
  · next hminus hplus =>
    rw [digitsWithin_iff (by decide)]
    constructor
    · exact .inl
    · rintro (h | ⟨digits, heq, -⟩ | ⟨digits, heq, -⟩)
      · exact h
      · exact absurd heq (hplus digits)
      · exact absurd heq (hminus digits)

end Numerals

/-! Symbols. -/

/-- How a symbol is written. -/
def TokenKind.spelling? : TokenKind → Option String
  | plus => some "+"
  | minus => some "-"
  | multiply => some "*"
  | divide => some "/"
  | assign => some "="
  | equal => some "=="
  | notEqual => some "!="
  | less => some "<"
  | greater => some ">"
  | lessEqual => some "<="
  | greaterEqual => some ">="
  | leftParen => some "("
  | rightParen => some ")"
  | leftBrace => some "\x7b"
  | rightBrace => some "\x7d"
  | semicolon => some ";"
  | leftBracket => some "["
  | rightBracket => some "]"
  | keyword _ | identifier | number | endOfFile => none

theorem TokenKind.isSome_spelling?_iff (k : TokenKind) : k.spelling?.isSome = true ↔
    k.tokenClass = .operator ∨ k.tokenClass = .punctuation := by
  cases k <;> simp [spelling?, tokenClass]

theorem TokenKind.ne_of_isSome_spelling? {k j : TokenKind} (hk : k.spelling?.isSome = true)
    (hj : j.spelling? = none) : k ≠ j := by
  rintro rfl
  rw [hj] at hk
  cases hk

theorem symbolKind?_eq_some_iff {text : String} {k : TokenKind} :
    symbolKind? text = some k ↔ k.spelling? = some text := by
  constructor
  · intro h
    have hall : ∀ s ∈ symbolTable, s.2.spelling? = some s.1 := by decide
    exact hall _ (mem_of_symbolKind? h)
  · intro h
    cases k <;> cases h <;> rfl

/-! A text is at most one of a reserved word, a symbol and an integer. -/

section Recognisers

variable {text : String}

theorem symbolKind?_of_keyword {k : Keyword} (h : Keyword.ofText? text = some k) :
    symbolKind? text = none := by
  have hall : ∀ s ∈ symbolTable, Keyword.ofText? s.1 = none := by decide
  apply Option.eq_none_iff_forall_ne_some.mpr
  intro symbol hs
  have hnone := hall _ (mem_of_symbolKind? hs)
  rw [h] at hnone
  cases hnone

theorem isInteger_of_symbol {k : TokenKind} (h : symbolKind? text = some k) :
    isInteger text = false := by
  have hall : ∀ s ∈ symbolTable, isInteger s.1 = false := by decide
  exact hall _ (mem_of_symbolKind? h)

theorem exists_digit_of_isInteger (h : isInteger text = true) :
    ∃ c ∈ text.toList, c.isDigit = true := by
  have hfirst {limit : Nat} {digits : List Char} (hn : Numeral limit digits) :
      ∃ c ∈ digits, c.isDigit = true := by
    obtain ⟨c, hc⟩ := List.exists_mem_of_ne_nil digits hn.ne_nil
    exact ⟨c, hc, hn.isDigit c hc⟩
  rcases isInteger_iff.mp h with hn | ⟨digits, htext, hn⟩ | ⟨digits, htext, hn⟩
  · exact hfirst hn
  · obtain ⟨c, hc, hdigit⟩ := hfirst hn
    exact ⟨c, htext ▸ .tail _ hc, hdigit⟩
  · obtain ⟨c, hc, hdigit⟩ := hfirst hn
    exact ⟨c, htext ▸ .tail _ hc, hdigit⟩

/-- A digit has no case, and no reserved word has a digit. -/
theorem isInteger_of_keyword {k : Keyword} (h : Keyword.ofText? text = some k) :
    isInteger text = false := by
  apply Bool.eq_false_iff.mpr
  intro hinteger
  obtain ⟨c, hc, hdigit⟩ := exists_digit_of_isInteger hinteger
  have hlower : c.toLower = c := by
    have hrange := Char.isDigit_iff_toNat.mp hdigit
    have hnine : '9'.toNat = 57 := rfl
    rw [← Char.toNat_inj, toNat_toLower, if_neg (by omega)]
  have hword := List.mem_map_of_mem (f := Char.toLower) hc
  rw [sameWord_iff.mp (ofText?_eq_some_iff.mp h), hlower] at hword
  have hnone : (k.word.toList.map Char.toLower).all (!·.isDigit) = true := by
    cases k <;> decide
  have hletter := List.all_eq_true.mp hnone c hword
  rw [hdigit] at hletter
  cases hletter

/-- What becomes of a text as a word, a symbol and an integer, and its kind. -/
inductive Verdict : Option Keyword → Option TokenKind → Bool → TokenKind → Prop where
  | keyword (k : Keyword) : Verdict (some k) none false (.keyword k)
  | symbol {k : TokenKind} : k.spelling?.isSome = true → Verdict none (some k) false k
  | number : Verdict none none true .number
  | identifier : Verdict none none false .identifier

theorem verdict (text : String) :
    Verdict (Keyword.ofText? text) (symbolKind? text) (isInteger text) (classify text) := by
  unfold classify
  cases hword : Keyword.ofText? text with
  | some k =>
    rw [symbolKind?_of_keyword hword, isInteger_of_keyword hword]
    exact .keyword k
  | none =>
    cases hsymbol : symbolKind? text with
    | some k =>
      rw [isInteger_of_symbol hsymbol]
      exact .symbol (by rw [symbolKind?_eq_some_iff.mp hsymbol, Option.isSome_some])
    | none =>
      cases isInteger text with
      | true => exact .number
      | false => exact .identifier

/-- The recognisers of a text, in the order in which they are tried. -/
def recognisers : List (String → Option TokenKind) :=
  [fun text => (Keyword.ofText? text).map .keyword, symbolKind?,
    fun text => if isInteger text then some .number else none]

theorem filterMap_recognisers (text : String) : ∃ found : Option TokenKind,
    recognisers.filterMap (fun recognise => recognise text) = found.toList ∧
      found.getD .identifier = classify text := by
  have h := verdict text
  simp only [recognisers, List.filterMap_cons, List.filterMap_nil]
  generalize Keyword.ofText? text = word, symbolKind? text = symbol, isInteger text = integer,
    classify text = kind at h ⊢
  cases h with
  | keyword k => exact ⟨some (.keyword k), rfl, rfl⟩
  | symbol => exact ⟨some kind, rfl, rfl⟩
  | number => exact ⟨some .number, rfl, rfl⟩
  | identifier => exact ⟨none, rfl, rfl⟩

theorem findSome?_of_perm {order : List (String → Option TokenKind)} (h : order.Perm recognisers)
    (text : String) :
    (order.findSome? fun recognise => recognise text).getD .identifier = classify text := by
  obtain ⟨found, hfound, hkind⟩ := filterMap_recognisers text
  have hperm := h.filterMap fun recognise => recognise text
  rw [hfound] at hperm
  have hsame : order.filterMap (fun recognise => recognise text) = found.toList := by
    cases found with
    | none => exact List.perm_nil.mp hperm
    | some k => exact List.perm_singleton.mp hperm
  rw [← List.head?_filterMap, hsame, ← hkind]
  cases found <;> rfl

section Verdict

variable {word : Option Keyword} {symbol : Option TokenKind} {integer : Bool} {kind : TokenKind}

theorem Verdict.at_most_one (h : Verdict word symbol integer kind) :
    word.isSome.toNat + symbol.isSome.toNat + integer.toNat ≤ 1 := by
  cases h <;> simp

theorem Verdict.kind_ne_endOfFile (h : Verdict word symbol integer kind) : kind ≠ .endOfFile := by
  cases h with
  | symbol hk => exact TokenKind.ne_of_isSome_spelling? hk rfl
  | keyword | number | identifier => nofun

theorem Verdict.keyword_iff (h : Verdict word symbol integer kind) (k : Keyword) :
    kind = .keyword k ↔ word = some k := by
  cases h with
  | keyword j => simp
  | symbol hk => simp [TokenKind.ne_of_isSome_spelling? hk (j := .keyword k) rfl]
  | number | identifier => simp

theorem Verdict.symbol_iff (h : Verdict word symbol integer kind) :
    kind.tokenClass = .operator ∨ kind.tokenClass = .punctuation ↔ symbol.isSome = true := by
  cases h with
  | symbol hk => simpa using kind.isSome_spelling?_iff.mp hk
  | keyword | number | identifier => simp [TokenKind.tokenClass]

theorem Verdict.kind_of_symbol (h : Verdict word symbol integer kind) {k : TokenKind}
    (hk : symbol = some k) : kind = k := by
  cases h with
  | symbol => exact Option.some.inj hk
  | keyword | number | identifier => cases hk

theorem Verdict.identifier_iff (h : Verdict word symbol integer kind) :
    kind = .identifier ↔ word = none ∧ symbol = none ∧ integer = false := by
  cases h with
  | symbol hk => simp [TokenKind.ne_of_isSome_spelling? hk (j := .identifier) rfl]
  | keyword | number | identifier => simp

theorem Verdict.number_iff (h : Verdict word symbol integer kind) :
    kind = .number ↔ integer = true := by
  cases h with
  | symbol hk => simp [TokenKind.ne_of_isSome_spelling? hk (j := .number) rfl]
  | keyword | number | identifier => simp

end Verdict

end Recognisers

/-- What the kind of a token says of its text, case by case. -/
structure Token.Classified (t : Token) : Prop where
  not_end : t.kind ≠ .endOfFile
  keyword_iff : ∀ k, t.kind = .keyword k ↔ SameWord t.text k.word
  symbol_iff : t.kind.tokenClass = .operator ∨ t.kind.tokenClass = .punctuation ↔
    ∃ k : TokenKind, k.spelling? = some t.text
  spelled : ∀ k : TokenKind, k.spelling? = some t.text → t.kind = k
  number_iff : t.kind = .number ↔ Numeral 2147483647 t.text.toList
  identifier_iff : t.kind = .identifier ↔ (∀ k : Keyword, ¬ SameWord t.text k.word) ∧
    (∀ k : TokenKind, k.spelling? ≠ some t.text) ∧ ¬ Numeral 2147483647 t.text.toList

section Lexed

variable {t : Token} {text : String}

/-- A sign is an operator, so that it never is a part of a longer lexeme. -/
theorem isInteger_of_lexeme (h : Lexeme text.toList) :
    isInteger text = true ↔ Numeral 2147483647 text.toList := by
  have hsigns : ∀ sign ∈ ['+', '-'], sign ∈ operatorLeads ∧ sign ∉ pairLeads := by
    simp [operatorLeads, pairLeads]
  have hsigned {sign : Char} {digits : List Char} {limit : Nat} (hsign : sign ∈ ['+', '-'])
      (htext : text.toList = sign :: digits) : ¬ Numeral limit digits := by
    obtain ⟨hlead, hpair⟩ := hsigns sign hsign
    intro hn
    have hnil : digits = [] := by
      rw [htext] at h
      cases h with
      | punctuation => rfl
      | operator => rfl
      | pair hp => exact absurd hp hpair
      | run hr => exact absurd (hr.plain sign (.head _)) (not_plain_of_operatorLead hlead)
    exact hn.ne_nil hnil
  rw [isInteger_iff]
  constructor
  · rintro (hn | ⟨digits, htext, hn⟩ | ⟨digits, htext, hn⟩)
    · exact hn
    · exact absurd hn (hsigned (by decide) htext)
    · exact absurd hn (hsigned (by decide) htext)
  · exact .inl

theorem classified_of_lexeme (hkind : t.kind = classify t.text) (h : Lexeme t.text.toList) :
    t.Classified := by
  have hverdict := verdict t.text
  rw [← hkind] at hverdict
  have hnumber : t.kind = .number ↔ Numeral 2147483647 t.text.toList :=
    hverdict.number_iff.trans (isInteger_of_lexeme h)
  have hkeyword (k : Keyword) : t.kind = .keyword k ↔ SameWord t.text k.word :=
    (hverdict.keyword_iff k).trans ofText?_eq_some_iff
  have hsymbol : t.kind.tokenClass = .operator ∨ t.kind.tokenClass = .punctuation ↔
      ∃ k : TokenKind, k.spelling? = some t.text := by
    rw [hverdict.symbol_iff, Option.isSome_iff_exists]
    simp only [symbolKind?_eq_some_iff]
  have hspelled (k : TokenKind) (hk : k.spelling? = some t.text) : t.kind = k :=
    hverdict.kind_of_symbol (symbolKind?_eq_some_iff.mpr hk)
  have hidentifier : t.kind = .identifier ↔ (∀ k : Keyword, ¬ SameWord t.text k.word) ∧
      (∀ k : TokenKind, k.spelling? ≠ some t.text) ∧ ¬ Numeral 2147483647 t.text.toList := by
    rw [hverdict.identifier_iff, Option.eq_none_iff_forall_ne_some,
      Option.eq_none_iff_forall_ne_some, ← isInteger_of_lexeme h, Bool.not_eq_true]
    simp only [ne_eq, ofText?_eq_some_iff, symbolKind?_eq_some_iff]
  exact ⟨hverdict.kind_ne_endOfFile, hkeyword, hsymbol, hspelled, hnumber, hidentifier⟩

end Lexed

/-- The kind of a token that has been lexed is told from its text, and of a text at most one of the
three readings succeeds, so that they can be tried in any order. -/
theorem tokens_classified :
    (∀ source : String, (source.length + 1 < lineBound → ∃ ts, tokenize source = .ok ts) ∧
      ∀ ts, tokenize source = .ok ts → ∀ t ∈ ts, t.Classified) ∧
    (∀ text : String, (Keyword.ofText? text).isSome.toNat + (symbolKind? text).isSome.toNat +
      (isInteger text).toNat ≤ 1) ∧
    ∀ order : List (String → Option TokenKind), order.Perm recognisers → ∀ text : String,
      (order.findSome? fun recognise => recognise text).getD .identifier = classify text := by
  refine ⟨fun source => ⟨tokenize_succeeds, fun ts h t ht => ?_⟩, fun text => ?_, fun order h => ?_⟩
  · exact classified_of_lexeme (tokenize_spelled h t ht) (tokenize_lexeme h t ht)
  · exact (verdict text).at_most_one
  · exact findSome?_of_perm h

theorem tokens_classified_signs :
    let sign : Token := ⟨.minus, "-", 0, 0, ⟨.start, ⟨1, 1, 2⟩⟩⟩
    let zeros : Token := ⟨.number, "007", 1, 3, ⟨⟨1, 1, 2⟩, ⟨4, 1, 5⟩⟩⟩
    let mark : Token := ⟨.identifier, "!", 4, 4, ⟨⟨4, 1, 5⟩, ⟨5, 1, 6⟩⟩⟩
    let word : Token := ⟨.keyword .letKw, "LeT", 5, 7, ⟨⟨5, 1, 6⟩, ⟨8, 1, 9⟩⟩⟩
    "-007!LeT".length + 1 < lineBound ∧ tokenize "-007!LeT" = .ok [sign, zeros, mark, word] ∧
      sign.Classified ∧ zeros.Classified ∧ mark.Classified ∧ word.Classified ∧
      recognisers.reverse.Perm recognisers ∧
      (recognisers.reverse.findSome? fun recognise => recognise "007").getD .identifier =
        classify "007" := by
  intro sign zeros mark word
  have hlength : "-007!LeT".length + 1 < lineBound := by decide +kernel
  have hchunks : Chunk.ofText "-007!LeT".toList =
      [.symbol ['-'], .run ['0', '0', '7'], .symbol ['!'], .run ['L', 'e', 'T']] := by
    simp [Chunk.ofText_cons, Chunk.cut, Chunk.operator, combines, isSeparator, isPunctuation,
      isOperatorLead, isPlain]
  have hsource : tokenize "-007!LeT" = .ok [sign, zeros, mark, word] := by
    rw [tokenize, hchunks]
    rfl
  obtain ⟨hlexed, -, horder⟩ := tokens_classified
  have hall := (hlexed "-007!LeT").2 _ hsource
  have hperm := List.reverse_perm recognisers
  exact ⟨hlength, hsource, hall sign (by simp), hall zeros (by simp), hall mark (by simp),
    hall word (by simp), hperm, horder _ hperm "007"⟩

end YupFront
