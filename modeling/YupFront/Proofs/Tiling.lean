import YupFront.Proofs.Lexing

/-! The tokens of a text tile it: each covers a stretch that is as long as it can be, and only
separators are left over. There is one tiling. -/

namespace YupFront

/-! The vocabulary. -/

def separators : List Char := [' ', '\n', '\r']

def punctuationMarks : List Char := ['(', ')', '{', '}', ';', '[', ']']

def operatorLeads : List Char := ['=', '<', '>', '!', '+', '-', '*', '/']

/-- Operators that an equals sign may follow. -/
def pairLeads : List Char := ['=', '>', '<', '!']

/-- Characters that have no meaning of their own. -/
def Plain (c : Char) : Prop := c ∉ separators ∧ c ∉ punctuationMarks ∧ c ∉ operatorLeads

structure IsRun (text : List Char) : Prop where
  ne_nil : text ≠ []
  plain : ∀ c ∈ text, Plain c

inductive Lexeme : List Char → Prop where
  | punctuation {c : Char} : c ∈ punctuationMarks → Lexeme [c]
  | pair {c : Char} : c ∈ pairLeads → Lexeme [c, '=']
  | operator {c : Char} : c ∈ operatorLeads → Lexeme [c]
  | run {text : List Char} : IsRun text → Lexeme text

/-- A lexeme that does not go on with the next character, if there is one. -/
structure Longest (text : List Char) (next : Option Char) : Prop where
  lexeme : Lexeme text
  run_ends : IsRun text → ∀ c, next = some c → ¬ Plain c
  operator_ends : ∀ c ∈ pairLeads, text = [c] → next ≠ some '='

section Classes

variable {c : Char}

theorem isSeparator_iff : isSeparator c = true ↔ c ∈ separators := by
  simp [isSeparator, separators, or_assoc]

theorem isPunctuation_iff : isPunctuation c = true ↔ c ∈ punctuationMarks := by
  simp [isPunctuation, punctuationMarks, or_assoc]

theorem isOperatorLead_iff : isOperatorLead c = true ↔ c ∈ operatorLeads := by
  simp [isOperatorLead, operatorLeads, or_assoc]

theorem isPlain_iff : isPlain c = true ↔ Plain c := by
  simp [isPlain, Plain, ← isSeparator_iff, ← isPunctuation_iff, ← isOperatorLead_iff, and_assoc]

theorem combines_iff {d : Char} : combines c d = true ↔ c ∈ pairLeads ∧ d = '=' := by
  simp [combines, pairLeads, or_assoc, and_comm]

theorem mem_operatorLeads_of_pairLeads : ∀ c ∈ pairLeads, c ∈ operatorLeads := by
  simp [pairLeads, operatorLeads]

theorem isSeparator_of_punctuation : ∀ c ∈ punctuationMarks, isSeparator c = false := by
  simp [punctuationMarks, isSeparator]

theorem isSeparator_of_operatorLead : ∀ c ∈ operatorLeads, isSeparator c = false := by
  simp [operatorLeads, isSeparator]

theorem isPunctuation_of_operatorLead : ∀ c ∈ operatorLeads, isPunctuation c = false := by
  simp [operatorLeads, isPunctuation]

theorem not_plain_of_punctuation (h : c ∈ punctuationMarks) : ¬ Plain c := fun hp => hp.2.1 h

theorem not_plain_of_operatorLead (h : c ∈ operatorLeads) : ¬ Plain c := fun hp => hp.2.2 h

end Classes

section Lexeme

variable {text : List Char} {c : Char}

theorem Lexeme.ne_nil (h : Lexeme text) : text ≠ [] := by
  cases h with
  | punctuation | pair | operator => simp
  | run h => exact h.ne_nil

theorem Lexeme.head_not_separator (h : Lexeme text) (hc : text.head? = some c) :
    isSeparator c = false := by
  cases h with
  | punctuation hd =>
    cases hc
    exact isSeparator_of_punctuation _ hd
  | pair hd =>
    cases hc
    exact isSeparator_of_operatorLead _ (mem_operatorLeads_of_pairLeads _ hd)
  | operator hd =>
    cases hc
    exact isSeparator_of_operatorLead _ hd
  | run h =>
    have hp := h.plain c (List.mem_of_mem_head? hc)
    simpa [← isSeparator_iff] using hp.1

theorem Lexeme.isRun_of_head (h : Lexeme text) (hc : text.head? = some c) (hp : Plain c) :
    IsRun text := by
  cases h with
  | punctuation hd =>
    cases hc
    exact absurd hp (not_plain_of_punctuation hd)
  | pair hd =>
    cases hc
    exact absurd hp (not_plain_of_operatorLead (mem_operatorLeads_of_pairLeads _ hd))
  | operator hd =>
    cases hc
    exact absurd hp (not_plain_of_operatorLead hd)
  | run h => exact h

end Lexeme

section Cut

variable {text rest cs : List Char} {c : Char}

theorem cut_operator (hc : c ∈ operatorLeads) : Chunk.cut c cs = Chunk.operator c cs := by
  simp [Chunk.cut, isSeparator_of_operatorLead _ hc, isPunctuation_of_operatorLead _ hc,
    isOperatorLead_iff.mpr hc]

theorem operator_single (h : c ∈ pairLeads → rest.head? ≠ some '=') :
    Chunk.operator c rest = (.symbol [c], rest) := by
  cases rest with
  | nil => rfl
  | cons d ds =>
    have hd : combines c d ≠ true := by
      intro hd
      obtain ⟨hc, rfl⟩ := combines_iff.mp hd
      exact h hc rfl
    rw [Chunk.operator, if_neg hd]

theorem cut_run (h : IsRun (c :: text)) (hrest : ∀ d, rest.head? = some d → ¬ Plain d) :
    Chunk.cut c (text ++ rest) = (.run (c :: text), rest) := by
  have hplain (d : Char) (hd : d ∈ c :: text) : isPlain d = true := isPlain_iff.mpr (h.plain d hd)
  have htext (d : Char) (hd : d ∈ text) : isPlain d = true := hplain d (.tail _ hd)
  have hc := hplain c (.head _)
  simp only [isPlain, Bool.and_eq_true, Bool.not_eq_true'] at hc
  obtain ⟨⟨hs, hpunct⟩, hlead⟩ := hc
  have hstop : rest.takeWhile isPlain = [] ∧ rest.dropWhile isPlain = rest := by
    cases rest with
    | nil => exact ⟨rfl, rfl⟩
    | cons d ds =>
      have hd : isPlain d = false := by simpa [← isPlain_iff] using hrest d rfl
      simp [hd]
  simp [Chunk.cut, hs, hpunct, hlead, List.takeWhile_append_of_pos htext,
    List.dropWhile_append_of_pos htext, hstop]

/-- The longest lexeme at the beginning of a text is what is cut off. -/
theorem cut_of_longest (h : Longest text rest.head?) (ht : text ++ rest = c :: cs) :
    (Chunk.cut c cs).1.text = text ∧ (Chunk.cut c cs).2 = rest := by
  obtain ⟨hl, hrun, hoperator⟩ := h
  cases hl with
  | @punctuation d hd =>
    obtain ⟨rfl, rfl⟩ := List.cons_eq_cons.mp ht
    simp [Chunk.cut, isSeparator_of_punctuation _ hd, isPunctuation_iff.mpr hd, Chunk.text]
  | @pair d hd =>
    obtain ⟨rfl, rfl⟩ := List.cons_eq_cons.mp ht
    rw [cut_operator (mem_operatorLeads_of_pairLeads _ hd)]
    simp [Chunk.operator, combines_iff.mpr ⟨hd, rfl⟩, Chunk.text]
  | @operator d hd =>
    rw [List.singleton_append] at ht
    obtain ⟨rfl, rfl⟩ := List.cons_eq_cons.mp ht
    rw [cut_operator hd, operator_single fun hp => hoperator d hp rfl]
    exact ⟨rfl, rfl⟩
  | run hr =>
    cases text with
    | nil => exact absurd rfl hr.ne_nil
    | cons d ds =>
      rw [List.cons_append] at ht
      obtain ⟨rfl, rfl⟩ := List.cons_eq_cons.mp ht
      rw [cut_run hr (hrun hr)]
      exact ⟨rfl, rfl⟩

theorem longest_of_operator (hc : c ∈ operatorLeads) :
    (Chunk.operator c cs).1.isBlank = false ∧
      Longest (Chunk.operator c cs).1.text (Chunk.operator c cs).2.head? := by
  have hrun (text : List Char) : ¬ IsRun (c :: text) := fun h =>
    not_plain_of_operatorLead hc (h.plain c (.head _))
  cases cs with
  | nil => exact ⟨rfl, .operator hc, fun h => absurd h (hrun _), fun _ _ _ h => by cases h⟩
  | cons d ds =>
    by_cases hd : combines c d = true
    · obtain ⟨hpair, rfl⟩ := combines_iff.mp hd
      rw [Chunk.operator, if_pos hd]
      exact ⟨rfl, .pair hpair, fun h => absurd h (hrun _), fun _ _ he => by cases he⟩
    · rw [Chunk.operator, if_neg hd]
      refine ⟨rfl, .operator hc, fun h => absurd h (hrun _), fun e he hce hnext => ?_⟩
      cases hce
      cases hnext
      exact hd (combines_iff.mpr ⟨he, rfl⟩)

theorem longest_of_cut (cs : List Char) (hc : isSeparator c = false) :
    (Chunk.cut c cs).1.isBlank = false ∧
      Longest (Chunk.cut c cs).1.text (Chunk.cut c cs).2.head? := by
  simp only [Chunk.cut, hc, Bool.false_eq_true, if_false]
  by_cases hpunct : isPunctuation c = true
  · rw [if_pos hpunct]
    refine ⟨rfl, .punctuation (isPunctuation_iff.mp hpunct), fun h => ?_, fun e he hce => ?_⟩
    · exact absurd (h.plain c (.head _)) (not_plain_of_punctuation (isPunctuation_iff.mp hpunct))
    · cases hce
      rw [isPunctuation_of_operatorLead _ (mem_operatorLeads_of_pairLeads _ he)] at hpunct
      cases hpunct
  · rw [if_neg hpunct]
    by_cases hlead : isOperatorLead c = true
    · rw [if_pos hlead]
      exact longest_of_operator (isOperatorLead_iff.mp hlead)
    · rw [if_neg hlead]
      have hplain : isPlain c = true := by simp [isPlain, hc, hpunct, hlead]
      refine ⟨rfl, .run ⟨by simp [Chunk.text], fun e he => ?_⟩, fun _ e he => ?_,
        fun e he hce => ?_⟩
      · rcases List.mem_cons.mp he with rfl | he
        · exact isPlain_iff.mp hplain
        · exact isPlain_iff.mp (List.all_eq_true.mp List.all_takeWhile e he)
      · have hstop := List.head?_dropWhile_not isPlain cs
        rw [he] at hstop
        simpa [← isPlain_iff] using hstop
      · obtain ⟨rfl, -⟩ := List.cons_eq_cons.mp hce
        exact absurd (isOperatorLead_iff.mpr (mem_operatorLeads_of_pairLeads _ he)) hlead

end Cut

def Token.Covers (t : Token) (i : Nat) : Prop := t.first ≤ i ∧ i ≤ t.last

/-- The tokens `ts` tile `source` from character `start` on. -/
structure TilesFrom (source : List Char) (start : Nat) (ts : List Token) : Prop where
  start_le : ∀ t ∈ ts, start ≤ t.first
  last_lt : ∀ t ∈ ts, t.first ≤ t.last ∧ t.last < source.length
  text_eq : ∀ t ∈ ts, t.text.toList = (source.drop t.first).take (t.last + 1 - t.first)
  ordered : ts.Pairwise fun t u => t.last < u.first
  gap : ∀ i c, start ≤ i → source[i]? = some c → (∀ t ∈ ts, ¬ t.Covers i) → c ∈ separators
  lexeme : ∀ t ∈ ts, Lexeme t.text.toList
  /-- Neighbours are not both runs. -/
  apart : ∀ t ∈ ts, ∀ u ∈ ts, IsRun t.text.toList → IsRun u.text.toList → u.first ≠ t.last + 1
  /-- An operator takes the equals sign behind it. -/
  paired : ∀ t ∈ ts, ∀ c ∈ pairLeads, t.text.toList = [c] → source[t.last + 1]? ≠ some '='

/-- The tokens `ts` tile the whole of `source`. -/
def Tiles (source : String) (ts : List Token) : Prop := TilesFrom source.toList 0 ts

namespace TilesFrom

variable {source : List Char} {start : Nat} {t : Token} {ts : List Token} {c : Char}

theorem head_text (h : TilesFrom source start ts) (ht : t ∈ ts) :
    t.text.toList.head? = source[t.first]? := by
  have hle := (h.last_lt t ht).1
  rw [h.text_eq t ht, List.head?_take, if_neg (by omega), List.head?_drop]

theorem length_text (h : TilesFrom source start ts) (ht : t ∈ ts) :
    t.text.toList.length = t.last + 1 - t.first := by
  obtain ⟨hle, hlt⟩ := h.last_lt t ht
  rw [h.text_eq t ht, List.length_take, List.length_drop]
  omega

theorem exists_covers (h : TilesFrom source start ts) {i : Nat} (hi : start ≤ i)
    (hc : source[i]? = some c) (hs : c ∉ separators) : ∃ t ∈ ts, t.Covers i := by
  refine Classical.byContradiction fun hn => hs (h.gap i c hi hc fun t ht hcov => hn ⟨t, ht, hcov⟩)

/-- What follows a separator is tiled as it is with the separator in front. -/
theorem separator_iff (hc : source[start]? = some c) (hs : c ∈ separators) :
    TilesFrom source start ts ↔ TilesFrom source (start + 1) ts := by
  constructor
  · intro h
    refine { h with start_le := fun t ht => ?_, gap := fun i d hi => h.gap i d (by omega) }
    refine Nat.lt_of_le_of_ne (h.start_le t ht) fun heq => ?_
    have hhead : t.text.toList.head? = some c := by rw [h.head_text ht, ← heq, hc]
    have hns := (h.lexeme t ht).head_not_separator hhead
    rw [isSeparator_iff.mpr hs] at hns
    cases hns
  · intro h
    refine { h with start_le := fun t ht => Nat.le_of_succ_le (h.start_le t ht),
                    gap := fun i d hi hd hn => ?_ }
    rcases Nat.lt_or_eq_of_le hi with hlt | rfl
    · exact h.gap i d hlt hd hn
    · rw [hc] at hd
      cases hd
      exact hs

theorem nil_iff (hend : source.length ≤ start) : TilesFrom source start ts ↔ ts = [] := by
  constructor
  · intro h
    refine List.eq_nil_iff_forall_not_mem.mpr fun t ht => ?_
    have := h.start_le t ht
    have := h.last_lt t ht
    omega
  · rintro rfl
    refine ⟨by simp, by simp, by simp, .nil, fun i c hi hc => ?_, by simp, by simp, by simp⟩
    have := (List.getElem?_eq_some_iff.mp hc).1
    omega

theorem exists_head (h : TilesFrom source start ts) (hc : source[start]? = some c)
    (hs : c ∉ separators) : ∃ t us, ts = t :: us ∧ t.first = start := by
  obtain ⟨t, ht, hfirst, -⟩ := h.exists_covers (Nat.le_refl _) hc hs
  have hle := h.start_le t ht
  cases ts with
  | nil => cases ht
  | cons v us =>
    refine ⟨v, us, rfl, ?_⟩
    rcases List.mem_cons.mp ht with rfl | ht
    · omega
    · have hlt := (List.pairwise_cons.mp h.ordered).1 t ht
      have hv := h.start_le v (.head _)
      have := (h.last_lt v (.head _)).1
      omega

theorem drop_start (h : TilesFrom source start (t :: ts)) (hfirst : t.first = start) :
    t.text.toList ++ source.drop (t.last + 1) = source.drop start := by
  have hle := (h.last_lt t (.head _)).1
  rw [h.text_eq t (.head _), ← hfirst]
  have hdrop : source.drop (t.last + 1) = (source.drop t.first).drop (t.last + 1 - t.first) := by
    rw [List.drop_drop]
    congr 1
    omega
  rw [hdrop, List.take_append_drop]

theorem longest_head (h : TilesFrom source start (t :: ts)) (hfirst : t.first = start) :
    Longest t.text.toList source[t.last + 1]? := by
  refine ⟨h.lexeme t (.head _), fun hrun c hc hp => ?_, h.paired t (.head _)⟩
  have hle := (h.last_lt t (.head _)).1
  obtain ⟨u, hu, hcov⟩ := h.exists_covers (by omega) hc hp.1
  rcases List.mem_cons.mp hu with rfl | hmem
  · exact absurd hcov.2 (by omega)
  · have hlt := (List.pairwise_cons.mp h.ordered).1 u hmem
    have hnext : u.first = t.last + 1 := by
      have := hcov.1
      omega
    have hhead : u.text.toList.head? = some c := by rw [h.head_text hu, hnext, hc]
    exact h.apart t (.head _) u hu hrun ((h.lexeme u hu).isRun_of_head hhead hp) hnext

theorem tail (h : TilesFrom source start (t :: ts)) (hfirst : t.first = start) :
    TilesFrom source (t.last + 1) ts where
  start_le u hu := (List.pairwise_cons.mp h.ordered).1 u hu
  last_lt u hu := h.last_lt u (.tail _ hu)
  text_eq u hu := h.text_eq u (.tail _ hu)
  ordered := (List.pairwise_cons.mp h.ordered).2
  gap i c hi hc hn := by
    have hle := (h.last_lt t (.head _)).1
    refine h.gap i c (by omega) hc fun u hu => ?_
    rcases List.mem_cons.mp hu with rfl | hu
    · exact fun hcov => absurd hcov.2 (by omega)
    · exact hn u hu
  lexeme u hu := h.lexeme u (.tail _ hu)
  apart u hu v hv := h.apart u (.tail _ hu) v (.tail _ hv)
  paired u hu := h.paired u (.tail _ hu)

/-- A run right behind a run would begin with a character that the first would have taken. -/
theorem apart_head (hlong : Longest t.text.toList source[t.last + 1]?)
    (h : TilesFrom source start ts) (ht : IsRun t.text.toList) {u : Token} (hu : u ∈ ts)
    (hr : IsRun u.text.toList) : u.first ≠ t.last + 1 := by
  intro heq
  obtain ⟨c, cs, hcs⟩ := List.exists_cons_of_ne_nil hr.ne_nil
  have hhead := h.head_text hu
  rw [hcs, heq] at hhead
  exact hlong.run_ends ht c hhead.symm (hr.plain c (by simp [hcs]))

theorem cons (hfirst : t.first = start) (hlast : t.first ≤ t.last ∧ t.last < source.length)
    (htext : t.text.toList = (source.drop t.first).take (t.last + 1 - t.first))
    (hlong : Longest t.text.toList source[t.last + 1]?) (h : TilesFrom source (t.last + 1) ts) :
    TilesFrom source start (t :: ts) where
  start_le u hu := by
    rcases List.mem_cons.mp hu with rfl | hu
    · omega
    · have := h.start_le u hu
      omega
  last_lt := List.forall_mem_cons.mpr ⟨hlast, h.last_lt⟩
  text_eq := List.forall_mem_cons.mpr ⟨htext, h.text_eq⟩
  ordered := List.pairwise_cons.mpr ⟨fun u hu => h.start_le u hu, h.ordered⟩
  gap i c hi hc hn := by
    have hnt := hn t (.head _)
    refine h.gap i c ?_ hc fun u hu => hn u (.tail _ hu)
    unfold Token.Covers at hnt
    omega
  lexeme := List.forall_mem_cons.mpr ⟨hlong.lexeme, h.lexeme⟩
  apart := by
    intro u hu v hv hru hrv
    rcases List.mem_cons.mp hu with rfl | hu' <;> rcases List.mem_cons.mp hv with rfl | hv'
    · omega
    · exact h.apart_head hlong hru hv' hrv
    · have := h.start_le u hu'
      have := (h.last_lt u hu').1
      omega
    · exact h.apart u hu' v hv' hru hrv
  paired := List.forall_mem_cons.mpr ⟨hlong.operator_ends, h.paired⟩

end TilesFrom

section First

variable {source text rest : List Char} {start : Nat} {ts : List Token}

/-- The first of some tokens that tile a text, if the text begins with a lexeme that is as long as
it can be. -/
theorem exists_first (hlong : Longest text rest.head?) (htext : source.drop start = text ++ rest)
    (h : TilesFrom source start ts) : ∃ t us, ts = t :: us ∧
      t.place = (String.ofList text, start, start + (text.length - 1)) ∧
      TilesFrom source (start + text.length) us := by
  obtain ⟨c, cs, rfl⟩ := List.exists_cons_of_ne_nil hlong.lexeme.ne_nil
  have hc : source[start]? = some c := by
    rw [← List.head?_drop, htext, List.cons_append, List.head?_cons]
  have hs := hlong.lexeme.head_not_separator (List.head?_cons ..)
  obtain ⟨t, us, rfl, hfirst⟩ := h.exists_head hc (by simp [← isSeparator_iff, hs])
  have hsame : t.text.toList ++ source.drop (t.last + 1) = c :: (cs ++ rest) := by
    rw [h.drop_start hfirst, htext, List.cons_append]
  have hhead : Longest t.text.toList (source.drop (t.last + 1)).head? := by
    rw [List.head?_drop]
    exact h.longest_head hfirst
  have heq : t.text.toList = c :: cs :=
    (cut_of_longest hhead hsame).1.symm.trans (cut_of_longest hlong (List.cons_append ..)).1
  have hlen := h.length_text (.head _)
  have hle := (h.last_lt t (.head _)).1
  rw [heq] at hlen
  have hnext : t.last + 1 = start + (c :: cs).length := by omega
  refine ⟨t, us, rfl, ?_, hnext ▸ h.tail hfirst⟩
  rw [Token.place, ← heq, String.ofList_toList, hfirst]
  congr 2
  rw [heq]
  omega

theorem tilesFrom_cons (hlong : Longest text rest.head?) (htext : source.drop start = text ++ rest)
    {t : Token} (hplace : t.place = (String.ofList text, start, start + (text.length - 1)))
    (h : TilesFrom source (start + text.length) ts) : TilesFrom source start (t :: ts) := by
  rw [Token.place, Prod.mk.injEq, Prod.mk.injEq] at hplace
  obtain ⟨hword, hfirst, hlast⟩ := hplace
  have hlist : t.text.toList = text := by rw [hword, String.toList_ofList]
  have hpos := List.length_pos_iff.mpr hlong.lexeme.ne_nil
  have hnext : start + text.length = t.last + 1 := by omega
  have hdrop : source.drop (t.last + 1) = rest := by
    rw [← hnext, ← List.drop_drop, htext, List.drop_left]
  have hlength : source.length - start = text.length + rest.length := by
    rw [← List.length_drop, htext, List.length_append]
  have hsize : t.last + 1 - t.first = text.length := by omega
  rw [hnext] at h
  refine .cons hfirst ⟨by omega, by omega⟩ ?_ ?_ h
  · rw [hsize, hfirst, htext, List.take_left, hlist]
  · rw [hlist, ← List.head?_drop, hdrop]
    exact hlong

end First

/-- Tokens tile a text exactly if they are where the chunks of the text are. -/
theorem tilesFrom_iff {source rest : List Char} {start : Nat} (hrest : source.drop start = rest)
    {ts : List Token} :
    TilesFrom source start ts ↔ ts.map Token.place = placesFrom start (Chunk.ofText rest) := by
  induction rest using Chunk.induction generalizing start ts with
  | nil =>
    rw [TilesFrom.nil_iff (List.drop_eq_nil_iff.mp hrest), Chunk.ofText_nil, placesFrom,
      List.map_eq_nil_iff]
  | cons c cs ih =>
    have hc : source[start]? = some c := by
      rw [← List.head?_drop, hrest, List.head?_cons]
    rw [Chunk.ofText_cons, placesFrom]
    by_cases hs : isSeparator c = true
    · have hcut : Chunk.cut c cs = (.blank c, cs) := by rw [Chunk.cut, if_pos hs]
      have hdrop : source.drop (start + 1) = cs := by rw [← List.tail_drop, hrest, List.tail_cons]
      rw [hcut] at ih ⊢
      rw [TilesFrom.separator_iff hc (isSeparator_iff.mp hs), ih hdrop]
      rfl
    · have hs : isSeparator c = false := by simpa using hs
      obtain ⟨hb, hlong⟩ := longest_of_cut cs hs
      have htext : source.drop start = (Chunk.cut c cs).1.text ++ (Chunk.cut c cs).2 := by
        rw [hrest, Chunk.cut_text]
      have hdrop : source.drop (start + (Chunk.cut c cs).1.text.length) = (Chunk.cut c cs).2 := by
        rw [← List.drop_drop, htext, List.drop_left]
      rw [hb, if_neg Bool.false_ne_true, List.map_eq_cons_iff]
      constructor
      · intro h
        obtain ⟨t, us, rfl, hplace, hus⟩ := exists_first hlong htext h
        exact ⟨t, us, rfl, hplace, (ih hdrop).mp hus⟩
      · rintro ⟨t, us, rfl, hplace, hus⟩
        exact tilesFrom_cons hlong htext hplace ((ih hdrop).mpr hus)

/-- The tokens of a text tile it, and no other tokens do. -/
theorem tokenize_tiles (source : String) :
    (source.length + 1 < lineBound → ∃ ts, tokenize source = .ok ts) ∧
    ∀ ts, tokenize source = .ok ts →
      Tiles source ts ∧ ∀ us, Tiles source us → us.map Token.place = ts.map Token.place := by
  refine ⟨tokenize_succeeds, fun ts h => ⟨?_, fun us hus => ?_⟩⟩
  · exact (tilesFrom_iff rfl).mpr (tokenize_place h)
  · rw [tokenize_place h]
    exact (tilesFrom_iff rfl).mp hus

theorem tokenize_tiles_pair :
    let a : Token := ⟨.identifier, "a", 0, 0, ⟨.start, ⟨1, 1, 2⟩⟩⟩
    let le : Token := ⟨.lessEqual, "<=", 1, 2, ⟨⟨1, 1, 2⟩, ⟨3, 1, 4⟩⟩⟩
    "a<=".length + 1 < lineBound ∧ (∃ ts, tokenize "a<=" = .ok ts) ∧
      tokenize "a<=" = .ok [a, le] ∧ Tiles "a<=" [a, le] ∧
      ∀ us, Tiles "a<=" us → us.map Token.place = [("a", 0, 0), ("<=", 1, 2)] := by
  have hlength : "a<=".length + 1 < lineBound := by decide +kernel
  have hchunks : Chunk.ofText "a<=".toList = [.run ['a'], .symbol ['<', '=']] := by
    simp [Chunk.ofText_cons, Chunk.cut, Chunk.operator, combines, isSeparator, isPunctuation,
      isOperatorLead, isPlain]
  have hsource : tokenize "a<=" = .ok [⟨.identifier, "a", 0, 0, ⟨.start, ⟨1, 1, 2⟩⟩⟩,
      ⟨.lessEqual, "<=", 1, 2, ⟨⟨1, 1, 2⟩, ⟨3, 1, 4⟩⟩⟩] := by
    rw [tokenize, hchunks]
    rfl
  obtain ⟨hok, htiles⟩ := tokenize_tiles "a<="
  exact ⟨hlength, hok hlength, hsource, htiles _ hsource⟩

end YupFront
