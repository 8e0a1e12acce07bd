import Mathlib.Data.List.Chain
import YupFront.Proofs.Excerpts
import YupFront.Proofs.Payload
import YupFront.Proofs.Spelling

/-! Lexemes survive layout: with separators in front, between and behind they are found again, if
neighbours that would merge are kept apart. What a parse says of them is the same in every
layout. -/

namespace YupFront

namespace Chunk

/-- The texts of the chunks that are not separators. -/
def words (cs : List Char) : List (List Char) :=
  ((ofText cs).filter fun chunk => !chunk.isBlank).map text

theorem words_nil : words [] = [] := by simp [words]

theorem words_separator {c : Char} (h : c ∈ separators) (cs : List Char) :
    words (c :: cs) = words cs := by
  have hcut : cut c cs = (blank c, cs) := by rw [cut, if_pos (isSeparator_iff.mpr h)]
  simp [words, ofText_cons, hcut, isBlank]

theorem words_separators {gap : List Char} (h : ∀ c ∈ gap, c ∈ separators) (cs : List Char) :
    words (gap ++ cs) = words cs := by
  induction gap with
  | nil => rfl
  | cons c gap ih =>
    obtain ⟨hc, hgap⟩ := List.forall_mem_cons.mp h
    rw [List.cons_append, words_separator hc, ih hgap]

/-- A lexeme is the first word of a text exactly if it is as long as it can be. -/
theorem words_lexeme_iff {text rest : List Char} (h : Lexeme text) (ws : List (List Char)) :
    words (text ++ rest) = text :: ws ↔ Longest text rest.head? ∧ words rest = ws := by
  obtain ⟨c, cs, rfl⟩ := List.exists_cons_of_ne_nil h.ne_nil
  obtain ⟨hblank, hlong⟩ := longest_of_cut (cs ++ rest) (h.head_not_separator (List.head?_cons ..))
  have htext := cut_text c (cs ++ rest)
  have hwords : words (c :: cs ++ rest) =
      (cut c (cs ++ rest)).1.text :: words (cut c (cs ++ rest)).2 := by
    simp [words, ofText_cons, hblank]
  rw [hwords, List.cons.injEq]
  constructor
  · rintro ⟨hfirst, hws⟩
    rw [hfirst] at htext hlong
    have hrest : (cut c (cs ++ rest)).2 = rest := List.append_cancel_left htext
    rw [hrest] at hlong hws
    exact ⟨hlong, hws⟩
  · rintro ⟨hlongest, hws⟩
    obtain ⟨hfirst, hrest⟩ := cut_of_longest hlongest (List.cons_append ..)
    rw [hfirst, hrest]
    exact ⟨rfl, hws⟩

end Chunk

/-! The words of a text are the texts of its tokens. -/

theorem placesFrom_words (index : Nat) (chunks : List Chunk) :
    (placesFrom index chunks).map (fun p => p.1.toList) =
      (chunks.filter fun chunk => !chunk.isBlank).map Chunk.text := by
  induction chunks generalizing index with
  | nil => rfl
  | cons chunk rest ih =>
    rw [placesFrom]
    by_cases hb : chunk.isBlank = true
    · simp [hb, ih]
    · simp [hb, ih]

theorem tokenize_words {source : String} {ts : List Token} (h : tokenize source = .ok ts) :
    ts.map (fun t => t.text.toList) = Chunk.words source.toList := by
  have hplaces := congrArg (List.map fun p => p.1.toList) (tokenize_place h)
  rw [placesFrom_words, List.map_map] at hplaces
  exact hplaces

theorem placeAll_spelled {done ts : List Token} {index : Nat} {position : Position}
    {chunks : List Chunk} (hdone : Token.Spelled done)
    (h : placeAll done index position chunks = .ok ts) : Token.Spelled ts := by
  induction chunks generalizing done index position with
  | nil =>
    cases h
    intro t ht
    exact hdone t (List.mem_reverse.mp ht)
  | cons chunk rest ih =>
    obtain ⟨-, hrest⟩ := placeAll_cons h
    have htokens : Token.Spelled (chunk.tokens index position) := by
      by_cases hb : chunk.isBlank = true
      · simp [Chunk.tokens, hb]
      · simp [Chunk.tokens, hb]
    exact ih (Token.spelled_append.mpr ⟨htokens, hdone⟩) hrest

theorem tokenize_spelled {source : String} {ts : List Token} (h : tokenize source = .ok ts) :
    Token.Spelled ts :=
  placeAll_spelled (by simp [Token.Spelled]) h

/-! Layouts. -/

/-- Nothing but separators, and perhaps nothing at all. -/
def IsGap (gap : String) : Prop := ∀ c ∈ gap.toList, c ∈ separators

/-- Without a separator between them the second would be taken for a part of the first. -/
def Merges (x y : List Char) : Prop :=
  (IsRun x ∧ IsRun y) ∨ ∃ c ∈ pairLeads, x = [c] ∧ y.head? = some '='

/-- A lexeme and what separates it from the next. -/
structure Spaced where
  text : String
  gap : String
deriving DecidableEq, Repr

namespace Spaced

structure WellFormed (x : Spaced) : Prop where
  lexeme : Lexeme x.text.toList
  gap : IsGap x.gap

def Apart (x y : Spaced) : Prop := x.gap = "" → ¬ Merges x.text.toList y.text.toList

end Spaced

-- The characters of a text are decided one by one, not by an instance that tries all characters.
instance (gap : String) : Decidable (IsGap gap) :=
  List.decidableBAll (· ∈ separators) gap.toList

instance (c : Char) : Decidable (Plain c) :=
  inferInstanceAs (Decidable (c ∉ separators ∧ c ∉ punctuationMarks ∧ c ∉ operatorLeads))

theorem isRun_iff {text : List Char} : IsRun text ↔ text ≠ [] ∧ ∀ c ∈ text, Plain c :=
  ⟨fun h => ⟨h.ne_nil, h.plain⟩, fun h => ⟨h.1, h.2⟩⟩

instance (text : List Char) : Decidable (IsRun text) :=
  have := List.decidableBAll Plain text
  decidable_of_iff' _ isRun_iff

theorem lexeme_iff {text : List Char} : Lexeme text ↔
    (∃ c ∈ punctuationMarks, text = [c]) ∨ (∃ c ∈ pairLeads, text = [c, '=']) ∨
      (∃ c ∈ operatorLeads, text = [c]) ∨ IsRun text := by
  constructor
  · intro h
    cases h with
    | punctuation hc => exact .inl ⟨_, hc, rfl⟩
    | pair hc => exact .inr (.inl ⟨_, hc, rfl⟩)
    | operator hc => exact .inr (.inr (.inl ⟨_, hc, rfl⟩))
    | run h => exact .inr (.inr (.inr h))
  · rintro (⟨c, hc, rfl⟩ | ⟨c, hc, rfl⟩ | ⟨c, hc, rfl⟩ | h)
    · exact .punctuation hc
    · exact .pair hc
    · exact .operator hc
    · exact .run h

instance (text : List Char) : Decidable (Lexeme text) :=
  have := List.decidableBEx (fun c => text = [c]) punctuationMarks
  have := List.decidableBEx (fun c => text = [c, '=']) pairLeads
  have := List.decidableBEx (fun c => text = [c]) operatorLeads
  decidable_of_iff' _ lexeme_iff

instance (x : Spaced) : Decidable x.WellFormed :=
  decidable_of_iff (Lexeme x.text.toList ∧ IsGap x.gap) ⟨fun h => ⟨h.1, h.2⟩, fun h => ⟨h.1, h.2⟩⟩

instance (x y : List Char) : Decidable (Merges x y) :=
  have := List.decidableBEx (fun c => x = [c] ∧ y.head? = some '=') pairLeads
  inferInstanceAs (Decidable ((IsRun x ∧ IsRun y) ∨ ∃ c ∈ pairLeads, x = [c] ∧ y.head? = some '='))

instance (x y : Spaced) : Decidable (x.Apart y) :=
  inferInstanceAs (Decidable (x.gap = "" → ¬ Merges x.text.toList y.text.toList))

def layOut (lead : String) : List Spaced → String
  | [] => lead
  | x :: rest => lead ++ x.text ++ layOut x.gap rest

section Layout

variable {x y rest : List Char} {lead gap : String} {parts : List Spaced}

theorem longest_before_separator (h : Lexeme x) {c : Char} (hc : c ∈ separators) :
    Longest x (some c) := by
  have hequals : c ≠ '=' := by
    rintro rfl
    simp [separators] at hc
  refine ⟨h, fun _ d hd hp => ?_, fun _ _ _ hd => hequals (Option.some.inj hd)⟩
  rw [← Option.some.inj hd] at hp
  exact hp.1 hc

theorem longest_at_end (h : Lexeme x) : Longest x none := by
  refine ⟨h, fun _ _ hd => ?_, fun _ _ _ hd => ?_⟩
  · cases hd
  · cases hd

theorem longest_iff_not_merges (hx : Lexeme x) (hy : Lexeme y) :
    Longest x (y ++ rest).head? ↔ ¬ Merges x y := by
  have hhead : (y ++ rest).head? = y.head? := List.head?_append_of_ne_nil y hy.ne_nil
  rw [hhead]
  constructor
  · rintro h (⟨hrun, hrun'⟩ | ⟨c, hc, htext, hnext⟩)
    · obtain ⟨d, ds, rfl⟩ := List.exists_cons_of_ne_nil hrun'.ne_nil
      exact h.run_ends hrun d rfl (hrun'.plain d (.head _))
    · exact h.operator_ends c hc htext hnext
  · intro h
    refine ⟨hx, fun hrun d hd hp => ?_, fun c hc htext hnext => ?_⟩
    · exact h (.inl ⟨hrun, hy.isRun_of_head hd hp⟩)
    · exact h (.inr ⟨c, hc, htext, hnext⟩)

theorem longest_layOut_iff (hx : Lexeme x) (hgap : IsGap gap) (hparts : ∀ p ∈ parts, p.WellFormed) :
    Longest x (layOut gap parts).toList.head? ↔
      ∀ p ∈ parts.head?, gap = "" → ¬ Merges x p.text.toList := by
  by_cases hg : gap = ""
  · subst hg
    cases parts with
    | nil => simpa [layOut] using longest_at_end hx
    | cons p parts =>
      have hy := (hparts p (.head _)).lexeme
      have htext : (layOut "" (p :: parts)).toList =
          p.text.toList ++ (layOut p.gap parts).toList := by
        simp [layOut]
      rw [htext, longest_iff_not_merges hx hy]
      simp
  · obtain ⟨c, cs, hc⟩ := List.exists_cons_of_ne_nil (mt String.toList_eq_nil_iff.mp hg)
    have hhead : (layOut gap parts).toList.head? = some c := by
      cases parts <;> simp [layOut, hc]
    have hsep : c ∈ separators := hgap c (by simp [hc])
    rw [hhead]
    exact iff_of_true (longest_before_separator hx hsep) fun _ _ h => absurd h hg

/-- The lexemes are the words of the layout exactly if none of them merges with the next. -/
theorem words_layOut_iff (hlead : IsGap lead) (hparts : ∀ p ∈ parts, p.WellFormed) :
    Chunk.words (layOut lead parts).toList = parts.map (fun p => p.text.toList) ↔
      parts.IsChain Spaced.Apart := by
  induction parts generalizing lead with
  | nil =>
    have hnone : Chunk.words (lead.toList ++ []) = [] := by
      rw [Chunk.words_separators hlead, Chunk.words_nil]
    rw [List.append_nil] at hnone
    exact iff_of_true hnone .nil
  | cons p parts ih =>
    obtain ⟨hp, hrest⟩ := List.forall_mem_cons.mp hparts
    have htext : (layOut lead (p :: parts)).toList =
        lead.toList ++ (p.text.toList ++ (layOut p.gap parts).toList) := by
      simp [layOut]
    rw [htext, Chunk.words_separators hlead, List.map_cons, Chunk.words_lexeme_iff hp.lexeme,
      longest_layOut_iff hp.lexeme hp.gap hrest, ih hp.gap hrest, List.isChain_cons]
    rfl

end Layout

/-! What is left of a token without its place. -/

def Token.content (t : Token) : TokenKind × String := (t.kind, t.text)

def contentOf (text : String) : TokenKind × String := (classify text, text)

section Content

variable {source : String} {ts us : List Token} {texts : List String}

theorem Token.Spelled.map_content (h : Token.Spelled ts) :
    ts.map Token.content = (ts.map Token.text).map contentOf := by
  rw [List.map_map]
  refine List.map_congr_left fun t ht => ?_
  simp [Token.content, contentOf, h t ht]

theorem map_contentOf_injective {texts texts' : List String}
    (h : texts.map contentOf = texts'.map contentOf) : texts = texts' := by
  have htexts := congrArg (List.map Prod.snd) h
  simpa [contentOf, Function.comp_def] using htexts

theorem tokenize_content_iff (h : tokenize source = .ok ts) :
    ts.map Token.content = texts.map contentOf ↔
      Chunk.words source.toList = texts.map String.toList := by
  have hwords := tokenize_words h
  rw [(tokenize_spelled h).map_content, ← hwords, ← Function.comp_def, ← List.map_map]
  constructor
  · intro hcontent
    rw [map_contentOf_injective hcontent]
  · intro hlists
    rw [List.map_injective_iff.mpr (fun _ _ => String.toList_inj.mp) hlists]

/-- Texts with a space between neighbours. -/
def spaced : List String → List Spaced
  | [] => []
  | [text] => [⟨text, ""⟩]
  | text :: next :: rest => ⟨text, " "⟩ :: spaced (next :: rest)

theorem map_text_spaced (texts : List String) : (spaced texts).map Spaced.text = texts := by
  induction texts using spaced.induct with
  | case1 => rfl
  | case2 => rfl
  | case3 text next rest ih => rw [spaced, List.map_cons, ih]

theorem layOut_spaced (texts : List String) :
    (layOut "" (spaced texts)).toList = (String.intercalate " " texts).toList := by
  rw [String.toList_intercalate]
  induction texts using spaced.induct with
  | case1 => rfl
  | case2 => simp [spaced, layOut]
  | case3 text next rest ih =>
    rw [List.map_cons, List.map_cons, List.intercalate_cons_cons, ← List.map_cons, ← ih]
    cases rest <;> simp [spaced, layOut]

theorem spaced_wellFormed (h : ∀ text ∈ texts, Lexeme text.toList) :
    ∀ p ∈ spaced texts, p.WellFormed := by
  have hempty : IsGap "" := by simp [IsGap]
  have hspace : IsGap " " := by simp [IsGap, separators]
  induction texts using spaced.induct with
  | case1 => simp [spaced]
  | case2 text => exact List.forall_mem_singleton.mpr ⟨h text (.head _), hempty⟩
  | case3 text next rest ih =>
    obtain ⟨htext, hrest⟩ := List.forall_mem_cons.mp h
    exact List.forall_mem_cons.mpr ⟨⟨htext, hspace⟩, ih hrest⟩

theorem spaced_apart (texts : List String) : (spaced texts).IsChain Spaced.Apart := by
  induction texts using spaced.induct with
  | case1 => exact .nil
  | case2 => exact .singleton _
  | case3 text next rest ih =>
    refine List.isChain_cons.mpr ⟨fun _ _ hgap => ?_, ih⟩
    simp at hgap

theorem words_intercalate (h : ∀ text ∈ texts, Lexeme text.toList) :
    Chunk.words (String.intercalate " " texts).toList = texts.map String.toList := by
  have hlead : IsGap "" := by simp [IsGap]
  have hwords := (words_layOut_iff hlead (spaced_wellFormed h)).mpr (spaced_apart texts)
  rw [layOut_spaced] at hwords
  rw [hwords, ← Function.comp_def, ← List.map_map, map_text_spaced]

end Content

/-! A parse of other tokens with the same contents. -/

def KeepsContent (f : Token → Token) : Prop := ∀ t, (f t).content = t.content

theorem KeepsContent.keepsKinds {f : Token → Token} (h : KeepsContent f) : KeepsKinds f :=
  fun t => congrArg Prod.fst (h t)

theorem KeepsContent.text_eq {f : Token → Token} (h : KeepsContent f) (t : Token) :
    (f t).text = t.text :=
  congrArg Prod.snd (h t)

theorem exists_keepsContent {ts us : List Token} (hts : ts.Nodup)
    (h : us.map Token.content = ts.map Token.content) :
    ∃ f, KeepsContent f ∧ ts.map f = us := by
  induction ts generalizing us with
  | nil => exact ⟨id, fun _ => rfl, (List.map_eq_nil_iff.mp h).symm⟩
  | cons t ts ih =>
    obtain ⟨u, us, rfl, hu, hus⟩ := List.map_eq_cons_iff.mp h
    obtain ⟨hmem, hnodup⟩ := List.nodup_cons.mp hts
    obtain ⟨f, hf, hmap⟩ := ih hnodup hus
    -- No token occurs twice, so the first can be replaced apart from the others.
    refine ⟨fun x => if x = t then u else f x, fun x => ?_, ?_⟩
    · by_cases hx : x = t
      · simpa [hx] using hu
      · simpa [hx] using hf x
    · have hrest : ts.map (fun x => if x = t then u else f x) = ts.map f := by
        refine List.map_congr_left fun x hx => ?_
        have hne : x ≠ t := fun heq => hmem (heq ▸ hx)
        simp [hne]
      rw [List.map_cons, hrest, hmap]
      simp

namespace AnchoredTree

mutual

theorem shape_grow {f : Token → Token} (h : KeepsContent f) :
    ∀ tree : AnchoredTree, (tree.grow f).shape = (tree.grow id).shape
  | root statements => by
    rw [grow, grow, Node.shape_root, Node.shape_root, shape_growAll h statements]
  | interior kind anchor children => by
    rw [grow, grow, Node.shape_interior, Node.shape_interior, List.filterMap_map,
      List.filterMap_map]
    have hall := shape_growAll h children
    simpa [Function.comp_def] using hall
  | leaf kind anchor => by
    rw [grow, grow, Node.shape_leaf, Node.shape_leaf, h.text_eq anchor]
    rfl

theorem shape_growAll {f : Token → Token} (h : KeepsContent f) :
    ∀ trees : List AnchoredTree,
      (growAll f trees).map Node.shape = (growAll id trees).map Node.shape
  | [] => rfl
  | tree :: trees => by
    rw [growAll, growAll, List.map_cons, List.map_cons, shape_grow h tree, shape_growAll h trees]

end

end AnchoredTree

/-- What a diagnostic says, wherever it is. -/
def Diagnostic.told (d : Diagnostic) : Code × String := (d.code, d.message)

theorem Finding.told_map {f : Token → Token} (h : KeepsContent f) (x : Finding)
    (mode mode' : PositionMode) :
    ((x.map f).diagnostic mode').told = (x.diagnostic mode).told := by
  have htext := h.text_eq x.anchor.token
  simp [Finding.diagnostic, Diagnostic.told, Finding.map, Anchor.map, htext]

theorem tokenize_nodup {source : String} {ts : List Token} (h : tokenize source = .ok ts) :
    ts.Nodup := by
  have htiles : TilesFrom source.toList 0 ts := (tilesFrom_iff rfl).mpr (tokenize_place h)
  refine htiles.ordered.imp_of_mem fun {t u} ht _ hlt heq => ?_
  have hle := (htiles.last_lt t ht).1
  rw [← heq] at hlt
  omega

theorem parse_alike {source : String} {ts us : List Token} (hts : tokenize source = .ok ts)
    (h : us.map Token.content = ts.map Token.content) :
    ∃ p q, parse ts = .ok p ∧ parse us = .ok q ∧ q.tree.shape = p.tree.shape ∧
      ∀ mode mode', (q.diagnostics mode').map Diagnostic.told =
        (p.diagnostics mode).map Diagnostic.told := by
  obtain ⟨f, hf, rfl⟩ := exists_keepsContent (tokenize_nodup hts) h
  obtain ⟨tree, findings, hparse⟩ := exists_parses ts
  have hid := hparse id keepsKinds_id
  rw [List.map_id, show findings.map (Finding.map id) = findings from List.map_id _] at hid
  refine ⟨_, _, hid, hparse f hf.keepsKinds, AnchoredTree.shape_grow hf tree, fun mode mode' => ?_⟩
  rw [Parsed.diagnostics, Parsed.diagnostics, List.map_map, List.map_map, List.map_map]
  exact List.map_congr_left fun x _ => x.told_map hf mode mode'

/-- Lexemes are found again in every layout that keeps apart neighbours that would merge, and in no
other. A layout with single spaces is one of them, so each source has the tokens of its own words.
Tokens that differ in layout only have trees of one shape and are told the same. -/
theorem tokens_survive_layout :
    (∀ (lead : String) (parts : List Spaced), IsGap lead → (∀ p ∈ parts, p.WellFormed) →
      ((layOut lead parts).length + 1 < lineBound → ∃ ts, tokenize (layOut lead parts) = .ok ts) ∧
      ∀ ts, tokenize (layOut lead parts) = .ok ts →
        (ts.map Token.content = (parts.map Spaced.text).map contentOf ↔
          parts.IsChain Spaced.Apart)) ∧
    (∀ (source : String) (ts : List Token), tokenize source = .ok ts →
      let joined := String.intercalate " " (ts.map Token.text)
      (joined.length + 1 < lineBound → ∃ us, tokenize joined = .ok us) ∧
      ∀ us, tokenize joined = .ok us → us.map Token.content = ts.map Token.content) ∧
    (∀ (source : String) (ts us : List Token), tokenize source = .ok ts →
      us.map Token.content = ts.map Token.content →
      ∃ p q, parse ts = .ok p ∧ parse us = .ok q ∧ q.tree.shape = p.tree.shape ∧
        ∀ mode mode', (q.diagnostics mode').map Diagnostic.told =
          (p.diagnostics mode).map Diagnostic.told) := by
  refine ⟨fun lead parts hlead hparts => ⟨tokenize_succeeds, fun ts h => ?_⟩,
    fun source ts h => ⟨tokenize_succeeds, fun us hus => ?_⟩,
    fun source ts us hts hcontent => parse_alike hts hcontent⟩
  · rw [tokenize_content_iff h, List.map_map]
    exact words_layOut_iff hlead hparts
  · have hlexeme : ∀ text ∈ ts.map Token.text, Lexeme text.toList :=
      List.forall_mem_map.mpr (tokenize_lexeme h)
    rw [(tokenize_spelled h).map_content, tokenize_content_iff hus]
    exact words_intercalate hlexeme

theorem tokens_survive_layout_equals :
    let parts : List Spaced := [⟨"x", ""⟩, ⟨"=", " "⟩, ⟨"=", ""⟩, ⟨"7", "\r\n"⟩]
    IsGap "\n" ∧ (∀ p ∈ parts, p.WellFormed) ∧ parts.IsChain Spaced.Apart ∧
      layOut "\n" parts = "\nx= =7\r\n" ∧
      ∃ ts us p q, tokenize "\nx= =7\r\n" = .ok ts ∧ tokenize "x = = 7" = .ok us ∧
        ts.map Token.content =
          [(.identifier, "x"), (.assign, "="), (.assign, "="), (.number, "7")] ∧
        us.map Token.content = ts.map Token.content ∧
        parse ts = .ok p ∧ parse us = .ok q ∧ q.tree.shape = p.tree.shape := by
  intro parts
  have hlead : IsGap "\n" := by decide +kernel
  have hparts : ∀ p ∈ parts, p.WellFormed := by
    intro p hp
    simp only [parts, List.mem_cons, List.not_mem_nil, or_false] at hp
    rcases hp with rfl | rfl | rfl | rfl <;> exact ⟨by decide +kernel, by decide +kernel⟩
  have hapart : parts.IsChain Spaced.Apart := by
    have hfirst : Spaced.Apart ⟨"x", ""⟩ ⟨"=", " "⟩ := by decide +kernel
    have hsecond : Spaced.Apart ⟨"=", " "⟩ ⟨"=", ""⟩ := by decide +kernel
    have hthird : Spaced.Apart ⟨"=", ""⟩ ⟨"7", "\r\n"⟩ := by decide +kernel
    simp [parts, hfirst, hsecond, hthird]
  have hlayout : layOut "\n" parts = "\nx= =7\r\n" := by simp [parts, layOut]
  obtain ⟨hlayouts, hjoins, hparses⟩ := tokens_survive_layout
  obtain ⟨hbounded, hcontent⟩ := hlayouts "\n" parts hlead hparts
  rw [hlayout] at hbounded hcontent
  obtain ⟨ts, hts⟩ := hbounded (by decide +kernel)
  have htexts := (hcontent ts hts).mpr hapart
  have hwords : ts.map Token.text = ["x", "=", "=", "7"] := by
    have := congrArg (List.map Prod.snd) htexts
    simpa [Token.content, contentOf, Function.comp_def, parts] using this
  obtain ⟨hjoined, hsame⟩ := hjoins _ ts hts
  have hjoin : String.intercalate " " (ts.map Token.text) = "x = = 7" := by
    rw [hwords]
    decide +kernel
  rw [hjoin] at hjoined hsame
  obtain ⟨us, hus⟩ := hjoined (by decide +kernel)
  obtain ⟨p, q, hp, hq, hshape, -⟩ := hparses _ ts us hts (hsame us hus)
  refine ⟨hlead, hparts, hapart, hlayout, ts, us, p, q, hts, hus, ?_, hsame us hus, hp, hq, hshape⟩
  rw [htexts]
  decide +kernel

end YupFront
