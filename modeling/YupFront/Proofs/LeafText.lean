import YupFront.Proofs.TreeShape
import YupFront.Proofs.Layout
import YupFront.Tree.Render

/-! Texts in a printed tree. A text that ends where a character of another sort begins is told from
what follows it, so a name is told from a value, and a value that lacks its closing mark from the
rest. The values of a tree that has been parsed are lexemes, and lack all such marks. -/

namespace YupFront

/-- Two texts of one sort are the same if what follows each of them begins with another sort. -/
theorem append_inj_of_stops {p : Char → Bool} {as bs xs ys : List Char}
    (has : ∀ c ∈ as, p c = true) (hbs : ∀ c ∈ bs, p c = true) (hxs : ∀ c ∈ xs.head?, p c = false)
    (hys : ∀ c ∈ ys.head?, p c = false) (h : as ++ xs = bs ++ ys) : as = bs ∧ xs = ys := by
  have htake {cs zs : List Char} (hcs : ∀ c ∈ cs, p c = true)
      (hzs : ∀ c ∈ zs.head?, p c = false) : (cs ++ zs).takeWhile p = cs := by
    rw [List.takeWhile_append_of_pos hcs]
    cases zs with
    | nil => simp
    | cons z zs => simp [hzs z rfl]
  have hfirst : as = bs := by
    rw [← htake has hxs, h, htake hbs hys]
  rw [hfirst] at h
  exact ⟨hfirst, List.append_cancel_left h⟩

/-- Up to a mark that is in neither of them, two texts are the same. -/
theorem append_cons_inj {c : Char} {as bs xs ys : List Char} (has : c ∉ as) (hbs : c ∉ bs)
    (h : as ++ c :: xs = bs ++ c :: ys) : as = bs ∧ xs = ys := by
  have hplain {cs : List Char} (hcs : c ∉ cs) : ∀ d ∈ cs, (d != c) = true := by
    intro d hd
    exact bne_iff_ne.mpr fun heq => hcs (heq ▸ hd)
  have hstops {zs : List Char} : ∀ d ∈ (c :: zs).head?, (d != c) = false := by simp
  obtain ⟨hfirst, hrest⟩ := append_inj_of_stops (hplain has) (hplain hbs) hstops hstops h
  exact ⟨hfirst, List.tail_eq_of_cons_eq hrest⟩

namespace NodeKind

theorem isAlpha_of_mem_name (kind : NodeKind) : ∀ c ∈ kind.name.toList, c.isAlpha = true := by
  have hall : kind.name.toList.all Char.isAlpha = true := by
    cases kind <;> decide
  exact List.all_eq_true.mp hall

theorem name_ne_nil (kind : NodeKind) : kind.name.toList ≠ [] := by
  cases kind <;> decide

theorem name_inj {kind other : NodeKind} (h : kind.name.toList = other.name.toList) :
    kind = other := by
  revert h
  cases kind <;> cases other <;> decide

/-- A kind is told from what follows its name. -/
theorem name_append_inj {kind other : NodeKind} {xs ys : List Char}
    (hxs : ∀ c ∈ xs.head?, c.isAlpha = false) (hys : ∀ c ∈ ys.head?, c.isAlpha = false)
    (h : kind.name.toList ++ xs = other.name.toList ++ ys) : kind = other ∧ xs = ys := by
  obtain ⟨hname, hrest⟩ :=
    append_inj_of_stops kind.isAlpha_of_mem_name other.isAlpha_of_mem_name hxs hys h
  exact ⟨name_inj hname, hrest⟩

end NodeKind

namespace Node

/-- No value in the tree has the character in it. -/
def Lacks (c : Char) (n : Node) : Prop := ∀ m ∈ n.nodes, ∀ v ∈ m.value, c ∉ v.toList

section Lacks

variable {c : Char} {kind : NodeKind} {value : Option String} {children : List Node}
  {line column : Nat} {span : Option Span}

theorem lacks_iff : Lacks c ⟨kind, value, children, line, column, span⟩ ↔
    (∀ v ∈ value, c ∉ v.toList) ∧ ∀ n ∈ children, n.Lacks c := by
  unfold Lacks
  rw [nodes, List.forall_mem_cons]
  simp only [mem_allNodes]
  constructor
  · rintro ⟨hvalue, hbelow⟩
    exact ⟨hvalue, fun n hn m hm => hbelow m ⟨n, hn, hm⟩⟩
  · rintro ⟨hvalue, hbelow⟩
    exact ⟨hvalue, fun m ⟨n, hn, hm⟩ => hbelow n hn m hm⟩

end Lacks

end Node

/-! Values of trees that have been parsed. -/

section Parsed

variable {c : Char} {t : Token} {n : Node} {ts : List Token}

/-- A punctuation mark is in no other lexeme than the one that it is. -/
theorem Lexeme.eq_singleton {text : List Char} (h : Lexeme text) (hc : c ∈ punctuationMarks)
    (hm : c ∈ text) : text = [c] := by
  have hapart : ∀ d ∈ punctuationMarks, d ∉ operatorLeads := by
    simp [punctuationMarks, operatorLeads]
  have hlead := hapart c hc
  cases h with
  | punctuation => rw [List.mem_singleton.mp hm]
  | pair hd =>
    rcases List.mem_pair.mp hm with rfl | rfl
    · exact absurd (mem_operatorLeads_of_pairLeads _ hd) hlead
    · exact absurd (by decide) hlead
  | operator hd => exact absurd (List.mem_singleton.mp hm ▸ hd) hlead
  | run hrun => exact absurd hc (hrun.plain c hm).2.1

theorem tokenClass_of_punctuation :
    ∀ c ∈ punctuationMarks, (classify (String.ofList [c])).tokenClass = .punctuation := by
  intro c hc
  simp only [punctuationMarks, List.mem_cons, List.not_mem_nil, or_false] at hc
  rcases hc with rfl | rfl | rfl | rfl | rfl | rfl | rfl <;> decide

/-- No leaf stands for a punctuation mark. -/
theorem Node.Branches.tokenClass_ne {kind : NodeKind} {children : List Node}
    (h : Branches t kind children) (hk : kind.isLeaf = true) :
    t.kind.tokenClass ≠ .punctuation := by
  have hclass {joins : TokenKind → Bool} (hjoins : joins t.kind = true)
      (hall : ∀ k : TokenKind, k.tokenClass = .punctuation → joins k = false) :
      t.kind.tokenClass ≠ .punctuation := by
    intro heq
    rw [hall _ heq] at hjoins
    cases hjoins
  cases h with
  | @block block => cases block <;> cases hk
  | declaration | assignment | body | printing | condition | expression | term => cases hk
  | identifier ht => simp [ht, TokenKind.tokenClass]
  | number ht => simp [ht, TokenKind.tokenClass]
  | operator ht =>
    rcases ht with ht | ht
    · exact hclass ht fun k => by cases k <;> simp [TokenKind.tokenClass, TokenKind.isAdditive]
    · exact hclass ht fun k => by
        cases k <;> simp [TokenKind.tokenClass, TokenKind.isMultiplicative]
  | relationalOperator ht =>
    exact hclass ht fun k => by cases k <;> simp [TokenKind.tokenClass, TokenKind.isRelational]

theorem Node.StandsFor.not_mem_value (h : n.StandsFor t) (hlexeme : Lexeme t.text.toList)
    (hkind : t.kind = classify t.text) (hc : c ∈ separators ∨ c ∈ punctuationMarks) :
    ∀ v ∈ n.value, c ∉ v.toList := by
  intro v hv hm
  rw [h.value] at hv
  by_cases hk : n.kind.isLeaf = true
  · rw [if_pos hk] at hv
    obtain rfl := Option.some.inj hv
    rcases hc with hc | hc
    · exact hlexeme.not_mem (isSeparator_iff.mpr hc) hm
    · have htext : t.text = String.ofList [c] :=
        String.toList_inj.mp ((hlexeme.eq_singleton hc hm).trans String.toList_ofList.symm)
      apply h.branches.tokenClass_ne hk
      rw [hkind, htext]
      exact tokenClass_of_punctuation c hc
  · rw [if_neg hk] at hv
    cases hv

/-- A tree that has been parsed from the tokens of a text has no separator and no punctuation mark
in any value. -/
theorem exists_lacks_of_tokenize {source : String} (h : tokenize source = .ok ts) :
    ∃ parsed, parse ts = .ok parsed ∧
      ∀ c, c ∈ separators ∨ c ∈ punctuationMarks → parsed.tree.Lacks c := by
  obtain ⟨statements, findings, hparse, hall⟩ := exists_root_of_parse ts
  refine ⟨_, hparse, fun c hc => Node.lacks_iff.mpr ⟨by simp, fun n hn m hm => ?_⟩⟩
  obtain ⟨t, ht, hstands⟩ := (hall n hn).2 m hm
  exact hstands.not_mem_value (tokenize_lexeme h t ht) (tokenize_spelled h t ht) hc

end Parsed

end YupFront
