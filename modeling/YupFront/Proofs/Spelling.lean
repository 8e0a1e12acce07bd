import YupFront.Proofs.Writing

/-! Writings whose tokens have the kinds of their texts. What they write is well formed, and every
program that is well formed has one. -/

namespace YupFront

theorem mem_of_symbolKind? {text : String} {k : TokenKind} (h : symbolKind? text = some k) :
    (text, k) ∈ symbolTable := by
  obtain ⟨before, behind, hs, -⟩ := List.lookup_eq_some_iff.mp h
  simp [hs]

/-- A text has a kind of operator only if it is one of its symbols. -/
theorem mem_symbols_of_classify {joins : TokenKind → Bool} {text : String}
    (hw : ∀ w, joins (.keyword w) = false) (hn : joins .number = false)
    (hi : joins .identifier = false) (h : joins (classify text) = true) :
    text ∈ (symbolTable.filter fun s => joins s.2).map Prod.fst := by
  unfold classify at h
  split at h
  · simp [hw] at h
  · split at h
    · next k hk => exact List.mem_map.mpr ⟨_, List.mem_filter.mpr ⟨mem_of_symbolKind? hk, h⟩, rfl⟩
    · split at h
      · simp [hn] at h
      · simp [hi] at h

theorem mem_of_isAdditive {text : String} (h : (classify text).isAdditive = true) :
    text ∈ ["+", "-"] :=
  mem_symbols_of_classify (fun _ => rfl) rfl rfl h

theorem mem_of_isMultiplicative {text : String} (h : (classify text).isMultiplicative = true) :
    text ∈ ["*", "/"] :=
  mem_symbols_of_classify (fun _ => rfl) rfl rfl h

theorem mem_of_isRelational {text : String} (h : (classify text).isRelational = true) :
    text ∈ ["==", "!=", ">", ">=", "<", "<="] :=
  mem_symbols_of_classify (fun _ => rfl) rfl rfl h

/-- The kind of each token is the one its text has. -/
def Token.Spelled (ts : List Token) : Prop := ∀ t ∈ ts, t.kind = classify t.text

section Spelled

variable {t : Token} {ts us : List Token}

@[simp] theorem Token.spelled_nil : Token.Spelled [] := by simp [Token.Spelled]

@[simp] theorem Token.spelled_cons :
    Token.Spelled (t :: ts) ↔ t.kind = classify t.text ∧ Token.Spelled ts :=
  List.forall_mem_cons

@[simp] theorem Token.spelled_append :
    Token.Spelled (ts ++ us) ↔ Token.Spelled ts ∧ Token.Spelled us :=
  List.forall_mem_append

theorem Expr.Written.wellFormed {e : Expr} {p : Place} {n : Nat} (h : e.Written p n ts)
    (hs : Token.Spelled ts) : e.WellFormed := by
  induction h with
  | name hk => exact (Token.spelled_cons.mp hs).1.symm.trans hk
  | number hk => exact (Token.spelled_cons.mp hs).1.symm.trans hk
  | sum _ hk _ _ ihl ihr =>
    simp only [Token.spelled_cons, Token.spelled_append] at hs
    obtain ⟨hl, ho, hr⟩ := hs
    exact ⟨ihl hl, mem_of_isAdditive (ho ▸ hk), ihr hr⟩
  | product _ hk _ _ ihl ihr =>
    simp only [Token.spelled_cons, Token.spelled_append] at hs
    obtain ⟨hl, ho, hr⟩ := hs
    exact ⟨ihl hl, mem_of_isMultiplicative (ho ▸ hk), ihr hr⟩
  | parens _ _ _ ih =>
    simp only [Token.spelled_cons, Token.spelled_append] at hs
    exact ih hs.2.1

theorem Comparison.Written.wellFormed {c : Comparison} {n : Nat} (h : c.Written n ts)
    (hs : Token.Spelled ts) : c.WellFormed := by
  obtain ⟨hk, hl, hr⟩ := h
  simp only [Token.spelled_cons, Token.spelled_append] at hs
  obtain ⟨hsl, ho, hsr⟩ := hs
  exact ⟨hl.wellFormed hsl, mem_of_isRelational (ho ▸ hk), hr.wellFormed hsr⟩

theorem Stmt.Written.wellFormed {ss : List Stmt} {n : Nat} (h : Stmt.Written ss n ts)
    (hs : Token.Spelled ts) : Stmt.AllWellFormed ss := by
  induction h with
  | nil => trivial
  | declaration _ hn _ _ hv _ ih =>
    simp only [Token.spelled_cons, Token.spelled_append] at hs
    obtain ⟨-, hname, -, hvalue, -, hrest⟩ := hs
    exact ⟨⟨hname.symm.trans hn, hv.wellFormed hvalue⟩, ih hrest⟩
  | assignment hn _ _ hv _ ih =>
    simp only [Token.spelled_cons, Token.spelled_append] at hs
    obtain ⟨hname, -, hvalue, -, hrest⟩ := hs
    exact ⟨⟨hname.symm.trans hn, hv.wellFormed hvalue⟩, ih hrest⟩
  | printing _ _ _ _ hv _ ih =>
    simp only [Token.spelled_cons, Token.spelled_append] at hs
    obtain ⟨-, -, hvalue, -, -, hrest⟩ := hs
    exact ⟨hv.wellFormed hvalue, ih hrest⟩
  | block _ _ _ _ _ ht _ _ ihbody ihrest =>
    simp only [Token.spelled_cons, Token.spelled_append] at hs
    obtain ⟨-, -, htest, -, -, hbody, -, hrest⟩ := hs
    exact ⟨⟨ht.wellFormed htest, ihbody hbody⟩, ihrest hrest⟩

end Spelled

/-! The shortest writing is one, with no more levels than it is said to have. -/

theorem isAdditive_of_mem {text : String} (h : text ∈ ["+", "-"]) :
    (Token.spelling text).kind.isAdditive = true := by
  simp only [List.mem_cons, List.not_mem_nil, or_false] at h
  rcases h with rfl | rfl <;> decide

theorem isMultiplicative_of_mem {text : String} (h : text ∈ ["*", "/"]) :
    (Token.spelling text).kind.isMultiplicative = true := by
  simp only [List.mem_cons, List.not_mem_nil, or_false] at h
  rcases h with rfl | rfl <;> decide

theorem isRelational_of_mem {text : String} (h : text ∈ ["==", "!=", ">", ">=", "<", "<="]) :
    (Token.spelling text).kind.isRelational = true := by
  simp only [List.mem_cons, List.not_mem_nil, or_false] at h
  rcases h with rfl | rfl | rfl | rfl | rfl | rfl <;> decide

namespace Expr

/-- An expression is written for a place if it is written for one that asks for no parentheses. -/
theorem written_enclose {e : Expr} {p : Place} {levels n : Nat} {ts : List Token}
    (hbare : ∀ q m, e.needsParens q = false → levels ≤ m → e.Written q m ts)
    (hn : levels + (e.needsParens p).toNat ≤ n) :
    e.Written p n (Token.enclose (e.needsParens p) ts) := by
  cases hp : e.needsParens p with
  | false => exact hbare p n hp (by simpa [hp] using hn)
  | true =>
    have hwhole : e.needsParens .whole = false := by cases e <;> rfl
    rw [hp] at hn
    cases n with
    | zero => simp at hn
    | succ n => exact .parens (by decide) (by decide) (hbare .whole n hwhole (by simpa using hn))

theorem written_tokens {e : Expr} {p : Place} {n : Nat} (h : e.WellFormed) (hn : e.levels p ≤ n) :
    e.Written p n (e.tokens p) := by
  induction e generalizing p n with
  | name text => exact .name (t := .spelling text) h
  | number text => exact .number (t := .spelling text) h
  | sum left operator right ihl ihr =>
    refine written_enclose (fun q m hq hm => ?_) hn
    obtain ⟨hl, hr⟩ := Nat.max_le.mp hm
    exact .sum hq (isAdditive_of_mem h.2.1) (ihl h.1 hl) (ihr h.2.2 hr)
  | product left operator right ihl ihr =>
    refine written_enclose (fun q m hq hm => ?_) hn
    obtain ⟨hl, hr⟩ := Nat.max_le.mp hm
    exact .product hq (isMultiplicative_of_mem h.2.1) (ihl h.1 hl) (ihr h.2.2 hr)

example : ((sum (name "a") "-" (sum (name "b") "-" (name "c"))).tokens .whole).map Token.text =
    ["a", "-", "(", "b", "-", "c", ")"] := rfl

end Expr

theorem Comparison.written_tokens {c : Comparison} {n : Nat} (h : c.WellFormed)
    (hn : c.levels ≤ n) : c.Written n c.tokens := by
  obtain ⟨hl, hr⟩ := Nat.max_le.mp hn
  exact .compare (isRelational_of_mem h.2.1) (Expr.written_tokens h.1 hl)
    (Expr.written_tokens h.2.2 hr)

namespace Stmt

mutual

theorem written_cons (s : Stmt) {rest : List Stmt} {n : Nat} {ts : List Token} (h : s.WellFormed)
    (hn : s.levels ≤ n) (hrest : Written rest n ts) : Written (s :: rest) n (s.tokens ++ ts) := by
  cases s with
  | declaration name value =>
    have hname : (Token.spelling name).kind = .identifier := h.1
    simp only [tokens, List.cons_append, List.append_assoc, List.nil_append]
    exact .declaration (by decide) hname (by decide) (by decide) (Expr.written_tokens h.2 hn) hrest
  | assignment name value =>
    have hname : (Token.spelling name).kind = .identifier := h.1
    simp only [tokens, List.cons_append, List.append_assoc, List.nil_append]
    exact .assignment hname (by decide) (by decide) (Expr.written_tokens h.2 hn) hrest
  | printing value =>
    simp only [tokens, List.cons_append, List.append_assoc, List.nil_append]
    exact .printing (by decide) (by decide) (by decide) (by decide) (Expr.written_tokens h hn) hrest
  | block kind test body =>
    cases n with
    | zero => cases hn
    | succ n =>
      obtain ⟨htest, hbody⟩ := Nat.max_le.mp (Nat.le_of_succ_le_succ hn)
      simp only [tokens, List.cons_append, List.append_assoc, List.nil_append]
      exact .block (by cases kind <;> decide) (by decide) (by decide) (by decide) (by decide)
        (Comparison.written_tokens h.1 htest) (written_allTokens body h.2 hbody) hrest

theorem written_allTokens (ss : List Stmt) {n : Nat} (h : AllWellFormed ss)
    (hn : allLevels ss ≤ n) : Written ss n (allTokens ss) := by
  cases ss with
  | nil => exact .nil
  | cons s rest =>
    obtain ⟨hs, hr⟩ := Nat.max_le.mp hn
    exact written_cons s h.1 hs (written_allTokens rest h.2 hr)

end

end Stmt

end YupFront
