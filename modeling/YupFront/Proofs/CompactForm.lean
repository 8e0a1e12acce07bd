import YupFront.Proofs.LeafText
import YupFront.Proofs.Writing

/-! A tree on one line. Brackets and commas end a tree that stands among others, so the line can be
read in one way only, as long as no value has a closing parenthesis. -/

namespace YupFront.Node

/-- A tree in the list of its parent's children, behind a comma and a blank. -/
def listed (ns : List Node) : List Char := ns.flatMap fun n => ", ".toList ++ n.compact.toList

theorem listed_cons (n : Node) (ns : List Node) :
    listed (n :: ns) = ", ".toList ++ (n.compact.toList ++ listed ns) := by
  rw [listed, List.flatMap_cons, List.append_assoc]
  rfl

mutual

theorem compactOnto_eq : ∀ (n : Node) (out : String), compactOnto out n = out ++ n.compact
  | ⟨kind, value, [], _, _, _⟩, out => by
    simp [compact, compactOnto, String.append_assoc]
  | ⟨kind, value, c :: cs, _, _, _⟩, out => by
    simp only [compact, compactOnto]
    rw [compactOnto_eq c, allCompactOnto_eq cs, compactOnto_eq c, allCompactOnto_eq cs]
    simp only [String.append_assoc, String.empty_append]

theorem allCompactOnto_eq : ∀ (ns : List Node) (out : String),
    allCompactOnto out ns = out ++ String.ofList (listed ns)
  | [], out => by simp [allCompactOnto, listed]
  | n :: ns, out => by
    rw [allCompactOnto, compactOnto_eq n, allCompactOnto_eq ns, listed_cons, String.ofList_append,
      String.ofList_append, String.ofList_toList, String.ofList_toList]
    simp only [String.append_assoc]

end

def bracketed : List Node → List Char
  | [] => []
  | n :: ns => '[' :: (n.compact.toList ++ (listed ns ++ [']']))

def parenthesised : Option String → List Char
  | none => []
  | some v => '(' :: (v.toList ++ [')'])

theorem toList_compact (n : Node) :
    n.compact.toList = n.kind.name.toList ++ (parenthesised n.value ++ bracketed n.children) := by
  obtain ⟨kind, value, children, line, column, span⟩ := n
  cases children with
  | nil => cases value <;> simp [compact, compactOnto, parenthesised, bracketed]
  | cons c cs =>
    simp only [compact, compactOnto]
    rw [compactOnto_eq c, allCompactOnto_eq cs]
    cases value <;> simp [parenthesised, bracketed]

/-! Where a tree ends, and where its value ends. -/

/-- What can follow a tree on the line: nothing, a brother, or the end of its parent. -/
def Follows (rest : List Char) : Prop := ∀ c ∈ rest.head?, c = ',' ∨ c = ']'

section Ends

variable {rest other : List Char} {children : List Node}

theorem follows_nil : Follows [] := by simp [Follows]

theorem follows_listed (ns : List Node) (rest : List Char) :
    Follows (listed ns ++ ']' :: rest) := by
  cases ns with
  | nil => simp [Follows, listed]
  | cons n ns => simp [Follows, listed_cons]

theorem head?_bracketed (h : Follows rest) :
    ∀ c ∈ (bracketed children ++ rest).head?, c.isAlpha = false ∧ c ≠ '(' := by
  cases children with
  | nil =>
    intro c hc
    rcases h c hc with rfl | rfl <;> decide
  | cons n ns =>
    intro c hc
    obtain rfl := Option.some.inj hc
    decide

theorem head?_parenthesised (h : Follows rest) (value : Option String) :
    ∀ c ∈ (parenthesised value ++ (bracketed children ++ rest)).head?, c.isAlpha = false := by
  cases value with
  | none => exact fun c hc => (head?_bracketed h c hc).1
  | some v =>
    intro c hc
    obtain rfl := Option.some.inj hc
    decide

/-- Values without a closing parenthesis end at the first. -/
theorem parenthesised_inj {value value' : Option String} (hvalue : ∀ v ∈ value, ')' ∉ v.toList)
    (hvalue' : ∀ v ∈ value', ')' ∉ v.toList) (hrest : ∀ c ∈ rest.head?, c ≠ '(')
    (hother : ∀ c ∈ other.head?, c ≠ '(')
    (h : parenthesised value ++ rest = parenthesised value' ++ other) :
    value = value' ∧ rest = other := by
  cases value with
  | none =>
    cases value' with
    | none => exact ⟨rfl, h⟩
    | some w =>
      rw [parenthesised, List.nil_append] at h
      exact absurd rfl (hrest '(' (by rw [h]; rfl))
  | some v =>
    cases value' with
    | none =>
      rw [parenthesised, parenthesised, List.nil_append] at h
      exact absurd rfl (hother '(' (by rw [← h]; rfl))
    | some w =>
      simp only [parenthesised, List.cons_append, List.append_assoc, List.nil_append,
        List.cons.injEq, true_and] at h
      obtain ⟨htext, hrests⟩ := append_cons_inj (hvalue v rfl) (hvalue' w rfl) h
      exact ⟨congrArg some (String.toList_inj.mp htext), hrests⟩

end Ends

mutual

/-- A tree is read off the beginning of the line in one way only. -/
theorem shape_eq_of_compact : ∀ (n m : Node) {rest other : List Char}, n.Lacks ')' → m.Lacks ')' →
    Follows rest → Follows other → n.compact.toList ++ rest = m.compact.toList ++ other →
    n.shape = m.shape ∧ rest = other
  | ⟨kind, value, children, _, _, _⟩, ⟨kind', value', children', _, _, _⟩, rest, other, hn, hm,
      hrest, hother, h => by
    obtain ⟨hvalue, hbelow⟩ := lacks_iff.mp hn
    obtain ⟨hvalue', hbelow'⟩ := lacks_iff.mp hm
    simp only [toList_compact, List.append_assoc] at h
    obtain ⟨rfl, hvalues⟩ :=
      NodeKind.name_append_inj (head?_parenthesised hrest _) (head?_parenthesised hother _) h
    obtain ⟨rfl, hbrackets⟩ := parenthesised_inj hvalue hvalue'
      (fun c hc => (head?_bracketed hrest c hc).2) (fun c hc => (head?_bracketed hother c hc).2)
      hvalues
    rw [shape, shape]
    cases children with
    | nil =>
      cases children' with
      | nil => exact ⟨rfl, hbrackets⟩
      | cons m ms =>
        -- No bracket follows a tree.
        rw [bracketed, List.nil_append] at hbrackets
        have hopening := hrest '[' (by rw [hbrackets]; rfl)
        exact absurd hopening (by decide)
    | cons n ns =>
      cases children' with
      | nil =>
        rw [bracketed, bracketed, List.nil_append] at hbrackets
        have hopening := hother '[' (by rw [← hbrackets]; rfl)
        exact absurd hopening (by decide)
      | cons m ms =>
        have hlisted : listed (n :: ns) ++ ']' :: rest = listed (m :: ms) ++ ']' :: other := by
          simp only [bracketed, List.cons_append, List.append_assoc, List.nil_append,
            List.cons.injEq, true_and] at hbrackets
          simp only [listed_cons, List.append_assoc, hbrackets]
        obtain ⟨hshapes, hrests⟩ := shapes_eq_of_compact (n :: ns) (m :: ms) hbelow hbelow' hlisted
        rw [hshapes]
        exact ⟨rfl, hrests⟩

theorem shapes_eq_of_compact : ∀ (ns ms : List Node) {rest other : List Char},
    (∀ n ∈ ns, n.Lacks ')') → (∀ m ∈ ms, m.Lacks ')') →
    listed ns ++ ']' :: rest = listed ms ++ ']' :: other → shapes ns = shapes ms ∧ rest = other
  | [], [], _, _, _, _, h => ⟨rfl, List.tail_eq_of_cons_eq h⟩
  | [], m :: ms, _, _, _, _, h => by
    rw [listed_cons] at h
    exact absurd (List.head_eq_of_cons_eq h) (by decide)
  | n :: ns, [], _, _, _, _, h => by
    rw [listed_cons] at h
    exact absurd (List.head_eq_of_cons_eq h) (by decide)
  | n :: ns, m :: ms, rest, other, hns, hms, h => by
    obtain ⟨hn, hns⟩ := List.forall_mem_cons.mp hns
    obtain ⟨hm, hms⟩ := List.forall_mem_cons.mp hms
    simp only [listed_cons, List.append_assoc, List.append_cancel_left_eq] at h
    obtain ⟨hshape, htail⟩ :=
      shape_eq_of_compact n m hn hm (follows_listed ns rest) (follows_listed ms other) h
    obtain ⟨hshapes, hrests⟩ := shapes_eq_of_compact ns ms hns hms htail
    rw [shapes, shapes, hshape, hshapes]
    exact ⟨rfl, hrests⟩

end

theorem shape_eq_of_compact_eq {n m : Node} (hn : n.Lacks ')') (hm : m.Lacks ')')
    (h : n.compact = m.compact) : n.shape = m.shape :=
  (shape_eq_of_compact n m hn hm follows_nil follows_nil (congrArg (·.toList ++ []) h)).1

/-- Trees without closing parentheses in their values are told apart by their compact forms, and so
are all trees that have been parsed from texts. -/
theorem compact_unambiguous :
    (∀ n m : Node, n.Lacks ')' → m.Lacks ')' → n.compact = m.compact → n.shape = m.shape) ∧
    (∀ source ts, tokenize source = .ok ts → ∃ parsed, parse ts = .ok parsed ∧
      parsed.tree.Lacks ')') ∧
    ∀ source source' ts ts' parsed parsed', tokenize source = .ok ts → parse ts = .ok parsed →
      tokenize source' = .ok ts' → parse ts' = .ok parsed' →
      parsed.tree.compact = parsed'.tree.compact → parsed.tree.shape = parsed'.tree.shape := by
  have hparsed {source : String} {ts : List Token} (h : tokenize source = .ok ts) :
      ∃ parsed, parse ts = .ok parsed ∧ parsed.tree.Lacks ')' := by
    obtain ⟨parsed, hparse, hlacks⟩ := exists_lacks_of_tokenize h
    exact ⟨parsed, hparse, hlacks ')' (by decide)⟩
  refine ⟨fun n m => shape_eq_of_compact_eq, fun source ts => hparsed, ?_⟩
  intro source source' ts ts' parsed parsed' hsource hparse hsource' hparse' h
  obtain ⟨found, hfound, hlacks⟩ := hparsed hsource
  obtain ⟨found', hfound', hlacks'⟩ := hparsed hsource'
  obtain rfl := Except.ok.inj (hparse.symm.trans hfound)
  obtain rfl := Except.ok.inj (hparse'.symm.trans hfound')
  exact shape_eq_of_compact_eq hlacks hlacks' h

theorem compact_unambiguous_commas :
    let leaf (text : String) (line : Nat) : Node := ⟨.identifier, some text, [], line, 1, none⟩
    let term (children : List Node) : Node := ⟨.term, none, children, 1, 1, none⟩
    (term [leaf "a, Identifier(b" 1]).Lacks ')' ∧ (term [leaf "a" 1, leaf "b" 1]).Lacks ')' ∧
      (term [leaf "a, Identifier(b" 1]).compact ≠ (term [leaf "a" 1, leaf "b" 1]).compact ∧
      (term [leaf "a" 2]).Lacks ')' ∧ (term [leaf "a" 7]).Lacks ')' ∧
      (term [leaf "a" 2]).compact = (term [leaf "a" 7]).compact ∧
      (term [leaf "a" 2]).shape = (term [leaf "a" 7]).shape ∧
      tokenize ";" = .ok [⟨.semicolon, ";", 0, 0, ⟨.start, ⟨1, 1, 2⟩⟩⟩] ∧
      tokenize "" = .ok [] ∧ ∃ parsed parsed',
        parse [⟨.semicolon, ";", 0, 0, ⟨.start, ⟨1, 1, 2⟩⟩⟩] = .ok parsed ∧
        parse [] = .ok parsed' ∧ parsed.tree.Lacks ')' ∧
        parsed.tree.compact = parsed'.tree.compact ∧ parsed.tree.shape = parsed'.tree.shape := by
  intro leaf term
  obtain ⟨hinj, hlacks, hsources⟩ := compact_unambiguous
  have hone : (term [leaf "a, Identifier(b" 1]).Lacks ')' := by simp [term, leaf, lacks_iff]
  have htwo : (term [leaf "a" 1, leaf "b" 1]).Lacks ')' := by simp [term, leaf, lacks_iff]
  have hearly : (term [leaf "a" 2]).Lacks ')' := by simp [term, leaf, lacks_iff]
  have hlate : (term [leaf "a" 7]).Lacks ')' := by simp [term, leaf, lacks_iff]
  have hcompact : (term [leaf "a" 2]).compact = (term [leaf "a" 7]).compact := rfl
  have hapart : (term [leaf "a, Identifier(b" 1]).compact ≠
      (term [leaf "a" 1, leaf "b" 1]).compact := by
    intro h
    have hshape := hinj _ _ hone htwo h
    simp [term, leaf, shape, shapes] at hshape
  have hchunks : Chunk.ofText ";".toList = [.symbol [';']] := by
    simp [Chunk.ofText_cons, Chunk.cut, isSeparator, isPunctuation]
  have hsource : tokenize ";" = .ok [⟨.semicolon, ";", 0, 0, ⟨.start, ⟨1, 1, 2⟩⟩⟩] := by
    rw [tokenize, hchunks]
    rfl
  obtain ⟨parsed, hparsed, hclean⟩ := hlacks ";" _ hsource
  have hstray : parsed.tree = .root [] := by
    rw [parse_semicolon_cons rfl .nil] at hparsed
    rw [← Except.ok.inj hparsed]
  have hsame : parsed.tree.compact = (Node.root []).compact := by rw [hstray]
  have hshape := hsources ";" "" _ _ _ _ hsource hparsed tokenize_empty parse_nil hsame
  exact ⟨hone, htwo, hapart, hearly, hlate, hcompact, hinj _ _ hearly hlate hcompact, hsource,
    tokenize_empty, parsed, _, hparsed, parse_nil, hclean, hsame, hshape⟩

end YupFront.Node
