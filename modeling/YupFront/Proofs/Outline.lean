import YupFront.Proofs.LeafText
import YupFront.Proofs.LineLookup
import YupFront.Proofs.Writing

/-! The printed tree is a code of the tree. A line tells how far below the root a node is, its kind
and its value; the levels of the lines, in preorder, tell where the children of a node end. -/

namespace YupFront

/-! Lines that are put together, each with a newline behind it, are found again. -/

section Lines

variable {ls ms : List String}

theorem splitLines_of_no_newline {line : List Char} (h : '\n' ∉ line) :
    splitLines line = [line] :=
  (splitLines_eq_splitOn line).trans (List.splitOn_eq_singleton h)

theorem splitLines_join (h : ∀ line ∈ ls, '\n' ∉ line.toList) :
    splitLines (String.join (ls.map (· ++ "\n"))).toList = ls.map String.toList ++ [[]] := by
  induction ls with
  | nil => rfl
  | cons line ls ih =>
    obtain ⟨hline, hls⟩ := List.forall_mem_cons.mp h
    have htext : (String.join ((line :: ls).map (· ++ "\n"))).toList =
        line.toList ++ '\n' :: (String.join (ls.map (· ++ "\n"))).toList := by
      rw [List.map_cons, String.join_cons, String.toList_append, String.toList_append,
        List.append_assoc]
      rfl
    rw [htext, splitLines_append_newline, splitLines_of_no_newline hline, ih hls]
    rfl

theorem join_lines_inj (hls : ∀ line ∈ ls, '\n' ∉ line.toList)
    (hms : ∀ line ∈ ms, '\n' ∉ line.toList)
    (h : String.join (ls.map (· ++ "\n")) = String.join (ms.map (· ++ "\n"))) : ls = ms := by
  have hsplit := splitLines_join hls
  rw [h, splitLines_join hms] at hsplit
  have htexts := List.append_cancel_right hsplit
  have hinj : Function.Injective String.toList := fun _ _ => String.toList_inj.mp
  exact (List.map_injective_iff.mpr hinj htexts).symm

theorem lines_join (h : ∀ line ∈ ls, '\n' ∉ line.toList ∧ line.toList.getLast? ≠ some '\r') :
    lines (String.join (ls.map (· ++ "\n"))) = ls := by
  have hkept : ∀ line ∈ ls,
      String.ofList (if line.toList.getLast? = some '\r' then line.toList.dropLast
        else line.toList) = line := by
    intro line hline
    rw [if_neg (h line hline).2, String.ofList_toList]
  rw [lines, splitLines_join fun line hline => (h line hline).1]
  simp only [List.dropLast_concat, List.getLast?_concat, List.map_map, List.append_nil]
  exact (List.map_congr_left hkept).trans (List.map_id' ls)

end Lines

namespace Node

mutual

/-- The nodes of a tree in preorder, each with its depth below the root, on top of `depth`. -/
def outlineFrom (depth : Nat) : Node → List (Nat × Node)
  | ⟨kind, value, children, line, column, span⟩ =>
    (depth, ⟨kind, value, children, line, column, span⟩) :: allOutlineFrom (depth + 1) children
termination_by structural n => n

def allOutlineFrom (depth : Nat) : List Node → List (Nat × Node)
  | [] => []
  | n :: ns => outlineFrom depth n ++ allOutlineFrom depth ns
termination_by structural ns => ns

end

def outline (n : Node) : List (Nat × Node) := outlineFrom 0 n

/-- Two blanks for each level, the kind and, if there is one, the value in parentheses. -/
def printedLine (level : Nat) (n : Node) : String :=
  String.ofList (List.replicate (2 * level) ' ') ++ n.kind.name ++
    n.value.elim "" fun v => " (" ++ v ++ ")"

def printedLines (level : Nat) (n : Node) : List String :=
  n.outline.map fun x => x.2.printedLine (level + x.1)

mutual

theorem map_snd_outlineFrom : ∀ (n : Node) (depth : Nat),
    (outlineFrom depth n).map Prod.snd = n.nodes
  | ⟨kind, value, children, line, column, span⟩, depth => by
    rw [outlineFrom, nodes, List.map_cons, map_snd_allOutlineFrom children]

theorem map_snd_allOutlineFrom : ∀ (ns : List Node) (depth : Nat),
    (allOutlineFrom depth ns).map Prod.snd = allNodes ns
  | [], _ => rfl
  | n :: ns, depth => by
    rw [allOutlineFrom, allNodes, List.map_append, map_snd_outlineFrom n,
      map_snd_allOutlineFrom ns]

end

mutual

theorem outlineFrom_add : ∀ (n : Node) (level depth : Nat),
    outlineFrom (level + depth) n = (outlineFrom depth n).map fun x => (level + x.1, x.2)
  | ⟨kind, value, children, line, column, span⟩, level, depth => by
    rw [outlineFrom, outlineFrom, List.map_cons, Nat.add_assoc, allOutlineFrom_add children]

theorem allOutlineFrom_add : ∀ (ns : List Node) (level depth : Nat),
    allOutlineFrom (level + depth) ns =
      (allOutlineFrom depth ns).map fun x => (level + x.1, x.2)
  | [], _, _ => rfl
  | n :: ns, level, depth => by
    rw [allOutlineFrom, allOutlineFrom, List.map_append, outlineFrom_add n,
      allOutlineFrom_add ns]

end

theorem printedLines_eq (level : Nat) (n : Node) :
    n.printedLines level = (outlineFrom level n).map fun x => x.2.printedLine x.1 := by
  have hshift := outlineFrom_add n level 0
  rw [Nat.add_zero] at hshift
  rw [hshift, List.map_map]
  rfl

mutual

theorem countFrom_eq : ∀ (n : Node) (start : Nat), countFrom start n = start + n.nodes.length
  | ⟨kind, value, children, line, column, span⟩, start => by
    rw [countFrom, nodes, countAllFrom_eq children, List.length_cons]
    omega

theorem countAllFrom_eq : ∀ (ns : List Node) (start : Nat),
    countAllFrom start ns = start + (allNodes ns).length
  | [], _ => rfl
  | n :: ns, start => by
    rw [countAllFrom, allNodes, countFrom_eq n, countAllFrom_eq ns, List.length_append]
    omega

end

/-! What is printed. -/

theorem headline_eq (kind : NodeKind) (value : Option String) :
    headline kind value = kind.name ++ value.elim "" fun v => " (" ++ v ++ ")" := by
  cases value <;> simp [headline, String.append_assoc]

mutual

theorem linesOnto_eq : ∀ (n : Node) (level : Nat) (out : String), linesOnto level out n =
    out ++ String.join ((outlineFrom level n).map fun x => x.2.printedLine x.1 ++ "\n")
  | ⟨kind, value, children, line, column, span⟩, level, out => by
    rw [linesOnto, outlineFrom, allLinesOnto_eq children, List.map_cons, String.join_cons,
      headline_eq, printedLine, LineIndex.blanks]
    simp only [String.append_assoc]

theorem allLinesOnto_eq : ∀ (ns : List Node) (level : Nat) (out : String),
    allLinesOnto level out ns =
      out ++ String.join ((allOutlineFrom level ns).map fun x => x.2.printedLine x.1 ++ "\n")
  | [], _, out => by simp [allLinesOnto, allOutlineFrom]
  | n :: ns, level, out => by
    rw [allLinesOnto, allOutlineFrom, linesOnto_eq n, allLinesOnto_eq ns, List.map_append,
      String.join_append, String.append_assoc]

end

theorem render_eq (n : Node) (level : Nat) :
    n.render level = String.join ((n.printedLines level).map (· ++ "\n")) := by
  rw [render, linesOnto_eq, String.empty_append, printedLines_eq, List.map_map]
  rfl

section Lines

variable {level : Nat} {n : Node}

theorem no_newline_printedLine (h : ∀ v ∈ n.value, '\n' ∉ v.toList) :
    '\n' ∉ (n.printedLine level).toList := by
  have hname : '\n' ∉ n.kind.name.toList := by
    intro hm
    have halpha := n.kind.isAlpha_of_mem_name _ hm
    revert halpha
    decide
  cases hvalue : n.value with
  | none => simp [printedLine, hvalue, hname]
  | some v => simp [printedLine, hvalue, hname, h v hvalue]

/-- A line ends in a letter or in a parenthesis. -/
theorem getLast?_printedLine : (n.printedLine level).toList.getLast? ≠ some '\r' := by
  cases hvalue : n.value with
  | none =>
    have hend : (n.printedLine level).toList.getLast? = n.kind.name.toList.getLast? := by
      simp [printedLine, hvalue, List.getLast?_append_of_ne_nil _ n.kind.name_ne_nil]
    rw [hend]
    intro hreturn
    have halpha := n.kind.isAlpha_of_mem_name _ (List.mem_of_getLast? hreturn)
    revert halpha
    decide
  | some v =>
    have htext : (n.printedLine level).toList = (List.replicate (2 * level) ' ' ++
        n.kind.name.toList ++ (" (" ++ v).toList) ++ [')'] := by
      simp [printedLine, hvalue]
    rw [htext, List.getLast?_concat]
    decide

end Lines

/-! What is printed is told apart. -/

/-- What is in parentheses behind a name, or nothing, tells a value from another. -/
theorem value_inj {value other : Option String}
    (h : (value.elim "" fun v => " (" ++ v ++ ")") = other.elim "" fun v => " (" ++ v ++ ")") :
    value = other := by
  have htexts := congrArg String.toList h
  cases value with
  | none =>
    cases other with
    | none => rfl
    | some w => simp at htexts
  | some v =>
    cases other with
    | none => simp at htexts
    | some w =>
      have hsame : v.toList = w.toList := by simpa using htexts
      rw [String.toList_inj.mp hsame]

theorem printedLine_inj {j k : Nat} {n m : Node} (h : n.printedLine j = m.printedLine k) :
    j = k ∧ n.kind = m.kind ∧ n.value = m.value := by
  have htexts := congrArg String.toList h
  simp only [printedLine, String.toList_append, String.toList_ofList, List.append_assoc] at htexts
  have hblank {count : Nat} : ∀ c ∈ List.replicate count ' ', (c == ' ') = true := by simp
  have hname (kind : NodeKind) (rest : List Char) :
      ∀ c ∈ (kind.name.toList ++ rest).head?, (c == ' ') = false := by
    intro c hc
    rw [List.head?_append_of_ne_nil _ kind.name_ne_nil] at hc
    have halpha := kind.isAlpha_of_mem_name c (List.mem_of_mem_head? hc)
    apply beq_false_of_ne
    rintro rfl
    revert halpha
    decide
  have hvalue (value : Option String) :
      ∀ c ∈ (value.elim "" fun v => " (" ++ v ++ ")").toList.head?, c.isAlpha = false := by
    cases value <;> simp
  obtain ⟨hblanks, hrest⟩ :=
    append_inj_of_stops hblank hblank (hname n.kind _) (hname m.kind _) htexts
  obtain ⟨hkind, hvalues⟩ := NodeKind.name_append_inj (hvalue n.value) (hvalue m.value) hrest
  have hlevel := (List.replicate_inj.mp hblanks).1
  exact ⟨by omega, hkind, value_inj (String.toList_inj.mp hvalues)⟩

/-- What a line tells of a node. -/
def label (x : Nat × Node) : Nat × NodeKind × Option String := (x.1, x.2.kind, x.2.value)

theorem labels_eq_of_printedLines {j k : Nat} {n m : Node}
    (h : n.printedLines j = m.printedLines k) :
    (outlineFrom j n).map label = (outlineFrom k m).map label := by
  rw [printedLines_eq, printedLines_eq] at h
  rw [← List.forall₂_eq_eq_eq, List.forall₂_map_left_iff, List.forall₂_map_right_iff] at h ⊢
  refine h.imp fun x y hxy => ?_
  obtain ⟨hlevel, hkind, hvalue⟩ := printedLine_inj hxy
  rw [label, label, hlevel, hkind, hvalue]

section Labels

variable {rest : List (Nat × NodeKind × Option String)}

/-- Behind the children of a node there are no deeper lines than the children themselves. -/
theorem head?_labels_le {depth : Nat} (h : ∀ x ∈ rest.head?, x.1 < depth) (ns : List Node) :
    ∀ x ∈ ((allOutlineFrom depth ns).map label ++ rest).head?, x.1 ≤ depth := by
  cases ns with
  | nil =>
    intro x hx
    exact Nat.le_of_lt (h x hx)
  | cons n ns =>
    obtain ⟨kind, value, children, line, column, span⟩ := n
    simp [allOutlineFrom, outlineFrom, label]

mutual

/-- The labels of a node end where a line begins that is not below it. -/
theorem shape_eq_of_labels : ∀ (n m : Node) {depth : Nat}
    {rest other : List (Nat × NodeKind × Option String)}, (∀ x ∈ rest.head?, x.1 ≤ depth) →
    (∀ x ∈ other.head?, x.1 ≤ depth) →
    (outlineFrom depth n).map label ++ rest = (outlineFrom depth m).map label ++ other →
    n.shape = m.shape ∧ rest = other
  | ⟨kind, value, children, _, _, _⟩, ⟨kind', value', children', _, _, _⟩, depth, rest, other,
      hrest, hother, h => by
    simp only [outlineFrom, List.map_cons, List.cons_append, List.cons.injEq] at h
    obtain ⟨hlabel, hbelow⟩ := h
    have hsame : kind = kind' ∧ value = value' := by simpa [label] using hlabel
    obtain ⟨hshapes, hrests⟩ := shapes_eq_of_labels children children'
      (fun x hx => Nat.lt_succ_of_le (hrest x hx)) (fun x hx => Nat.lt_succ_of_le (hother x hx))
      hbelow
    rw [shape, shape, hsame.1, hsame.2, hshapes]
    exact ⟨rfl, hrests⟩

theorem shapes_eq_of_labels : ∀ (ns ms : List Node) {depth : Nat}
    {rest other : List (Nat × NodeKind × Option String)}, (∀ x ∈ rest.head?, x.1 < depth) →
    (∀ x ∈ other.head?, x.1 < depth) →
    (allOutlineFrom depth ns).map label ++ rest = (allOutlineFrom depth ms).map label ++ other →
    shapes ns = shapes ms ∧ rest = other
  | [], [], _, _, _, _, _, h => ⟨rfl, h⟩
  | [], ⟨_, _, _, _, _, _⟩ :: ms, depth, rest, other, hrest, _, h => by
    -- The line of the node is no deeper than itself.
    simp only [allOutlineFrom, outlineFrom, List.map_nil, List.nil_append, List.cons_append,
      List.map_cons] at h
    rw [h] at hrest
    exact absurd (hrest _ rfl) (Nat.lt_irrefl depth)
  | ⟨_, _, _, _, _, _⟩ :: ns, [], depth, rest, other, _, hother, h => by
    simp only [allOutlineFrom, outlineFrom, List.map_nil, List.nil_append, List.cons_append,
      List.map_cons] at h
    rw [← h] at hother
    exact absurd (hother _ rfl) (Nat.lt_irrefl depth)
  | n :: ns, m :: ms, depth, rest, other, hrest, hother, h => by
    rw [allOutlineFrom, allOutlineFrom, List.map_append, List.map_append, List.append_assoc,
      List.append_assoc] at h
    obtain ⟨hshape, htail⟩ :=
      shape_eq_of_labels n m (head?_labels_le hrest ns) (head?_labels_le hother ms) h
    obtain ⟨hshapes, hrests⟩ := shapes_eq_of_labels ns ms hrest hother htail
    rw [shapes, shapes, hshape, hshapes]
    exact ⟨rfl, hrests⟩

end

end Labels

theorem eq_of_printedLines {j k : Nat} {n m : Node} (h : n.printedLines j = m.printedLines k) :
    j = k ∧ n.shape = m.shape := by
  have hlabels := labels_eq_of_printedLines h
  have hlevel : j = k := by
    obtain ⟨kind, value, children, line, column, span⟩ := n
    obtain ⟨kind', value', children', line', column', span'⟩ := m
    have hhead := congrArg List.head? hlabels
    simp only [outlineFrom, List.map_cons, List.head?_cons, Option.some.injEq] at hhead
    exact congrArg Prod.fst hhead
  subst hlevel
  have hends : ∀ x ∈ ([] : List (Nat × NodeKind × Option String)).head?, x.1 ≤ j := by simp
  exact ⟨rfl, (shape_eq_of_labels n m hends hends (congrArg (· ++ []) hlabels)).1⟩

theorem no_newline_printedLines {n : Node} (h : n.Lacks '\n') (level : Nat) :
    ∀ line ∈ n.printedLines level, '\n' ∉ line.toList := by
  intro line hline
  obtain ⟨x, hx, rfl⟩ := List.mem_map.mp hline
  have hnode : x.2 ∈ n.nodes := by
    rw [← map_snd_outlineFrom n 0]
    exact List.mem_map.mpr ⟨x, hx, rfl⟩
  exact no_newline_printedLine (h _ hnode)

/-- A tree whose values lack newlines is printed as one line for each node, in preorder. Trees that
are printed the same begin at the same level and differ in places only. -/
theorem render_faithful :
    (∀ n : Node, n.Lacks '\n' → n.outline.map Prod.snd = n.nodes ∧ n.lines = n.printedLines 0 ∧
      ∀ level, n.render level = String.join ((n.printedLines level).map (· ++ "\n")) ∧
        (∀ line ∈ n.printedLines level, '\n' ∉ line.toList) ∧
        (n.printedLines level).length = n.count) ∧
    (∀ n m : Node, n.Lacks '\n' → m.Lacks '\n' → ∀ j k, n.render j = m.render k →
      j = k ∧ n.shape = m.shape) ∧
    ∀ source ts, tokenize source = .ok ts → ∃ parsed, parse ts = .ok parsed ∧
      parsed.tree.Lacks '\n' := by
  refine ⟨fun n hn => ⟨map_snd_outlineFrom n 0, ?_, fun level => ⟨render_eq n level, ?_, ?_⟩⟩,
    fun n m hn hm j k h => ?_, fun source ts h => ?_⟩
  · rw [Node.lines, render_eq]
    refine lines_join fun line hline => ⟨no_newline_printedLines hn 0 line hline, ?_⟩
    obtain ⟨x, -, rfl⟩ := List.mem_map.mp hline
    exact getLast?_printedLine
  · exact no_newline_printedLines hn level
  · rw [printedLines, List.length_map, ← List.length_map Prod.snd, outline, map_snd_outlineFrom,
      count, countFrom_eq, Nat.zero_add]
  · rw [render_eq, render_eq] at h
    exact eq_of_printedLines
      (join_lines_inj (no_newline_printedLines hn j) (no_newline_printedLines hm k) h)
  · obtain ⟨parsed, hparsed, hlacks⟩ := exists_lacks_of_tokenize h
    exact ⟨parsed, hparsed, hlacks '\n' (by decide)⟩

theorem render_faithful_empty_value :
    let absent : Node := ⟨.identifier, none, [], 1, 2, none⟩
    let empty : Node := ⟨.identifier, some "", [], 1, 2, none⟩
    let tree (leaf : Node) : Node :=
      ⟨.body, none, [⟨.term, some "a)\r", [leaf], 1, 1, none⟩, leaf], 1, 1, none⟩
    (tree absent).Lacks '\n' ∧ (tree empty).Lacks '\n' ∧
      (tree empty).lines = ["Body", "  Term (a)\r)", "    Identifier ()", "  Identifier ()"] ∧
      (tree absent).render 3 ≠ (tree empty).render 3 ∧
      tokenize "" = .ok [] ∧ ∃ parsed, parse [] = .ok parsed ∧ parsed.tree.Lacks '\n' := by
  intro absent empty tree
  obtain ⟨hprint, hinj, hparse⟩ := render_faithful
  have habsent : (tree absent).Lacks '\n' := by simp [tree, absent, lacks_iff]
  have hempty : (tree empty).Lacks '\n' := by simp [tree, empty, lacks_iff]
  have hapart : (tree absent).render 3 ≠ (tree empty).render 3 := by
    intro h
    have hshape := (hinj _ _ habsent hempty 3 3 h).2
    simp [tree, absent, empty, shape, shapes] at hshape
  have hlines : (tree empty).printedLines 0 =
      ["Body", "  Term (a)\r)", "    Identifier ()", "  Identifier ()"] := by
    decide +kernel
  exact ⟨habsent, hempty, (hprint _ hempty).2.1.trans hlines, hapart, tokenize_empty,
    hparse "" [] tokenize_empty⟩

end Node

end YupFront
