import YupFront.Proofs.JsonText
import YupFront.Tree.Render

/-! Trees written as JSON text and read back. A tree comes back without its spans, as long as it is no
deeper than a reader goes: each level of a tree is an object and an array. -/

namespace YupFront.Node

mutual

/-- The tree with the spans left out. -/
def unspanned : Node → Node
  | ⟨kind, value, children, line, column, _⟩ =>
    ⟨kind, value, allUnspanned children, line, column, none⟩
termination_by structural n => n

def allUnspanned : List Node → List Node
  | [] => []
  | n :: ns => unspanned n :: allUnspanned ns
termination_by structural ns => ns

end

/-- Lines and columns are numbers that fit. -/
inductive Placed : Node → Prop where
  | mk {kind : NodeKind} {value : Option String} {children : List Node} {line column : Nat}
      {span : Option Span} : line < lineBound → column < lineBound → (∀ n ∈ children, Placed n) →
      Placed ⟨kind, value, children, line, column, span⟩

theorem depthAllFrom_le_iff (ns : List Node) (start bound : Nat) :
    depthAllFrom start ns ≤ bound ↔ start ≤ bound ∧ ∀ n ∈ ns, n.depth ≤ bound := by
  induction ns generalizing start with
  | nil => simp [depthAllFrom]
  | cons n ns ih =>
    rw [depthAllFrom, ih, Nat.max_le]
    simp [and_assoc]

mutual

theorem spelled_toJson : ∀ n : Node, n.toJson.Spelled
  | ⟨kind, value, children, line, column, _⟩ => by
    rw [toJson.eq_def]
    refine .record fun f hf => ?_
    simp only [List.mem_append] at hf
    rcases hf with ((hf | hf) | hf) | hf
    · obtain rfl := List.mem_singleton.mp hf
      exact .string _
    · cases value with
      | none => simp at hf
      | some v =>
        obtain rfl := List.mem_singleton.mp hf
        exact .string _
    · cases children with
      | nil => simp at hf
      | cons c cs =>
        obtain rfl := List.mem_singleton.mp hf
        exact .array (spelled_allToJson (c :: cs))
    · have hplace : ∀ f ∈ [("line", Json.nat line), ("column", Json.nat column)], f.2.Spelled := by
        simp [Json.spelled_nat]
      exact hplace f hf

theorem spelled_allToJson : ∀ ns : List Node, ∀ v ∈ allToJson ns, v.Spelled
  | [] => by simp [allToJson]
  | n :: ns => by
    rw [allToJson]
    exact List.forall_mem_cons.mpr ⟨spelled_toJson n, spelled_allToJson ns⟩

end

/-- The children as a field, which is left out if there are none. -/
def childrenJson? : List Node → Option Json
  | [] => none
  | ns => some (.array (allToJson ns))

theorem fields?_toJson (kind : NodeKind) (value : Option String) (children : List Node)
    (line column : Nat) (span : Option Span) :
    (toJson ⟨kind, value, children, line, column, span⟩).fields?
        ["kind", "value", "children", "line", "column"] =
      some [some (.text kind.name), value.map Json.text, childrenJson? children, some (.nat line),
        some (.nat column)] := by
  cases value <;> cases children <;>
    simp [toJson, Json.fields?, Json.field?, Json.record, childrenJson?, allToJson]

theorem choice?_name (kind : NodeKind) (levels : Nat) :
    (Json.text kind.name).choice? NodeKind.all NodeKind.name levels = some kind := by
  have hfind : (NodeKind.all.find? fun k => k.name == kind.name) = some kind := by
    cases kind <;> decide
  exact hfind

theorem ofFields?_toJson {line column : Nat} (hline : line < lineBound)
    (hcolumn : column < lineBound) (kind : NodeKind) (value : Option String) (children : List Node)
    (span : Option Span) (levels : Nat) (child? : Option (Json → Option Node)) :
    ofFields? levels child? (toJson ⟨kind, value, children, line, column, span⟩) =
      (match childrenJson? children, child? with
        | none, _ => some []
        | some _, none => none
        | some v, some child? => v.items? child?).map
          fun read => ⟨kind, value, read, line, column, none⟩ := by
  have hvalue : ∀ text : String, (Json.text text).optional? Json.text? = some (some text) :=
    fun _ => rfl
  have hbound : lineBound ≤ Nat.pow 10 20 := by decide
  have hnumbers := And.intro (Json.natBelow?_nat hline hbound) (Json.natBelow?_nat hcolumn hbound)
  have hmap : ∀ (o : Option (List Node)) (f : List Node → Node),
      (o.bind fun ns => some (f ns)) = o.map f := fun _ _ => Option.map_eq_bind.symm
  rw [ofFields?, fields?_toJson]
  cases value <;> cases childrenJson? children <;> cases child? <;>
    simp [choice?_name, hvalue, hnumbers, hmap]

theorem mapM_ofJson? {levels : Nat} {ns : List Node}
    (h : ∀ n ∈ ns, ofJson? levels n.toJson =
      if 2 * n.depth ≤ levels + 1 then some n.unspanned else none) :
    (allToJson ns).mapM (ofJson? levels) =
      if ∀ n ∈ ns, 2 * n.depth ≤ levels + 1 then some (allUnspanned ns) else none := by
  induction ns with
  | nil => simp [allToJson, allUnspanned]
  | cons n ns ih =>
    have hn := h n List.mem_cons_self
    have hns := ih fun m hm => h m (List.mem_cons_of_mem n hm)
    rw [allToJson, List.mapM_cons, hn, hns, allUnspanned]
    simp only [List.forall_mem_cons]
    by_cases hdepth : 2 * n.depth ≤ levels + 1
    · by_cases hall : ∀ m ∈ ns, 2 * m.depth ≤ levels + 1
      · simp only [hdepth, true_and, if_pos hall, if_true]
        rfl
      · simp only [hdepth, true_and, if_neg hall, if_true]
        rfl
    · simp only [hdepth, false_and, if_false]
      rfl

theorem depth_pos (n : Node) : 0 < n.depth := by
  obtain ⟨kind, value, children, line, column, span⟩ := n
  exact Nat.succ_pos _

theorem depth_le_iff (children : List Node) (levels : Nat) :
    2 * (depthAllFrom 0 children + 1) ≤ levels + 3 ↔ ∀ n ∈ children, 2 * n.depth ≤ levels + 1 := by
  have hall := depthAllFrom_le_iff children 0 ((levels + 1) / 2)
  have hleft : 2 * (depthAllFrom 0 children + 1) ≤ levels + 3 ↔
      depthAllFrom 0 children ≤ (levels + 1) / 2 := by omega
  have hright : ∀ n : Node, n.depth ≤ (levels + 1) / 2 ↔ 2 * n.depth ≤ levels + 1 := by
    intro n
    omega
  simp only [hleft, hall, hright, Nat.zero_le, true_and]

/-- A tree of depth `d` needs `2 * d - 1` levels of nesting, and no more. -/
theorem ofJson?_toJson {n : Node} (h : n.Placed) (levels : Nat) :
    ofJson? levels n.toJson = if 2 * n.depth ≤ levels + 1 then some n.unspanned else none := by
  induction h generalizing levels with
  | @mk kind value children line column span hline hcolumn _ ih =>
    have hdepth : depth ⟨kind, value, children, line, column, span⟩ = depthAllFrom 0 children + 1 :=
      rfl
    have hplaced : unspanned ⟨kind, value, children, line, column, span⟩ =
        ⟨kind, value, allUnspanned children, line, column, none⟩ := rfl
    rw [hdepth, hplaced]
    -- A child is read two levels further in, or not at all.
    match levels with
    | 0 =>
      have hdeep : ¬2 * (depthAllFrom 0 children + 1) ≤ 0 + 1 := by omega
      rw [if_neg hdeep]
      rfl
    | 1 =>
      rw [ofJson?, ofFields?_toJson hline hcolumn]
      cases children with
      | nil => rfl
      | cons c cs =>
        have hdeep : ¬2 * (depthAllFrom 0 (c :: cs) + 1) ≤ 1 + 1 := by
          have hc := ((depthAllFrom_le_iff (c :: cs) 0 _).mp (Nat.le_refl _)).2 c List.mem_cons_self
          have hpos := c.depth_pos
          omega
        rw [if_neg hdeep]
        rfl
    | inner + 2 =>
      have hread : (match childrenJson? children, some (ofJson? inner) with
          | none, _ => some []
          | some _, none => none
          | some v, some child? => v.items? child?) =
          if ∀ n ∈ children, 2 * n.depth ≤ inner + 1 then some (allUnspanned children) else none := by
        cases children with
        | nil => simp [childrenJson?, allUnspanned]
        | cons c cs => exact mapM_ofJson? fun n hn => ih n hn inner
      rw [ofJson?, ofFields?_toJson hline hcolumn, hread]
      simp only [depth_le_iff children inner]
      split <;> rfl

/-- A written tree is read back without its spans if it is no deeper than 64, and else not read. -/
theorem json_round_trip {n : Node} (h : n.Placed) :
    read? n.toJson.compact = if n.depth ≤ 64 then some n.unspanned else none := by
  have hread : read? n.toJson.compact = ofJson? Json.nestingLimit n.toJson := by
    rw [read?, Json.read?_compact (spelled_toJson n)]
    rfl
  have hlimit : 2 * n.depth ≤ Json.nestingLimit + 1 ↔ n.depth ≤ 64 := by
    have hnesting : Json.nestingLimit = 127 := rfl
    omega
  rw [hread, ofJson?_toJson h]
  simp only [hlimit]

theorem json_round_trip_escaped :
    Placed ⟨.term, none, [⟨.identifier, some "\"\\\x01𝄞", [], 4294967295, 0, some default⟩], 0, 7,
      none⟩ ∧
    read? (toJson ⟨.term, none,
        [⟨.identifier, some "\"\\\x01𝄞", [], 4294967295, 0, some default⟩], 0, 7, none⟩).compact =
      some ⟨.term, none, [⟨.identifier, some "\"\\\x01𝄞", [], 4294967295, 0, none⟩], 0, 7, none⟩ := by
  have hleaf : Placed ⟨.identifier, some "\"\\\x01𝄞", [], 4294967295, 0, some default⟩ :=
    .mk (by decide) (by decide) nofun
  have hplaced : Placed ⟨.term, none,
      [⟨.identifier, some "\"\\\x01𝄞", [], 4294967295, 0, some default⟩], 0, 7, none⟩ :=
    .mk (by decide) (by decide) (by simpa using hleaf)
  exact ⟨hplaced, json_round_trip hplaced⟩

end YupFront.Node
