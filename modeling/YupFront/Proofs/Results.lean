import YupFront.Pipeline.Analysis
import YupFront.Proofs.Lexing
import YupFront.Proofs.Progress

/-! What the stages of a run return, with the journal left aside. -/

namespace YupFront

theorem bind_result (m : Logging α) (f : α → Logging β) (j : Journal) :
    ((m >>= f).run j).1 = ((f (m.run j).1).run (m.run j).2).1 := rfl

theorem parseLogged_result (mode : PositionMode) (traceRules : Bool) (ts : List Token)
    (j : Journal) : ((parseLogged mode traceRules ts).run j).1 = parse ts := by
  unfold parse parseLogged
  rcases runParser ts with ⟨stall | tree, s⟩ <;> rfl

theorem lex_result (preferences : LexingPreferences) (elapsed : Nat) (source : String)
    (j : Journal) :
    ((lex preferences elapsed source).run j).1 = Lexed.ofText preferences source := by
  unfold lex
  rcases Lexed.ofText preferences source with f | r <;> rfl

def Parsed.outcome (mode : PositionMode) (p : Parsed) : ParseOutcome :=
  ⟨some p.tree, p.diagnostics mode, none⟩

theorem parseProgram_result (preferences : ParsingPreferences) {ts : List Token} {p : Parsed}
    (h : parse ts = .ok p) (j : Journal) :
    ((parseProgram preferences ts).run j).1 =
      p.outcome (.ofLegacy preferences.legacyPositions) := by
  unfold parseProgram
  cases ts with
  | nil =>
    rw [parse_nil] at h
    cases h
    rfl
  | cons t ts =>
    simp only [List.isEmpty_cons, Bool.false_eq_true, if_false, bind_result, parseLogged_result, h]
    rfl

/-- What a run over a source finds, given its tokens and what they parse to. -/
def Analysis.found (p : Preferences) (elapsed : Nat) (source : String) (ts : List Token)
    (parsed : Parsed) : Analysis where
  source := source
  tokens := ts
  tree := if ts.isEmpty then none else some parsed.tree
  diagnostics := parsed.diagnostics (.ofLegacy p.parsing.legacyPositions)
  metrics := .ofTokens p.lexing.countKinds source.length ts
  file := none
  elapsed := elapsed

theorem tokenize_empty : tokenize "" = .ok [] := by
  simp [tokenize, Chunk.ofText, Chunk.cutAll, placeAll]

/-- A run over a text that can be lexed has a result, and the journal has no part in it. -/
theorem analyse_result (p : Preferences) (elapsed : Nat) (name : String) {source : String}
    {ts : List Token} {parsed : Parsed} (ht : tokenize source = .ok ts) (hp : parse ts = .ok parsed)
    (j : Journal) :
    ((analyse p elapsed name source).run j).1 = .ok (.ok (.found p elapsed source ts parsed)) := by
  unfold analyse
  by_cases hs : source = ""
  · subst hs
    rw [tokenize_empty] at ht
    cases ht
    rw [parse_nil] at hp
    cases hp
    rfl
  · have hl : Lexed.ofText p.lexing source =
        .ok ⟨ts, .ofTokens p.lexing.countKinds source.length ts⟩ := by
      simp [Lexed.ofText, ht]
    have he : source.isEmpty = false := by simpa using hs
    cases ts with
    | nil =>
      rw [parse_nil] at hp
      cases hp
      simp only [he, Bool.false_eq_true, if_false, bind_result, lex_result, hl]
      rfl
    | cons t ts =>
      simp only [he, Bool.false_eq_true, if_false, bind_result, lex_result, hl, List.isEmpty_cons,
        parseProgram_result _ hp]
      rfl

/-- A parse of any tokens comes to its end with a tree: no rule moves the cursor back or past the
last token, every statement that begins at a token passes it, and all tokens are passed. Hence no
stage of a run over a text that can be lexed fails. -/
theorem parse_never_breaks :
    (∀ {α : Type} (r : Rule α) (s : ParseState),
      (r.run s).2.cursor.tokens = s.cursor.tokens ∧
      s.cursor.position ≤ (r.run s).2.cursor.position ∧
      (r.run s).2.cursor.position ≤ s.cursor.tokens.length) ∧
    (∀ (level : Nat) (s : ParseState),
      (∃ node, ((statementAt level).run s).1 = .ok node) ∧
      (s.cursor.rest ≠ [] → s.cursor.position < ((statementAt level).run s).2.cursor.position)) ∧
    (∀ ts : List Token,
      (runParser ts).2.cursor.position = ts.length ∧
      (runParser ts).2.entries.Pairwise (· ≥ ·) ∧ ∀ i ∈ (runParser ts).2.entries, i ≤ ts.length) ∧
    (∀ (mode : PositionMode) (traceRules : Bool) (ts : List Token) (j : Journal),
      ∃ parsed, ((parseLogged mode traceRules ts).run j).1 = .ok parsed) ∧
    (∀ (preferences : ParsingPreferences) (ts : List Token) (j : Journal),
      ((parseProgram preferences ts).run j).1.failure = none ∧
      ((parseProgram preferences ts).run j).1.tree.isSome) ∧
    (∀ (p : Preferences) (elapsed : Nat) (source : String) (ts : List Token) (j : Journal),
      tokenize source = .ok ts →
      ∃ found, ((analyseSource p elapsed source).run j).1 = .ok (.ok found)) := by
  refine ⟨fun r s => ?_, fun level s => ?_, fun ts => ?_, fun mode traceRules ts j => ?_,
    fun preferences ts j => ?_, fun p elapsed source ts j ht => ?_⟩
  · have h := r.reaches s
    exact ⟨h.tokens_eq.symm, h.position_le, Cursor.position_le_length h⟩
  · have h := statementAt_proceeds level
    exact ⟨h.succeeds s, h.advances s⟩
  · have h := program.leads (.start ts)
    have ho := List.pairwise_cons.mp (h.ordered (ParseState.start_ordered ts))
    have hp : (runParser ts).2.cursor.position = ts.length := runParser_position ts
    exact ⟨hp, ho.2, fun i hi => hp ▸ ho.1 i hi⟩
  · obtain ⟨parsed, hp⟩ := parse_succeeds ts
    exact ⟨parsed, by rw [parseLogged_result, hp]⟩
  · obtain ⟨parsed, hp⟩ := parse_succeeds ts
    rw [parseProgram_result preferences hp]
    exact ⟨rfl, rfl⟩
  · obtain ⟨parsed, hp⟩ := parse_succeeds ts
    exact ⟨_, analyse_result p elapsed inlineName ht hp j⟩

theorem parse_never_breaks_semicolon :
    let p : Preferences :=
      ⟨⟨true, false⟩, ⟨true, false⟩, ⟨false, false⟩, ⟨false, true, .info, true⟩⟩
    let t : Token := ⟨.semicolon, ";", 0, 0, ⟨.start, ⟨1, 1, 2⟩⟩⟩
    let s := ParseState.start [t]
    s.cursor.rest ≠ [] ∧ s.cursor.position < ((statementAt 0).run s).2.cursor.position ∧
      tokenize ";" = .ok [t] ∧
      ∃ found, ((analyseSource p 0 ";").run (.empty true)).1 = .ok (.ok found) := by
  obtain ⟨-, hstatement, -, -, -, hanalyse⟩ := parse_never_breaks
  have hchunks : Chunk.ofText ";".toList = [.symbol [';']] := by
    simp [Chunk.ofText_cons, Chunk.cut, isSeparator, isPunctuation]
  have hsource : tokenize ";" = .ok [⟨.semicolon, ";", 0, 0, ⟨.start, ⟨1, 1, 2⟩⟩⟩] := by
    rw [tokenize, hchunks]
    rfl
  exact ⟨by decide, (hstatement 0 _).2 (by decide), hsource, hanalyse _ 0 ";" _ _ hsource⟩

end YupFront
